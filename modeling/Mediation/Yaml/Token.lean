import Mediation.Yaml.Scalar
import Mediation.Yaml.Tag

/-!
# Tokens

A text as a list of tokens: marks, scalars, properties and directives, and the
places where blocks begin and end, which only columns tell.

A key of a mapping needs no mark of its own: that something was a key is known
when a colon follows it on the same line. The lexer remembers where such a key
may have begun and then puts the token of a key in front of what it has read
since. In a block the key may open a mapping there.
-/

namespace Mediation.Yaml

inductive Token where
  | directive (d : Directive)
  | documentStart
  | documentEnd
  | sequenceStart
  | mappingStart
  | blockEnd
  | flowSequenceStart
  | flowSequenceEnd
  | flowMappingStart
  | flowMappingEnd
  | flowEntry
  | item
  | key
  | value
  | anchor (name : String)
  | alias (name : String)
  | tag (t : TagName)
  | scalar (text : String) (style : Style)
  deriving DecidableEq, Repr

/-- Where a key without a mark may have begun: what follows, the column, whether
nothing but a key may stand there, and how many tokens were read before. -/
structure KeyStart where
  rest : List Char
  column : Nat
  required : Bool
  index : Nat

/-- Reading of tokens has come to a place. There are open blocks, given by their
columns, and open brackets; in each of them a key may have begun, the innermost
comes first. The tokens read so far stand in reverse. -/
structure Lexer where
  cursor : Cursor
  blocks : List Nat
  keyStart : Option KeyStart
  outerKeys : List (Option KeyStart)
  tokens : List Token

namespace Lexer

def start (cs : List Char) : Lexer := ⟨.start cs, [], none, [], []⟩

def inFlow (l : Lexer) : Bool := !l.outerKeys.isEmpty

def margin (l : Lexer) : Nat :=
  match l.blocks with
  | [] => 0
  | column :: _ => column + 1

def moveTo (l : Lexer) (c : Cursor) : Lexer := { l with cursor := c }

/-- Goes on behind characters of one line, given what follows them, where a key
may begin or not. -/
def advance (l : Lexer) (rest : List Char) (fresh : Bool) : Lexer :=
  l.moveTo { l.cursor.upTo rest with fresh := fresh }

def emit (l : Lexer) (t : Token) : Lexer := { l with tokens := t :: l.tokens }

/-! ### Blocks -/

def closeBlocks (l : Lexer) (column : Nat) : Lexer :=
  if l.inFlow then l
  else
    let closed := (l.blocks.takeWhile (column ≤ ·)).length
    { l with
      blocks := l.blocks.drop closed
      tokens := List.replicate closed .blockEnd ++ l.tokens }

def opensBlock (l : Lexer) (column : Nat) : Bool := !l.inFlow && l.margin ≤ column

def openBlock (l : Lexer) (t : Token) : Lexer :=
  let column := l.cursor.column
  if l.opensBlock column then { l.emit t with blocks := column :: l.blocks } else l

/-! ### Keys -/

/-- Gives up the key that may have begun; none if nothing but a key may stand there. -/
def dropKey? (l : Lexer) : Option Lexer :=
  if l.keyStart.any (·.required) then none else some { l with keyStart := none }

def noteKey? (l : Lexer) : Option Lexer :=
  let c := l.cursor
  if c.fresh then
    l.dropKey?.map fun l =>
      let required := !l.inFlow && l.blocks.head? = some c.column
      { l with keyStart := some ⟨c.rest, c.column, required, l.tokens.length⟩ }
  else some l

def insertKey (l : Lexer) (k : KeyStart) : Lexer :=
  let since := l.tokens.take (l.tokens.length - k.index)
  let before := l.tokens.drop (l.tokens.length - k.index)
  if l.opensBlock k.column then
    { l with
      tokens := since ++ .key :: .mappingStart :: before
      blocks := k.column :: l.blocks
      keyStart := none }
  else { l with tokens := since ++ .key :: before, keyStart := none }

/-! ### Marks -/

/-- Reads a mark at which nothing is open, behind the blocks before it. -/
def readDocumentMark (l : Lexer) (t : Token) (mark : List Char) : Option Lexer :=
  (l.closeBlocks 0).dropKey?.map fun l =>
    (l.advance (l.cursor.rest.drop mark.length) false).emit t

def readDirectiveLine (l : Lexer) (rest : List Char) : Option Lexer :=
  match (l.closeBlocks 0).dropKey?, readDirective rest with
  | some l, some (d, rest) =>
    (afterHeader rest).map fun rest => (l.moveTo ⟨rest, 0, false⟩).emit (.directive d)
  | _, _ => none

def openFlow (l : Lexer) (t : Token) (rest : List Char) : Option Lexer :=
  l.noteKey?.map fun l =>
    { (l.advance rest true).emit t with keyStart := none, outerKeys := l.keyStart :: l.outerKeys }

/-- Reads a closing bracket; it need not be the right one. -/
def closeFlow (l : Lexer) (t : Token) (rest : List Char) : Option Lexer :=
  l.dropKey?.map fun l =>
    let l := (l.advance rest false).emit t
    match l.outerKeys with
    | [] => l
    | k :: ks => { l with keyStart := k, outerKeys := ks }

def readFlowEntry (l : Lexer) (rest : List Char) : Option Lexer :=
  l.dropKey?.map fun l => (l.advance rest true).emit .flowEntry

def readItem (l : Lexer) (rest : List Char) : Option Lexer :=
  if !l.inFlow && !l.cursor.fresh then none
  else (l.openBlock .sequenceStart).dropKey?.map fun l => (l.advance rest true).emit .item

def readKey (l : Lexer) (rest : List Char) : Option Lexer :=
  if !l.inFlow && !l.cursor.fresh then none
  else (l.openBlock .mappingStart).dropKey?.map fun l => (l.advance rest !l.inFlow).emit .key

def readLoneValue (l : Lexer) (rest : List Char) : Option Lexer :=
  if !l.inFlow && !l.cursor.fresh then none
  else some (((l.openBlock .mappingStart).advance rest !l.inFlow).emit .value)

def readValue (l : Lexer) (rest : List Char) : Option Lexer :=
  match l.keyStart with
  | none => l.readLoneValue rest
  | some k =>
    if mayBeKey k.rest l.cursor.rest then some (((l.insertKey k).advance rest false).emit .value)
    else l.dropKey?.bind fun l => l.readLoneValue rest

/-! ### Properties and scalars -/

def readAnchor (l : Lexer) (t : String → Token) (rest : List Char) : Option Lexer :=
  match l.noteKey?, readName rest with
  | some l, some (name, rest) => some ((l.advance rest false).emit (t name))
  | _, _ => none

/-- Reads a tag; white space follows it, or a comma inside brackets. -/
def readTagMark (l : Lexer) (rest : List Char) : Option Lexer :=
  match l.noteKey?, readTag rest with
  | some l, some (t, rest) =>
    if endsWord rest || (l.inFlow && rest.head? = some ',') then
      some ((l.advance rest false).emit (.tag t))
    else none
  | _, _ => none

def addScalar (l : Lexer) (style : Style) (s : Scanned) : Lexer :=
  (l.moveTo s.after).emit (.scalar (String.ofList s.chars) style)

/-- Reads a block scalar, which is no key. -/
def readBlockScalar (l : Lexer) (folded : Bool) (rest : List Char) : Option Lexer :=
  match l.dropKey?, readBlock folded l.margin rest with
  | some l, some s => some (l.addScalar (if folded then .folded else .literal) s)
  | _, _ => none

def readScalar (l : Lexer) (style : Style) (scanned : Option Scanned) : Option Lexer :=
  match l.noteKey?, scanned with
  | some l, some s => some (l.addScalar style s)
  | _, _ => none

/-! ### All tokens -/

def readToken (l : Lexer) : Option Lexer :=
  let c := l.cursor
  let flow := l.inFlow
  if c.column = 0 && c.rest.head? = some '%' then l.readDirectiveLine (c.rest.drop 1)
  else if c.column = 0 && beginsWith documentStartMark c.rest then
    l.readDocumentMark .documentStart documentStartMark
  else if c.column = 0 && beginsWith documentEndMark c.rest then
    l.readDocumentMark .documentEnd documentEndMark
  else
    match c.rest with
    | [] => none
    | x :: r =>
      if x = '[' then l.openFlow .flowSequenceStart r
      else if x = '{' then l.openFlow .flowMappingStart r
      else if x = ']' then l.closeFlow .flowSequenceEnd r
      else if x = '}' then l.closeFlow .flowMappingEnd r
      else if x = ',' then l.readFlowEntry r
      else if x = '-' && endsWord r then l.readItem r
      else if x = '?' && (flow || endsWord r) then l.readKey r
      else if x = ':' && (flow || endsWord r) then l.readValue r
      else if x = '*' then l.readAnchor .alias r
      else if x = '&' then l.readAnchor .anchor r
      else if x = '!' then l.readTagMark r
      else if x = '|' && !flow then l.readBlockScalar false r
      else if x = '>' && !flow then l.readBlockScalar true r
      else if x = '\'' then l.readScalar .quoted (readSingle .none (c.column + 1) r)
      else if x = '"' then l.readScalar .quoted (readDouble 0 .none (c.column + 1) r)
      else if startsPlain flow c.rest then
        l.readScalar .plain (readPlain flow l.margin .none c.column c.rest)
      else none

def readAll : Nat → Lexer → Option (List Token)
  | 0, _ => none
  | fuel + 1, l =>
    let l := l.moveTo (l.cursor.next l.inFlow)
    if l.cursor.rest = [] then ((l.closeBlocks 0).dropKey?).map fun l => l.tokens.reverse
    else (l.closeBlocks (l.cursor.column + 1)).readToken.bind (readAll fuel)

end Lexer

/-- The tokens of a text; each takes a character at least. -/
def Token.ofChars? (cs : List Char) : Option (List Token) :=
  (Lexer.start cs).readAll (cs.length + 1)

end Mediation.Yaml
