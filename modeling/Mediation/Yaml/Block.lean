import Mediation.Yaml.Cursor

/-!
# Block scalars

A scalar of indented lines below its header. In the literal form lines stay
lines; in the folded form a single line break between two lines that are not
indented further becomes a space. The header may tell the indentation, and
whether the line breaks at the end are kept or stripped.
-/

namespace Mediation.Yaml

/-- What becomes of the line breaks at the end: one is kept, none or all. -/
inductive Chomping where
  | clip
  | strip
  | keep
  deriving DecidableEq, Repr

structure BlockHeader where
  chomping : Chomping
  indent : Option Nat
  deriving DecidableEq

structure BlockLine where
  text : List Char
  ending : List Char
  deriving DecidableEq

/-! ### Reading -/

def readChomping : List Char → Option Chomping × List Char
  | '+' :: r => (some .keep, r)
  | '-' :: r => (some .strip, r)
  | r => (none, r)

/-- The digit for the indentation, if there is one; zero is none. -/
def readIndent : List Char → Option (Option Nat × List Char)
  | [] => some (none, [])
  | c :: r =>
    if c = '0' then none
    else if '1' ≤ c && c ≤ '9' then some (some (c.toNat - 48), r)
    else some (none, c :: r)

/-- The header behind its mark; sign and digit may stand in either order. -/
def readHeader (cs : List Char) : Option (BlockHeader × List Char) :=
  let (first, rest) := readChomping cs
  match readIndent rest with
  | none => none
  | some (indent, rest) =>
    match first with
    | some chomping => some (⟨chomping, indent⟩, rest)
    | none =>
      if indent = none then some (⟨.clip, none⟩, rest)
      else
        let (chomping, rest) := readChomping rest
        some (⟨chomping.getD .clip, indent⟩, rest)

/-- The text behind the line of a header, on which only a comment may follow. -/
def afterHeader (cs : List Char) : Option (List Char) :=
  match cs.dropWhile isSpace with
  | [] => some []
  | c :: r =>
    if isBreak c then some r
    else if c = '#' then some ((r.dropWhile (!isBreak ·)).drop 1)
    else none

/-- The widest indentation up to the first line that holds anything; none when a
tab stands in it. -/
def widestIndent : Nat → Nat → List Char → Option Nat
  | widest, column, [] => some (max widest column)
  | widest, column, c :: r =>
    if c = ' ' then widestIndent widest (column + 1) r
    else if c = '\t' then none
    else if isBreak c then widestIndent (max widest column) 0 r
    else some (max widest column)

def addToFirst (c : Char) : List BlockLine → List BlockLine
  | [] => [⟨[c], []⟩]
  | l :: ls => { l with text := c :: l.text } :: ls

/-- The lines of an indentation, and the place behind them; none when a tab
stands in the indentation. -/
def readLines (indent : Nat) : Bool → Nat → List Char → Option (List BlockLine × Cursor)
  | true, column, [] => some ([⟨[], []⟩], ⟨[], column, true⟩)
  | false, column, [] => some ([], ⟨[], column, true⟩)
  | inText, column, c :: r =>
    if isBreak c then (readLines indent false 0 r).map fun p => (⟨[], [c]⟩ :: p.1, p.2)
    else if inText then (readLines indent true (column + 1) r).map fun p => (addToFirst c p.1, p.2)
    else if column < indent && c = ' ' then readLines indent false (column + 1) r
    else if column < indent && c = '\t' then none
    else if column = indent then
      (readLines indent true (column + 1) r).map fun p => (addToFirst c p.1, p.2)
    else some ([], ⟨c :: r, column, true⟩)

def BlockLine.isIndented (l : BlockLine) : Bool :=
  match l.text with
  | [] => false
  | c :: _ => isSpace c

/-- What a scalar's lines come to. The state is the ending of the last line that
holds text, whether that line is indented further, and the breaks since. -/
def joinLines (folded : Bool) (chomping : Chomping) :
    List Char → Bool → List Char → List BlockLine → List Char
  | ending, _, breaks, [] =>
    match chomping with
    | .strip => []
    | .clip => ending
    | .keep => ending ++ breaks
  | ending, indented, breaks, l :: ls =>
    if l.text = [] then joinLines folded chomping ending indented (breaks ++ l.ending) ls
    else
      let between :=
        if folded && ending = ['\n'] && !indented && !l.isIndented then
          (if breaks = [] then [' '] else breaks)
        else ending ++ breaks
      between ++ l.text ++ joinLines folded chomping l.ending l.isIndented [] ls

def readBlock (folded : Bool) (margin : Nat) (cs : List Char) : Option Scanned :=
  match readHeader cs with
  | none => none
  | some (header, rest) =>
    match afterHeader rest with
    | none => none
    | some body =>
      let indent? := match header.indent with
        | some n => some (margin - 1 + n)
        | none => (widestIndent 0 0 body).map fun widest => max widest (max margin 1)
      match indent? with
      | none => none
      | some indent =>
        (readLines indent false 0 body).map fun p =>
          ⟨joinLines folded header.chomping [] false [] p.1, p.2⟩

/-! ### Writing -/

def literalSigns (cs : List Char) : List Char :=
  let indent := match cs with
    | [] => []
    | c :: _ => if c = ' ' || isBreak c then ['2'] else []
  let chomping := match cs.reverse with
    | [] => ['-']
    | [c] => if isBreak c then ['+'] else ['-']
    | c :: d :: _ => if !isBreak c then ['-'] else if isBreak d then ['+'] else []
  indent ++ chomping

/-- Writes the lines of a literal with their indentation, up to the end of the
last one; the flag tells that a line begins. -/
def writeLines (indent : Nat) : Bool → List Char → List Char
  | true, [] => []
  | false, [] => ['\n']
  | atStart, c :: r =>
    if isBreak c then c :: writeLines indent true r
    else (if atStart then List.replicate indent ' ' else []) ++ c :: writeLines indent false r

def literal (indent : Nat) (cs : List Char) : List Char :=
  '|' :: literalSigns cs ++ '\n' :: writeLines indent true cs

end Mediation.Yaml
