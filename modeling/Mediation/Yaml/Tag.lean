import Mediation.Decimal
import Mediation.Radix
import Mediation.Yaml.Cursor

/-!
# Anchors and tags

What may stand in front of a value: an anchor, by which an alias repeats the
value later, and a tag, which is written with a handle for its beginning. A
directive in front of a document gives a handle its meaning.

A tag is a sequence of octets. Octets that cannot be written as they are stand
behind a percent sign; they have to form characters, and a zero octet ends the
tag.
-/

namespace Mediation.Yaml

/-! ### Names -/

def isNameChar (c : Char) : Bool := c.isAlphanum || c = '-' || c = '_'

def endsName (cs : List Char) : Bool :=
  endsWord cs || cs.head?.any fun c =>
    c = '?' || c = ':' || c = ',' || c = ']' || c = '}' || c = '%' || c = '@' || c = '\u0060'

def readName (cs : List Char) : Option (String × List Char) :=
  let name := cs.takeWhile isNameChar
  let rest := cs.drop name.length
  if name = [] || !endsName rest then none else some (String.ofList name, rest)

/-! ### Octets -/

def octetCount? (n : Nat) : Option Nat :=
  if n < 0x80 then some 1
  else if 0xC0 ≤ n && n < 0xE0 then some 2
  else if 0xE0 ≤ n && n < 0xF0 then some 3
  else if 0xF0 ≤ n && n < 0xF8 then some 4
  else none

def isLaterOctet (n : Nat) : Bool := 0x80 ≤ n && n < 0xC0

/-- Whether a character may stand in a tag; where the tag has an end of its own
(`wide`), a comma and square brackets may. -/
def isTagChar (wide : Bool) (c : Char) : Bool :=
  isNameChar c || [';', '/', '?', ':', '@', '&', '=', '+', '$', '.', '!', '~', '*', '\'', '(',
    ')'].contains c || (wide && (c = ',' || c = '[' || c = ']'))

/-- The octets of a tag, and what follows; the number counts those that the
character begun last still lacks. -/
def readOctets (wide : Bool) : Nat → List Char → Option (List Char × List Char)
  | later, '%' :: a :: b :: r =>
    match Radix.number? 16 [a, b] with
    | none => none
    | some n =>
      match later with
      | 0 =>
        match octetCount? n with
        | none => none
        | some count => (readOctets wide (count - 1) r).map fun p => (Char.ofNat n :: p.1, p.2)
      | later + 1 =>
        if isLaterOctet n then
          (readOctets wide later r).map fun p => (Char.ofNat n :: p.1, p.2)
        else none
  | _ + 1, _ => none
  | 0, [] => some ([], [])
  | 0, c :: r =>
    if c = '%' then none
    else if isTagChar wide c then (readOctets wide 0 r).map fun p => (c :: p.1, p.2)
    else some ([], c :: r)

def upToZero (cs : List Char) : List Char := cs.takeWhile (· ≠ '\x00')

/-- The part of a tag that is written out, and what follows; it may not be empty. -/
def readTagPart (wide : Bool) (cs : List Char) : Option (String × List Char) :=
  match readOctets wide 0 cs with
  | none => none
  | some (part, rest) => if part = [] then none else some (String.ofList (upToZero part), rest)

/-! ### Tags -/

/-- A tag as it is written: a handle, and what is written out. -/
structure TagName where
  handle : String
  suffix : String
  deriving DecidableEq, Repr

/-- The handle behind its first mark, and what follows: one mark alone, or a name
between two of them. -/
def readHandle (cs : List Char) : Option (String × List Char) :=
  let word := cs.takeWhile isNameChar
  match cs.drop word.length with
  | '!' :: r => some (String.ofList ('!' :: word ++ ['!']), r)
  | r => if word = [] then some ("!", r) else none

/-- A tag without a handle of its own behind its mark, and what follows; a mark
alone is a tag too. -/
def readShortTag (cs : List Char) : Option (TagName × List Char) :=
  (readOctets false 0 cs).map fun p =>
    let suffix := String.ofList (upToZero p.1)
    (if suffix = "" then ⟨"", "!"⟩ else ⟨"!", suffix⟩, p.2)

/-- The tag behind its mark, and what follows: in full between angle brackets, or
with a handle. -/
def readTag (cs : List Char) : Option (TagName × List Char) :=
  match cs with
  | '<' :: r =>
    match readTagPart true r with
    | some (tag, '>' :: r) => some (⟨"", tag⟩, r)
    | _ => none
  | cs =>
    match readHandle cs with
    | none => readShortTag cs
    | some (handle, r) =>
      if handle = "!" then readShortTag cs
      else (readTagPart false r).map fun p => (⟨handle, p.1⟩, p.2)

def standardPrefix : String := "tag:yaml.org,2002:"

def standardHandles : List (String × String) := [("!", "!"), ("!!", standardPrefix)]

/-- The tag in full, given the meaning of the handles; none when its handle has no meaning. -/
def TagName.resolve? (handles : List (String × String)) (t : TagName) : Option String :=
  if t.handle = "" then some t.suffix else (handles.lookup t.handle).map (· ++ t.suffix)

/-! ### Directives -/

inductive Directive where
  | version (major minor : Nat)
  | handle (name meaning : String)
  deriving DecidableEq, Repr

def maxVersionDigits : Nat := 9

def readVersionNumber (cs : List Char) : Option (Nat × List Char) :=
  let (ds, rest) := Decimal.span cs
  if ds = [] || maxVersionDigits < ds.length then none else some (Decimal.value ds, rest)

def readVersion (cs : List Char) : Option (Directive × List Char) :=
  match readVersionNumber (cs.dropWhile isSpace) with
  | some (major, '.' :: r) => (readVersionNumber r).map fun p => (.version major p.1, p.2)
  | _ => none

def readHandleMeaning (cs : List Char) : Option (Directive × List Char) :=
  match cs.dropWhile isSpace with
  | '!' :: r =>
    match readHandle r with
    | none => none
    | some (name, r) =>
      if r.head?.any isSpace then
        match readTagPart true (r.dropWhile isSpace) with
        | none => none
        | some (meaning, r) => if endsWord r then some (.handle name meaning, r) else none
      else none
  | _ => none

def readDirective (cs : List Char) : Option (Directive × List Char) :=
  let name := cs.takeWhile isNameChar
  let rest := cs.drop name.length
  if !endsWord rest then none
  else if name = ['Y', 'A', 'M', 'L'] then readVersion rest
  else if name = ['T', 'A', 'G'] then readHandleMeaning rest
  else none

end Mediation.Yaml
