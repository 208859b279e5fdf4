import Mediation.Double
import Mediation.Json.Basic

/-!
# JSON texts as far as they read

`Document` is what a text comes to: a tree in which `malformed` stands at the
place where reading had to stop. A decoder that walks the tree in text order
meets a malformed place exactly where it stands in the text, so faults of form
and faults of content are reported in one order.

Two kinds of part are well formed but name no value: a string with half of a
surrogate pair, or a number beyond the range of a double (`unreadable`), and an
array or object nested more than 127 deep (`deep`). They may be skipped but not
read.
-/

namespace Mediation

namespace Json

inductive Key where
  | named (s : String)
  | unreadable
  | stray
  deriving DecidableEq, Repr

/-- The text of a name; none could be read where it is empty. -/
def Key.text : Key → String
  | .named s => s
  | .unreadable | .stray => ""

inductive Document where
  | null
  | bool (b : Bool)
  | int (i : Int)
  | float (text : String)
  | string (s : String)
  | unreadable
  | array (items : List Document)
  | object (members : List (Key × Document))
  | deep (d : Document)
  | malformed

/-! ### Blanks and strings -/

def isBlank (c : Char) : Bool := c = ' ' || c = '\n' || c = '\t' || c = '\r'

def skipBlanks : List Char → List Char
  | [] => []
  | c :: cs => if isBlank c then skipBlanks cs else c :: cs

/-- A character of a string as written: itself, or a code unit given by `\u`. -/
inductive Piece where
  | char (c : Char)
  | codeUnit (n : Nat)

def shortEscape? (c : Char) : Option Char :=
  if c = '"' then some '"'
  else if c = '\\' then some '\\'
  else if c = '/' then some '/'
  else if c = 'b' then some '\x08'
  else if c = 'f' then some '\x0c'
  else if c = 'n' then some '\n'
  else if c = 'r' then some '\r'
  else if c = 't' then some '\t'
  else none

/-- The pieces of a string up to its closing quote, and the text behind it;
none when the string is malformed. -/
def scanPieces : List Char → Option (List Piece × List Char)
  | [] => none
  | '"' :: r => some ([], r)
  | '\\' :: 'u' :: a :: b :: c :: d :: r =>
    match Radix.number? 16 [a, b, c, d], scanPieces r with
    | some n, some (ps, rest) => some (.codeUnit n :: ps, rest)
    | _, _ => none
  | '\\' :: e :: r =>
    match shortEscape? e, scanPieces r with
    | some c, some (ps, rest) => some (.char c :: ps, rest)
    | _, _ => none
  | c :: r =>
    if c.toNat < 32 || c = '\\' then none
    else (scanPieces r).map fun p => (.char c :: p.1, p.2)

/-- The characters that pieces name: a code unit outside the surrogates is a
character, a high one followed by a low one is a character, and any other
surrogate is none. -/
def joinPieces : List Piece → Option (List Char)
  | [] => some []
  | .char c :: ps => (joinPieces ps).map (c :: ·)
  | .codeUnit h :: .codeUnit l :: ps =>
    if 0xD800 ≤ h && h < 0xDC00 && 0xDC00 ≤ l && l < 0xE000 then
      (joinPieces ps).map (Char.ofNat (0x10000 + (h - 0xD800) * 1024 + (l - 0xDC00)) :: ·)
    else if 0xD800 ≤ h && h < 0xE000 then none
    else (joinPieces (.codeUnit l :: ps)).map (Char.ofNat h :: ·)
  | .codeUnit h :: ps =>
    if 0xD800 ≤ h && h < 0xE000 then none
    else (joinPieces ps).map (Char.ofNat h :: ·)

/-! ### Numbers -/

/-- The number of the first digits that a word of 64 bits holds, behind digits of
a given number, and the digits that are left. -/
def leading : Nat → List Char → Nat × List Char
  | n, [] => (n, [])
  | n, d :: ds =>
    let next := 10 * n + Decimal.digitValue d
    if 2 ^ 64 ≤ next then (n, d :: ds) else leading next ds

/-- Whether a number is beyond the range of doubles. It counts as the product of
its leading digits and a power of ten; digits of the fraction that do not fit
behind them are left out. -/
def isBeyondRange (whole frac : List Char) (exponent : Int) : Bool :=
  let (n, more) := leading 0 whole
  let (n, ignored) := leading n frac
  Double.productExceeds n (exponent + more.length - (frac.length - ignored.length : Nat))

/-- The document of an integer numeral. Minus zero and integers outside of
`-2^63` to `2^64 - 1` are floating-point numbers. -/
def integerDocument (negative : Bool) (ds : List Char) : Document :=
  let n := Decimal.value ds
  let text := String.ofList (if negative then '-' :: ds else ds)
  if negative && (n = 0 || n > 2 ^ 63) || n ≥ 2 ^ 64 then
    if isBeyondRange ds [] 0 then .unreadable else .float text
  else .int (if negative then -(n : Int) else n)

/-- The fraction behind an integer part: none when it is malformed, no digits
when there is no point. -/
def scanFraction : List Char → Option (List Char × List Char)
  | '.' :: r =>
    let (ds, rest) := Decimal.span r
    if ds = [] then none else some (ds, rest)
  | r => some ([], r)

/-- The exponent behind a fraction, written with `e` or `E`; the second part is
none when there is no exponent. -/
def scanExponent : List Char → Option (List Char × Option Int × List Char)
  | [] => some ([], none, [])
  | c :: r =>
    if c = 'e' || c = 'E' then
      let (mark, negative, r) := match r with
        | '-' :: r => (['-'], true, r)
        | '+' :: r => (['+'], false, r)
        | r => ([], false, r)
      let (ds, rest) := Decimal.span r
      if ds = [] then none
      else
        let e : Int := Decimal.value ds
        some (c :: mark ++ ds, some (if negative then -e else e), rest)
    else some ([], none, c :: r)

/-- A number from its first digit on, and the text behind it; none when it is malformed. -/
def scanUnsigned (negative : Bool) (cs : List Char) : Option (Document × List Char) :=
  let (whole, rest) := Decimal.span cs
  match whole with
  | [] => none
  | '0' :: _ :: _ => none
  | _ =>
    match scanFraction rest with
    | none => none
    | some (frac, rest) =>
      match scanExponent rest with
      | none => none
      | some (mark, exponent, rest) =>
        if frac = [] && exponent = none then some (integerDocument negative whole, rest)
        else
          if isBeyondRange whole frac (exponent.getD 0) then some (.unreadable, rest)
          else
            let sign := if negative then ['-'] else []
            let point := if frac = [] then [] else '.' :: frac
            some (.float (String.ofList (sign ++ whole ++ point ++ mark)), rest)

/-- A number, and the text behind it; none when it is malformed. -/
def scanNumber : List Char → Option (Document × List Char)
  | '-' :: r => scanUnsigned true r
  | r => scanUnsigned false r

/-! ### Values -/

def maxDepth : Nat := 127

def nest (depth : Nat) (d : Document) : Document := if depth < maxDepth then d else .deep d

def stringDocument : Option (List Piece × List Char) → Document × Option (List Char)
  | none => (.malformed, none)
  | some (ps, rest) =>
    match joinPieces ps with
    | none => (.unreadable, some rest)
    | some cs => (.string (String.ofList cs), some rest)

def keyOf (ps : List Piece) : Key :=
  match joinPieces ps with
  | none => .unreadable
  | some cs => .named (String.ofList cs)

mutual

/-- A value at a depth and the text behind it, which is none once reading has
stopped. The fuel bounds the calls. -/
def readValue : Nat → Nat → List Char → Document × Option (List Char)
  | 0, _, _ => (.malformed, none)
  | fuel + 1, depth, cs =>
    match skipBlanks cs with
    | 'n' :: 'u' :: 'l' :: 'l' :: r => (.null, some r)
    | 't' :: 'r' :: 'u' :: 'e' :: r => (.bool true, some r)
    | 'f' :: 'a' :: 'l' :: 's' :: 'e' :: r => (.bool false, some r)
    | '"' :: r => stringDocument (scanPieces r)
    | '[' :: r =>
      let (items, rest) := readItems fuel (depth + 1) true r
      (nest depth (.array items), rest)
    | '{' :: r =>
      let (members, rest) := readMembers fuel (depth + 1) true r
      (nest depth (.object members), rest)
    | r =>
      match scanNumber r with
      | none => (.malformed, none)
      | some (d, rest) => (d, some rest)

/-- The items of an array; a closing bracket may stand in front of the first only. -/
def readItems : Nat → Nat → Bool → List Char → List Document × Option (List Char)
  | 0, _, _, _ => ([.malformed], none)
  | fuel + 1, depth, first, cs =>
    match first, skipBlanks cs with
    | true, ']' :: r => ([], some r)
    | _, cs =>
      match readValue fuel depth cs with
      | (d, none) => ([d], none)
      | (d, some r) =>
        match skipBlanks r with
        | ']' :: r => ([d], some r)
        | ',' :: r =>
          let (ds, rest) := readItems fuel depth false r
          (d :: ds, rest)
        | _ => ([d, .malformed], none)

/-- The members of an object; a closing brace may stand in front of the first only. -/
def readMembers : Nat → Nat → Bool → List Char → List (Key × Document) × Option (List Char)
  | 0, _, _, _ => ([(.stray, .malformed)], none)
  | fuel + 1, depth, first, cs =>
    match first, skipBlanks cs with
    | true, '}' :: r => ([], some r)
    | _, '"' :: r =>
      match scanPieces r with
      | none => ([(.stray, .malformed)], none)
      | some (ps, r) =>
        match skipBlanks r with
        | ':' :: r =>
          match readValue fuel depth r with
          | (d, none) => ([(keyOf ps, d)], none)
          | (d, some r) =>
            match skipBlanks r with
            | '}' :: r => ([(keyOf ps, d)], some r)
            | ',' :: r =>
              let (ms, rest) := readMembers fuel depth false r
              ((keyOf ps, d) :: ms, rest)
            | _ => ([(keyOf ps, d), (.stray, .malformed)], none)
        | _ => ([(keyOf ps, .malformed)], none)
    | _, cs => ([(.stray, (readValue fuel depth cs).1)], none)

end

/-- A whole text: its document, and whether nothing but blanks follows it. -/
def readDocument (text : String) : Document × Bool :=
  let cs := text.toList
  match readValue (2 * cs.length + 2) 0 cs with
  | (d, none) => (d, false)
  | (d, some r) => (d, (skipBlanks r).isEmpty)

/-! ### Well-formed parts -/

mutual

/-- Whether a part may be skipped: nothing in it is malformed. -/
def Document.skippable : Document → Bool
  | .malformed => false
  | .array items => skippableItems items
  | .object members => skippableMembers members
  | .deep d => d.skippable
  | _ => true

def skippableItems : List Document → Bool
  | [] => true
  | d :: ds => d.skippable && skippableItems ds

def skippableMembers : List (Key × Document) → Bool
  | [] => true
  | (k, d) :: ms => k ≠ .stray && d.skippable && skippableMembers ms

end

mutual

/-- Whether a part can be read whole: nothing in it is malformed, unreadable or too deep. -/
def Document.sound : Document → Bool
  | .malformed | .unreadable | .deep _ => false
  | .array items => soundItems items
  | .object members => soundMembers members
  | _ => true

def soundItems : List Document → Bool
  | [] => true
  | d :: ds => d.sound && soundItems ds

def soundMembers : List (Key × Document) → Bool
  | [] => true
  | (k, d) :: ms => k ≠ .stray && k ≠ .unreadable && d.sound && soundMembers ms

end

mutual

def toDocument : Json → Document
  | .null => .null
  | .bool b => .bool b
  | .int i => .int i
  | .string s => .string s
  | .array items => .array (toDocuments items)
  | .object members => .object (toMembers members)

def toDocuments : List Json → List Document
  | [] => []
  | j :: js => toDocument j :: toDocuments js

def toMembers : List (String × Json) → List (Key × Document)
  | [] => []
  | (k, j) :: ms => (.named k, toDocument j) :: toMembers ms

end

/-! ### Written again -/

mutual

/-- The compact text of a document; a float keeps the text it was read from, and
a part that names no value is `null`. -/
def Document.chars : Document → List Char
  | .bool true => ['t', 'r', 'u', 'e']
  | .bool false => ['f', 'a', 'l', 's', 'e']
  | .int i => Decimal.signed i
  | .float text => text.toList
  | .string s => quote s
  | .array items => '[' :: itemChars items
  | .object members => '\x7b' :: memberChars members
  | .null | .unreadable | .deep _ | .malformed => ['n', 'u', 'l', 'l']

def itemChars : List Document → List Char
  | [] => [']']
  | [d] => d.chars ++ [']']
  | d :: ds => d.chars ++ ',' :: itemChars ds

/-- The members of an object up to the closing brace; a name that cannot be read is empty. -/
def memberChars : List (Key × Document) → List Char
  | [] => ['\x7d']
  | [(k, d)] => quote k.text ++ ':' :: d.chars ++ ['\x7d']
  | (k, d) :: ms => quote k.text ++ ':' :: d.chars ++ ',' :: memberChars ms

end

def Document.render (d : Document) : String := String.ofList d.chars

def wholeDocument? (text : String) : Option Document :=
  match readDocument text with
  | (d, complete) => if complete && d.sound then some d else none

def Document.member? (name : String) : Document → Option Document
  | .object members => (members.find? fun m => m.1 = .named name).map Prod.snd
  | _ => none

end Json

end Mediation
