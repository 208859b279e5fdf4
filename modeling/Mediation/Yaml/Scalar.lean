import Mediation.Double
import Mediation.Radix
import Mediation.Yaml.Block
import Mediation.Yaml.Plain
import Mediation.Yaml.Quoted

/-!
# Scalars

A scalar is a text and the style it is written in. Only a plain scalar may stand
for nothing, for a truth value or for a number; a text that would be taken for
one of these is therefore written in quotes.
-/

namespace Mediation.Yaml

inductive Style where
  | plain
  | quoted
  | literal
  | folded
  deriving DecidableEq, Repr

/-- A scalar: its text, its style, and its tag if it has one. -/
structure Scalar where
  text : String
  style : Style
  tag : Option String
  deriving DecidableEq, Repr

/-- The scalar where nothing is written. -/
def Scalar.empty : Scalar := ⟨"", .plain, none⟩

/-! ### What texts stand for -/

/-- Whether a text stands for nothing. -/
def isNull (s : String) : Bool := s = "null" || s = "Null" || s = "NULL" || s = "~"

def boolean? (s : String) : Option Bool :=
  if s = "true" || s = "True" || s = "TRUE" then some true
  else if s = "false" || s = "False" || s = "FALSE" then some false
  else none

/-- The number that digits of a base denote; there must be some. -/
def radixNumber? (base : Nat) (ds : List Char) : Option Nat :=
  if ds = [] then none else Radix.number? base ds

def prefixedNumber? : List Char → Option Nat
  | '0' :: 'x' :: ds => radixNumber? 16 ds
  | '0' :: 'o' :: ds => radixNumber? 8 ds
  | '0' :: 'b' :: ds => radixNumber? 2 ds
  | _ => none

def withoutSign : List Char → List Char
  | '+' :: r => r
  | '-' :: r => r
  | cs => cs

/-- Whether a text is digits with a superfluous zero in front, which stand for no number. -/
def hasLeadingZero (cs : List Char) : Bool :=
  match withoutSign cs with
  | '0' :: d :: ds => (d :: ds).all Decimal.isDigit
  | _ => false

def magnitude? (cs : List Char) : Option Nat :=
  if hasLeadingZero cs then none else (prefixedNumber? cs).or (Decimal.parse? cs)

/-- The word of 64 bits that a text stands for; it has no minus sign, not even zero. -/
def word? (s : String) : Option UInt64 :=
  let ds := match s.toList with
    | '+' :: ds => ds
    | ds => ds
  ((magnitude? ds).filter (· < 2 ^ 64)).map UInt64.ofNat

/-- Whether a text is an integer with a base in front, of 128 bits at most. -/
def isPrefixedInteger : List Char → Bool
  | '-' :: ds => (prefixedNumber? ds).any (· ≤ 2 ^ 127)
  | '+' :: ds => (prefixedNumber? ds).any (· < 2 ^ 128)
  | ds => (prefixedNumber? ds).any (· < 2 ^ 128)

/-- The exponent of a decimal: none when it is malformed, zero when there is no text. -/
def exponent? : List Char → Option Int
  | [] => some 0
  | c :: r =>
    if c = 'e' || c = 'E' then
      match r with
      | '-' :: ds => (Decimal.parse? ds).map fun n => -(n : Int)
      | '+' :: ds => (Decimal.parse? ds).map fun n => (n : Int)
      | ds => (Decimal.parse? ds).map fun n => (n : Int)
    else none

/-- Whether a text is a decimal in the range of doubles, with or without a point
and an exponent. -/
def isDecimal (cs : List Char) : Bool :=
  let (whole, rest) := Decimal.span (withoutSign cs)
  let (fraction, rest) := match rest with
    | '.' :: r => Decimal.span r
    | r => ([], r)
  match exponent? rest with
  | none => false
  | some e =>
    let ds := whole ++ fraction
    ds ≠ [] && !Double.exceeds (Decimal.value ds) (e - fraction.length)

def isSpecialNumber (s : String) : Bool :=
  [".inf", ".Inf", ".INF", "+.inf", "+.Inf", "+.INF", "-.inf", "-.Inf", "-.INF", ".nan", ".NaN",
    ".NAN"].contains s

def isAmbiguous (s : String) : Bool :=
  s = "" || (boolean? s).isSome || isNull s || isSpecialNumber s || isPrefixedInteger s.toList
    || isDecimal s.toList || hasLeadingZero s.toList

/-! ### Written form -/

def hasPair (first second : Char → Bool) : List Char → Bool
  | a :: b :: r => first a && second b || hasPair first second (b :: r)
  | _ => false

/-- Whether a text needs escapes: it holds a character that is not printable, or
a space at the end of a line. -/
def needsEscapes (cs : List Char) : Bool :=
  cs.any (!isPrintable ·) || hasPair (· = ' ') isBreak cs

inductive WrittenStyle where
  | plain
  | single
  | double
  | literal
  deriving DecidableEq, Repr

/-- The style in which a text is written: a literal for several lines, single
quotes for what is ambiguous or cannot be plain, double quotes for what neither
of them can hold. -/
def writtenStyle (s : String) : WrittenStyle :=
  let cs := s.toList
  if needsEscapes cs then .double
  else if cs.contains '\n' then
    if cs.getLast? = some ' ' then .double else .literal
  else if !isAmbiguous s && mayBePlain cs then .plain
  else if hasPair isBreak (· = ' ') cs then .double
  else .single

/-- A text as a value in a block, up to the end of its line; lines that go on are
indented. -/
def writeText (indent : Nat) (s : String) : List Char :=
  match writtenStyle s with
  | .plain => s.toList ++ ['\n']
  | .single => singleQuoted indent s.toList ++ ['\n']
  | .double => doubleQuoted s.toList ++ ['\n']
  | .literal => literal indent s.toList

end Mediation.Yaml
