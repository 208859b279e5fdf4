import Mediation.Radix
import Mediation.Yaml.Cursor

/-!
# Quoted scalars

Between single quotes a quote is written twice and nothing else is escaped;
between double quotes a backslash begins an escape. Line breaks inside are
folded.
-/

namespace Mediation.Yaml

/-! ### Reading -/

def readSingle : Pending → Nat → List Char → Option Scanned
  | _, _, [] => none
  | p, column, '\'' :: '\'' :: r =>
    (readSingle .none (column + 2) r).map (.prepend (p.fold ++ ['\'']))
  | p, column, '\'' :: r => some ⟨p.fold, ⟨r, column + 1, false⟩⟩
  | p, column, c :: r =>
    if isSpace c then readSingle (p.space c) (column + 1) r
    else if isBreak c then readSingle (p.lineBreak c) 0 r
    else if isMark column (c :: r) then none
    else (readSingle .none (column + 1) r).map (.prepend (p.fold ++ [c]))

def escape? (c : Char) : Option Char :=
  match c with
  | '0' => some '\x00'
  | 'a' => some '\x07'
  | 'b' => some '\x08'
  | 't' | '\t' => some '\t'
  | 'n' => some '\n'
  | 'v' => some '\x0b'
  | 'f' => some '\x0c'
  | 'r' => some '\r'
  | 'e' => some '\x1b'
  | ' ' => some ' '
  | '"' => some '"'
  | '/' => some '/'
  | '\\' => some '\\'
  | 'N' => some '\u0085'
  | '_' => some '\u00a0'
  | 'L' => some '\u2028'
  | 'P' => some '\u2029'
  | _ => none

def escapeWidth? (c : Char) : Option Nat :=
  match c with
  | 'x' => some 2
  | 'u' => some 4
  | 'U' => some 8
  | _ => none

def charOf? (n : Nat) : Option Char := if n.isValidChar then some (Char.ofNat n) else none

/-- The character that hexadecimal digits name; there must be as many as wanted. -/
def hexChar? (width : Nat) (cs : List Char) : Option Char :=
  let ds := cs.take width
  if ds.length = width then (Radix.number? 16 ds).bind charOf? else none

/-- Reads up to the closing double quote. The number counts the characters of an
escape that are still to be passed. -/
def readDouble : Nat → Pending → Nat → List Char → Option Scanned
  | _, _, _, [] => none
  | k + 1, p, column, _ :: r => readDouble k p (column + 1) r
  | 0, p, column, '"' :: r => some ⟨p.fold, ⟨r, column + 1, false⟩⟩
  | 0, p, column, '\\' :: c :: r =>
    if isBreak c then (readDouble 0 (.breaks [] []) 0 r).map (.prepend p.fold)
    else
      match escapeWidth? c with
      | some width =>
        match hexChar? width r with
        | none => none
        | some x => (readDouble width .none (column + 2) r).map (.prepend (p.fold ++ [x]))
      | none =>
        match escape? c with
        | none => none
        | some x => (readDouble 0 .none (column + 2) r).map (.prepend (p.fold ++ [x]))
  | 0, p, column, c :: r =>
    if c = '\\' then none
    else if isSpace c then readDouble 0 (p.space c) (column + 1) r
    else if isBreak c then readDouble 0 (p.lineBreak c) 0 r
    else if isMark column (c :: r) then none
    else (readDouble 0 .none (column + 1) r).map (.prepend (p.fold ++ [c]))

/-! ### Writing -/

/-- Writes between single quotes what may stand there. A line that goes on is
indented; the flag tells that a line break came last. -/
def writeSingle (indent : Nat) : Bool → List Char → List Char
  | afterBreak, [] => (if afterBreak then List.replicate indent ' ' else []) ++ ['\'']
  | afterBreak, c :: r =>
    if isBreak c then c :: writeSingle indent true r
    else
      (if afterBreak then List.replicate indent ' ' else [])
        ++ (if c = '\'' then ['\'', '\''] else [c]) ++ writeSingle indent false r

def singleQuoted (indent : Nat) (cs : List Char) : List Char := '\'' :: writeSingle indent false cs

def isPrintable (c : Char) : Bool :=
  let n := c.toNat
  n = 0x0A || (0x20 ≤ n && n ≤ 0x7E) || (0xA0 ≤ n && n ≤ 0xFFFD && n ≠ 0xFEFF) || 0x10000 ≤ n

def hexEscape (c : Char) : List Char :=
  let n := c.toNat
  if n ≤ 0xFF then 'x' :: Radix.upperDigits 2 n
  else if n ≤ 0xFFFF then 'u' :: Radix.upperDigits 4 n
  else 'U' :: Radix.upperDigits 8 n

def escapeOf (c : Char) : List Char :=
  match c with
  | '\x00' => ['0']
  | '\x07' => ['a']
  | '\x08' => ['b']
  | '\t' => ['t']
  | '\n' => ['n']
  | '\x0b' => ['v']
  | '\x0c' => ['f']
  | '\r' => ['r']
  | '\x1b' => ['e']
  | '"' => ['"']
  | '\\' => ['\\']
  | '\u0085' => ['N']
  | '\u00a0' => ['_']
  | '\u2028' => ['L']
  | '\u2029' => ['P']
  | c => hexEscape c

def isVerbatim (c : Char) : Bool := isPrintable c && !isBreak c && c ≠ '"' && c ≠ '\\'

def doubleQuoted (cs : List Char) : List Char :=
  '"' :: (cs.flatMap fun c => if isVerbatim c then [c] else '\\' :: escapeOf c) ++ ['"']

end Mediation.Yaml
