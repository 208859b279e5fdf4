import Mediation.Decimal
import Mediation.Radix

/-!
# JSON values and their text

`Json` is what this library writes: numbers are integers, members keep their
order. It has two written forms, compact and indented; both use the same
escapes, `\u` only for control characters that have no short form.
-/

namespace Mediation

inductive Json where
  | null
  | bool (b : Bool)
  | int (i : Int)
  | string (s : String)
  | array (items : List Json)
  | object (members : List (String × Json))

namespace Json

def nat (n : Nat) : Json := .int n

def optional {α : Type} (write : α → Json) : Option α → Json
  | none => .null
  | some a => write a

def list {α : Type} (write : α → Json) (as : List α) : Json := .array (as.map write)

/-! ### Text -/

def escapeChar (c : Char) : List Char :=
  if c = '"' then ['\\', '"']
  else if c = '\\' then ['\\', '\\']
  else if c = '\n' then ['\\', 'n']
  else if c = '\r' then ['\\', 'r']
  else if c = '\t' then ['\\', 't']
  else if c = '\x08' then ['\\', 'b']
  else if c = '\x0c' then ['\\', 'f']
  else if c.toNat < 32 then '\\' :: 'u' :: Radix.digits 4 c.toNat
  else [c]

def quote (s : String) : List Char := '"' :: (s.toList.flatMap escapeChar ++ ['"'])

mutual

def compact : Json → List Char
  | .null => ['n', 'u', 'l', 'l']
  | .bool true => ['t', 'r', 'u', 'e']
  | .bool false => ['f', 'a', 'l', 's', 'e']
  | .int i => Decimal.signed i
  | .string s => quote s
  | .array items => '[' :: compactItems items
  | .object members => '{' :: compactMembers members

def compactItems : List Json → List Char
  | [] => [']']
  | [j] => compact j ++ [']']
  | j :: js => compact j ++ ',' :: compactItems js

def compactMembers : List (String × Json) → List Char
  | [] => ['}']
  | [(k, j)] => quote k ++ ':' :: compact j ++ ['}']
  | (k, j) :: ms => quote k ++ ':' :: compact j ++ ',' :: compactMembers ms

end

def newline (level : Nat) : List Char := '\n' :: List.replicate (2 * level) ' '

mutual

def indented (level : Nat) : Json → List Char
  | .array [] => ['[', ']']
  | .array (j :: js) =>
    '[' :: newline (level + 1) ++ indented (level + 1) j ++ indentedItems (level + 1) js
      ++ newline level ++ [']']
  | .object [] => ['{', '}']
  | .object ((k, j) :: ms) =>
    '{' :: newline (level + 1) ++ quote k ++ ':' :: ' ' :: indented (level + 1) j
      ++ indentedMembers (level + 1) ms ++ newline level ++ ['}']
  | .null => ['n', 'u', 'l', 'l']
  | .bool true => ['t', 'r', 'u', 'e']
  | .bool false => ['f', 'a', 'l', 's', 'e']
  | .int i => Decimal.signed i
  | .string s => quote s

def indentedItems (level : Nat) : List Json → List Char
  | [] => []
  | j :: js => ',' :: newline level ++ indented level j ++ indentedItems level js

def indentedMembers (level : Nat) : List (String × Json) → List Char
  | [] => []
  | (k, j) :: ms =>
    ',' :: newline level ++ quote k ++ ':' :: ' ' :: indented level j ++ indentedMembers level ms

end

def render (j : Json) : String := String.ofList (compact j)

def renderIndented (j : Json) : String := String.ofList (indented 0 j)

end Json

end Mediation
