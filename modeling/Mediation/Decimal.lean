/-!
# Decimal digits

Numerals over `List Char`: the digits of a natural number without superfluous
zeros, the same padded to a width, and the value that a run of digits denotes.
Reading the digits of a number gives the number back (`Decimal.value_digits`).
-/

namespace Mediation.Decimal

-- powers are those of the core library, also in a module that sees Mathlib's
@[default_instance 20000]
instance (priority := 20000) corePow {α : Type} [NatPow α] : Pow α Nat := instPowNat

def digitChar (d : Nat) : Char := Char.ofNat (48 + d)

def isDigit (c : Char) : Bool := '0' ≤ c && c ≤ '9'

def digitValue (c : Char) : Nat := c.toNat - 48

def digits (n : Nat) : List Char :=
  if n < 10 then [digitChar n] else digits (n / 10) ++ [digitChar (n % 10)]

def value (ds : List Char) : Nat := ds.foldl (fun n d => 10 * n + digitValue d) 0

def padded (width n : Nat) : List Char :=
  List.replicate (width - (digits n).length) '0' ++ digits n

def signed (i : Int) : List Char :=
  if i < 0 then '-' :: digits i.natAbs else digits i.natAbs

def span : List Char → List Char × List Char
  | [] => ([], [])
  | c :: cs => if isDigit c then (c :: (span cs).1, (span cs).2) else ([], c :: cs)

/-- The number written by the digits of a text; none when it is empty or holds anything else. -/
def parse? (cs : List Char) : Option Nat :=
  if cs ≠ [] ∧ cs.all isDigit then some (value cs) else none

def parseBelow? (bound : Nat) (cs : List Char) : Option Nat :=
  let ds := match cs with
    | '+' :: r => r
    | _ => cs
  (parse? ds).filter (· < bound)

theorem isDigit_digitChar {d : Nat} (h : d < 10) : isDigit (digitChar d) = true := by
  have key : ∀ d, d < 10 → isDigit (digitChar d) = true := by decide
  exact key d h

theorem digitValue_digitChar {d : Nat} (h : d < 10) : digitValue (digitChar d) = d := by
  have key : ∀ d, d < 10 → digitValue (digitChar d) = d := by decide
  exact key d h

theorem value_append_singleton (ds : List Char) (c : Char) :
    value (ds ++ [c]) = 10 * value ds + digitValue c := by
  simp [value]

theorem value_digits (n : Nat) : value (digits n) = n := by
  rw [digits]
  split
  · rename_i h
    simp [value, digitValue_digitChar h]
  · rw [value_append_singleton, value_digits (n / 10), digitValue_digitChar (by omega)]
    omega
termination_by n
decreasing_by omega

theorem digits_ne_nil (n : Nat) : digits n ≠ [] := by
  rw [digits]
  split <;> simp

theorem isDigit_of_mem_digits (n : Nat) : ∀ c ∈ digits n, isDigit c = true := by
  intro c hc
  rw [digits] at hc
  split at hc
  · rename_i h
    rw [List.mem_singleton.mp hc]
    exact isDigit_digitChar h
  · rcases List.mem_append.mp hc with hc | hc
    · exact isDigit_of_mem_digits (n / 10) c hc
    · rw [List.mem_singleton.mp hc]
      exact isDigit_digitChar (by omega)
termination_by n
decreasing_by omega

theorem parse?_digits (n : Nat) : parse? (digits n) = some n := by
  have h : (digits n).all isDigit = true := List.all_eq_true.mpr (isDigit_of_mem_digits n)
  simp [parse?, digits_ne_nil, h, value_digits]

theorem span_append {ds r : List Char} (hd : ∀ c ∈ ds, isDigit c = true)
    (hr : ∀ c, r.head? = some c → isDigit c = false) : span (ds ++ r) = (ds, r) := by
  induction ds with
  | nil =>
    cases r with
    | nil => rfl
    | cons c cs => simp [span, hr c rfl]
  | cons c cs ih =>
    have hc := hd c (List.mem_cons_self ..)
    have ih := ih fun x hx => hd x (List.mem_cons_of_mem _ hx)
    simp [span, hc, ih]

end Mediation.Decimal
