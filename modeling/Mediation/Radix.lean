import Mediation.Decimal

/-!
# Digits of bases up to sixteen

The characters of digits, the number that digits of a base denote, and the
hexadecimal digits of a number. Reading the digits of a number gives the number
back (`Radix.number?_digits`).
-/

namespace Mediation.Radix

def digit (d : Nat) : Char := if d < 10 then Char.ofNat (48 + d) else Char.ofNat (87 + d)

def upperDigit (d : Nat) : Char := if d < 10 then Char.ofNat (48 + d) else Char.ofNat (55 + d)

def value? (c : Char) : Option Nat :=
  if '0' ≤ c && c ≤ '9' then some (c.toNat - 48)
  else if 'a' ≤ c && c ≤ 'f' then some (c.toNat - 87)
  else if 'A' ≤ c && c ≤ 'F' then some (c.toNat - 55)
  else none

def valueBelow? (base : Nat) (c : Char) : Option Nat := (value? c).filter (· < base)

/-- The number that digits of a base denote; none when there are others among them. -/
def number? (base : Nat) (ds : List Char) : Option Nat :=
  ds.foldl (fun n d => n.bind fun n => (valueBelow? base d).map (base * n + ·)) (some 0)

def digits : Nat → Nat → List Char
  | 0, _ => []
  | width + 1, n => digits width (n / 16) ++ [digit (n % 16)]

def upperDigits : Nat → Nat → List Char
  | 0, _ => []
  | width + 1, n => upperDigits width (n / 16) ++ [upperDigit (n % 16)]

theorem toNat_lt_of_value? {c : Char} (h : (value? c).isSome = true) : c.toNat < 128 := by
  have h1 : ('9' : Char).val.toNat = 57 := rfl
  have h2 : ('f' : Char).val.toNat = 102 := rfl
  have h3 : ('F' : Char).val.toNat = 70 := rfl
  have h4 : c.toNat = c.val.toNat := rfl
  unfold value? at h
  simp only [Bool.and_eq_true, decide_eq_true_eq, Char.le_def, UInt32.le_iff_toNat_le] at h
  split at h
  · omega
  · split at h
    · omega
    · split at h
      · omega
      · cases h

theorem number?_append_singleton (base : Nat) (ds : List Char) (c : Char) :
    number? base (ds ++ [c])
      = (number? base ds).bind fun n => (valueBelow? base c).map (base * n + ·) := by
  simp [number?]

theorem valueBelow?_digit {d : Nat} (h : d < 16) : valueBelow? 16 (digit d) = some d := by
  have key : ∀ d, d < 16 → valueBelow? 16 (digit d) = some d := by decide
  exact key d h

theorem valueBelow?_upperDigit {d : Nat} (h : d < 16) : valueBelow? 16 (upperDigit d) = some d := by
  have key : ∀ d, d < 16 → valueBelow? 16 (upperDigit d) = some d := by decide
  exact key d h

theorem length_digits (width n : Nat) : (digits width n).length = width := by
  induction width generalizing n with
  | zero => rfl
  | succ width ih => simp [digits, ih]

theorem length_upperDigits (width n : Nat) : (upperDigits width n).length = width := by
  induction width generalizing n with
  | zero => rfl
  | succ width ih => simp [upperDigits, ih]

theorem number?_digits (width n : Nat) (h : n < 16 ^ width) :
    number? 16 (digits width n) = some n := by
  induction width generalizing n with
  | zero =>
    have : n = 0 := by simpa using h
    subst this
    rfl
  | succ width ih =>
    have hq : n / 16 < 16 ^ width := by
      rw [Nat.div_lt_iff_lt_mul (by decide)]
      simpa [Nat.pow_succ] using h
    rw [digits, number?_append_singleton, ih _ hq, valueBelow?_digit (Nat.mod_lt _ (by decide))]
    simp only [Option.bind_some, Option.map_some]
    congr 1
    omega

theorem number?_upperDigits (width n : Nat) (h : n < 16 ^ width) :
    number? 16 (upperDigits width n) = some n := by
  induction width generalizing n with
  | zero =>
    have : n = 0 := by simpa using h
    subst this
    rfl
  | succ width ih =>
    have hq : n / 16 < 16 ^ width := by
      rw [Nat.div_lt_iff_lt_mul (by decide)]
      simpa [Nat.pow_succ] using h
    rw [upperDigits, number?_append_singleton, ih _ hq,
      valueBelow?_upperDigit (Nat.mod_lt _ (by decide))]
    simp only [Option.bind_some, Option.map_some]
    congr 1
    omega

end Mediation.Radix
