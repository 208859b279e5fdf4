import Mathlib.Data.List.Induction
import Mediation.Decimal

/-!
# Numerals

A run of digits is the digits of its value after some zeros. So a numeral, which
has no superfluous zero in front, is the digits of its value, and a run of a
fixed number of digits is its value padded to that number.
-/

namespace Mediation.Decimal

theorem toNat_of_isDigit {c : Char} (h : isDigit c = true) : 48 ≤ c.toNat ∧ c.toNat ≤ 57 := by
  simp only [isDigit, Bool.and_eq_true, decide_eq_true_eq, Char.le_def,
    UInt32.le_iff_toNat_le] at h
  exact h

theorem digitValue_lt {c : Char} (h : isDigit c = true) : digitValue c < 10 := by
  have hrange := toNat_of_isDigit h
  unfold digitValue
  omega

theorem digitChar_digitValue {c : Char} (h : isDigit c = true) : digitChar (digitValue c) = c := by
  have hrange := toNat_of_isDigit h
  have hsum : 48 + digitValue c = c.toNat := by
    unfold digitValue
    omega
  rw [digitChar, hsum, Char.ofNat_toNat]

theorem digits_of_lt {n : Nat} (h : n < 10) : digits n = [digitChar n] := by
  rw [digits, if_pos h]

theorem digits_append_digit {n d : Nat} (hn : n ≠ 0) (hd : d < 10) :
    digits (10 * n + d) = digits n ++ [digitChar d] := by
  have hlarge : ¬ 10 * n + d < 10 := by omega
  have hquotient : (10 * n + d) / 10 = n := by omega
  have hremainder : (10 * n + d) % 10 = d := by omega
  rw [digits, if_neg hlarge, hquotient, hremainder]

theorem value_lt {ds : List Char} (h : ∀ c ∈ ds, isDigit c = true) : value ds < 10 ^ ds.length := by
  induction ds using List.reverseRecOn with
  | nil => decide
  | append_singleton ds c ih =>
    have hds := ih fun x hx => h x (List.mem_append_left _ hx)
    have hc := digitValue_lt (h c (List.mem_append_right _ (List.mem_singleton_self c)))
    rw [value_append_singleton, List.length_append, List.length_singleton, Nat.pow_succ]
    omega

/-! ### Zeros in front -/

theorem head?_digits_ne_zero {n : Nat} (h : n ≠ 0) : (digits n).head? ≠ some '0' := by
  rw [digits]
  split
  next hn =>
    have key : ∀ d, d < 10 → d ≠ 0 → [digitChar d].head? ≠ some '0' := by decide
    exact key n hn h
  next hn =>
    have ih := head?_digits_ne_zero (n := n / 10) (by omega)
    cases hds : digits (n / 10) with
    | nil => exact absurd hds (digits_ne_nil _)
    | cons c cs =>
      rw [hds] at ih
      exact ih
termination_by n
decreasing_by omega

/-- A numeral of more than one digit does not begin with a zero. -/
theorem digits_ne_zero_cons (n : Nat) (c : Char) (cs : List Char) : digits n ≠ '0' :: c :: cs := by
  intro h
  by_cases hn : n = 0
  · subst hn
    rw [digits, if_pos (by decide)] at h
    cases h
  · exact head?_digits_ne_zero hn (by rw [h]; rfl)

theorem value_zeros_append (zeros : Nat) (ds : List Char) :
    value (List.replicate zeros '0' ++ ds) = value ds := by
  induction zeros with
  | zero => rfl
  | succ zeros ih => exact ih

/-- A run of digits is the digits of its value, after zeros. -/
theorem exists_zeros_append {ds : List Char} (hne : ds ≠ []) (h : ∀ c ∈ ds, isDigit c = true) :
    ∃ zeros, ds = List.replicate zeros '0' ++ digits (value ds) := by
  induction ds using List.reverseRecOn with
  | nil => exact absurd rfl hne
  | append_singleton ds c ih =>
    have hc : isDigit c = true := h c (List.mem_append_right _ (List.mem_singleton_self c))
    have hlt := digitValue_lt hc
    have hdigit : digits (digitValue c) = [c] := by
      rw [digits_of_lt hlt, digitChar_digitValue hc]
    rw [value_append_singleton]
    by_cases hds : ds = []
    · subst hds
      have hvalue : 10 * value [] + digitValue c = digitValue c := Nat.zero_add (digitValue c)
      rw [hvalue, hdigit]
      exact ⟨0, rfl⟩
    · obtain ⟨zeros, heq⟩ := ih hds fun x hx => h x (List.mem_append_left _ hx)
      by_cases hzero : value ds = 0
      · -- all the digits so far are zeros, and the last one is the number
        refine ⟨zeros + 1, ?_⟩
        rw [hzero] at heq ⊢
        have hdigits : digits 0 = ['0'] := by decide +kernel
        rw [hdigits, ← List.replicate_succ'] at heq
        rw [Nat.mul_zero, Nat.zero_add, hdigit, ← heq]
      · refine ⟨zeros, ?_⟩
        rw [digits_append_digit hzero hlt, digitChar_digitValue hc, ← List.append_assoc, ← heq]

theorem parse?_eq_some_iff {cs : List Char} {n : Nat} :
    parse? cs = some n ↔ ∃ zeros, cs = List.replicate zeros '0' ++ digits n := by
  constructor
  · intro h
    unfold parse? at h
    split at h
    next hds =>
      cases h
      exact exists_zeros_append hds.1 (List.all_eq_true.mp hds.2)
    next => cases h
  · rintro ⟨zeros, rfl⟩
    have hne : List.replicate zeros '0' ++ digits n ≠ [] :=
      List.append_ne_nil_of_right_ne_nil _ (digits_ne_nil n)
    have hall : (List.replicate zeros '0' ++ digits n).all isDigit = true := by
      refine List.all_eq_true.mpr fun c hc => ?_
      rcases List.mem_append.mp hc with hzero | hdigit
      · rw [List.eq_of_mem_replicate hzero]
        rfl
      · exact isDigit_of_mem_digits n c hdigit
    rw [parse?, if_pos ⟨hne, hall⟩, value_zeros_append, value_digits]

/-! ### Numerals -/

/-- Digits, one at least, of which the first is no superfluous zero. -/
structure IsNumeral (ds : List Char) : Prop where
  ne_nil : ds ≠ []
  isDigit : ∀ c ∈ ds, isDigit c = true
  ne_zero_cons : ∀ c cs, ds ≠ '0' :: c :: cs

theorem isNumeral_digits (n : Nat) : IsNumeral (digits n) :=
  ⟨digits_ne_nil n, isDigit_of_mem_digits n, digits_ne_zero_cons n⟩

theorem IsNumeral.eq_digits {ds : List Char} (h : IsNumeral ds) : ds = digits (value ds) := by
  obtain ⟨zeros, heq⟩ := exists_zeros_append h.ne_nil h.isDigit
  cases zeros with
  | zero => exact heq
  | succ zeros =>
    -- a zero in front of other digits is superfluous
    cases hrest : List.replicate zeros '0' ++ digits (value ds) with
    | nil => simp [digits_ne_nil] at hrest
    | cons c cs =>
      rw [List.replicate_succ, List.cons_append, hrest] at heq
      exact absurd heq (h.ne_zero_cons c cs)

/-! ### Digits of a fixed number -/

theorem length_digits_le {w n : Nat} (hw : 0 < w) (h : n < 10 ^ w) : (digits n).length ≤ w := by
  induction w generalizing n with
  | zero => omega
  | succ w ih =>
    rw [digits]
    split
    next => simp
    next hn =>
      rw [Nat.pow_succ] at h
      have hw' : 0 < w := by
        rcases Nat.eq_zero_or_pos w with rfl | hw'
        · omega
        · exact hw'
      have := ih hw' (n := n / 10) (by omega)
      simpa using this

theorem length_padded {w n : Nat} (hw : 0 < w) (h : n < 10 ^ w) : (padded w n).length = w := by
  have := length_digits_le hw h
  simp only [padded, List.length_append, List.length_replicate]
  omega

theorem isDigit_of_mem_padded {w n : Nat} : ∀ c ∈ padded w n, isDigit c = true := by
  intro c hc
  rcases List.mem_append.mp hc with hc | hc
  · rw [(List.mem_replicate.mp hc).2]
    rfl
  · exact isDigit_of_mem_digits n c hc

theorem padded_ne_nil (w n : Nat) : padded w n ≠ [] := by
  simp [padded, digits_ne_nil]

theorem value_padded (w n : Nat) : value (padded w n) = n := by
  rw [padded, value_zeros_append, value_digits]

theorem padded_value {ds : List Char} (hne : ds ≠ []) (h : ∀ c ∈ ds, isDigit c = true) :
    padded ds.length (value ds) = ds := by
  obtain ⟨zeros, heq⟩ := exists_zeros_append hne h
  have hlength := congrArg List.length heq
  simp only [List.length_append, List.length_replicate] at hlength
  have hzeros : ds.length - (digits (value ds)).length = zeros := by omega
  rw [padded, hzeros, ← heq]

end Mediation.Decimal
