import Mathlib.Data.List.Basic
import Mediation.Coin
import Mediation.Proofs.Decimal

/-!
# Texts of amounts

The plain text of an amount is the numeral of its whole coins, a point and eight
digits for the rest. No other text of this form denotes the amount, and no other
amount has this text.
-/

namespace Mediation.Coin

open Decimal (digits padded value isDigit IsNumeral)

theorem toList_plainText (a : Coin) :
    a.plainText.toList =
      digits (a.units / unitsPerCoin) ++ '.' :: padded 8 (a.units % unitsPerCoin) := by
  rw [plainText, String.toList_ofList]

theorem length_fraction (a : Coin) : (padded 8 (a.units % unitsPerCoin)).length = 8 :=
  Decimal.length_padded (by decide) (Nat.mod_lt _ (by decide))

theorem notMem_of_digits {ds : List Char} (h : ∀ c ∈ ds, isDigit c = true) : '.' ∉ ds :=
  fun hmem => absurd (h '.' hmem) (by decide)

/-- A text of an amount: a numeral, a point and eight digits, which together
count the units. -/
def Denotes (s : String) (units : Nat) : Prop :=
  ∃ whole fraction, s.toList = whole ++ '.' :: fraction ∧ IsNumeral whole ∧
    (fraction.length = 8 ∧ ∀ c ∈ fraction, isDigit c = true) ∧
    value whole * unitsPerCoin + value fraction = units

theorem denotes_plainText (a : Coin) : Denotes a.plainText a.units := by
  refine ⟨_, _, a.toList_plainText, Decimal.isNumeral_digits _,
    ⟨a.length_fraction, Decimal.isDigit_of_mem_padded⟩, ?_⟩
  rw [Decimal.value_digits, Decimal.value_padded]
  exact Nat.div_add_mod' _ _

theorem eq_plainText_of_denotes {a : Coin} {s : String} (h : Denotes s a.units) :
    s = a.plainText := by
  obtain ⟨whole, fraction, hs, hwhole, ⟨hlength, hdigits⟩, hunits⟩ := h
  have hlt : value fraction < unitsPerCoin := by
    have hlt := Decimal.value_lt hdigits
    rwa [hlength] at hlt
  -- the two parts are quotient and remainder, so their digits are given
  have hpos : 0 < unitsPerCoin := by decide
  have hquotient : a.units / unitsPerCoin = value whole := by
    rw [← hunits, Nat.mul_comm, Nat.mul_add_div hpos, Nat.div_eq_of_lt hlt, Nat.add_zero]
  have hremainder : a.units % unitsPerCoin = value fraction := by
    rw [← hunits, Nat.mul_comm, Nat.mul_add_mod, Nat.mod_eq_of_lt hlt]
  have hfraction : padded 8 (value fraction) = fraction := by
    have hne : fraction ≠ [] := by
      rintro rfl
      cases hlength
    have hpadded := Decimal.padded_value hne hdigits
    rwa [hlength] at hpadded
  apply String.toList_inj.mp
  rw [toList_plainText, hquotient, hremainder, hfraction, ← hwhole.eq_digits, hs]

/-- The text of one amount is not that of another: it is divided at its only point. -/
theorem Denotes.units_eq {s : String} {m n : Nat} (hm : Denotes s m) (hn : Denotes s n) :
    m = n := by
  obtain ⟨whole, fraction, hs, hwhole, ⟨-, hdigits⟩, rfl⟩ := hm
  obtain ⟨whole', fraction', hs', -, -, rfl⟩ := hn
  rw [hs] at hs'
  obtain ⟨rfl, -, rfl⟩ := (List.append_cons_inj_of_notMem (notMem_of_digits hwhole.isDigit)
    (notMem_of_digits hdigits)).mp hs'
  rfl

theorem count_point_plainText (a : Coin) : a.plainText.toList.count '.' = 1 := by
  have hwhole := notMem_of_digits (Decimal.isDigit_of_mem_digits (a.units / unitsPerCoin))
  have hfraction := notMem_of_digits
    (Decimal.isDigit_of_mem_padded (w := 8) (n := a.units % unitsPerCoin))
  rw [toList_plainText, List.count_append, List.count_cons_self,
    List.count_eq_zero.mpr hwhole, List.count_eq_zero.mpr hfraction]

/-- The plain text of an amount is the one text that denotes it, with one point; so different
amounts have different texts. -/
theorem plainText_exact :
    (∀ (a : Coin) (s : String), s = a.plainText ↔ Denotes s a.units) ∧
      (∀ a : Coin, a.plainText.toList.count '.' = 1) ∧
        ∀ a b : Coin, a ≠ b → a.plainText ≠ b.plainText := by
  refine ⟨fun a s => ⟨?_, eq_plainText_of_denotes⟩, count_point_plainText, fun a b hne h => hne ?_⟩
  · rintro rfl
    exact a.denotes_plainText
  · have ha := a.denotes_plainText
    rw [h] at ha
    exact Coin.ext (ha.units_eq b.denotes_plainText)

/-- A tenth and a hundredth of a coin differ in the place of one digit. -/
theorem plainText_exact_tenth :
    let a : Coin := ⟨10000000, by decide⟩
    let b : Coin := ⟨1000000, by decide⟩
    (a.plainText = "0.10000000" ∧ b.plainText = "0.01000000") ∧
      a ≠ b ∧ a.plainText ≠ b.plainText := by
  intro a b
  have hne : a ≠ b := by decide
  exact ⟨by decide +kernel, hne, plainText_exact.2.2 a b hne⟩

end Mediation.Coin
