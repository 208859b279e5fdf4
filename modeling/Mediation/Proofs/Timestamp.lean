import Mediation.Proofs.Decimal
import Mediation.Timestamp

/-!
# Points in time are read as they are written

The date of a day is a date, and its year lies in the range of years that can be
read. With it, and with one lemma for each part of the text, a point in time is
read from its text: any fraction of a second, leap seconds, and years with a
sign (`Timestamp.ofString?_text`).
-/

namespace Mediation

/-! ### Dates of days -/

namespace Calendar

/-- A year that begins in March has 366 days only if the leap day ends it. -/
theorem isLeapYear_of_last_day {n : Int} (h0 : 0 ≤ n) (h1 : n < 146097)
    (h : n - daysBeforeYear (yearOfDay n) = 365) :
    (yearOfDay n + 1) % 4 = 0 ∧ ((yearOfDay n + 1) % 100 ≠ 0 ∨ (yearOfDay n + 1) % 400 = 0) := by
  have hc : 0 ≤ centuryOfDay n ∧ centuryOfDay n ≤ 3 ∧ 0 ≤ n - 36524 * centuryOfDay n
      ∧ (n - 36524 * centuryOfDay n ≤ 36523 ∨ centuryOfDay n = 3)
      ∧ n - 36524 * centuryOfDay n ≤ 36524 := by
    simp only [centuryOfDay]
    omega
  simp only [yearOfDay] at h ⊢
  generalize centuryOfDay n = c at hc h ⊢
  generalize hr : n - 36524 * c = r at hc h ⊢
  have hy : 0 ≤ yearOfCycleDay (r % 1461) ∧ yearOfCycleDay (r % 1461) ≤ 3
      ∧ (r % 1461 - 365 * yearOfCycleDay (r % 1461) = 365 →
        r % 1461 = 1460 ∧ yearOfCycleDay (r % 1461) = 3) := by
    simp only [yearOfCycleDay]
    omega
  rw [daysBeforeYear_eq (by omega) (by omega) hy.1 hy.2.1] at h
  have hlast := hy.2.2 (by omega)
  omega

theorem month_range {k : Int} (h0 : 0 ≤ k) (h1 : k < 12) :
    1 ≤ monthAfterMarch k ∧ monthAfterMarch k ≤ 12 := by
  unfold monthAfterMarch
  split <;> omega

theorem daysInMonth_monthAfterMarch {k : Int} (h0 : 0 ≤ k) (h1 : k < 11) (y : Int) :
    daysInMonth y (monthAfterMarch k) = daysBeforeMonth (k + 1) - daysBeforeMonth k := by
  have key : ∀ k : Nat, k < 11 → ∀ leap : Bool,
      (if monthAfterMarch k = 2 then (if leap then 29 else 28)
        else if monthAfterMarch k = 4 || monthAfterMarch k = 6 || monthAfterMarch k = 9
          || monthAfterMarch k = 11 then 30
        else (31 : Int)) = daysBeforeMonth (k + 1) - daysBeforeMonth k := by decide
  have h := key k.toNat (by omega) (isLeapYear y)
  rwa [Int.toNat_of_nonneg h0] at h

/-- Any month but the last, February, ends where the next one begins. -/
theorem day_range {n : Int} (h0 : 0 ≤ n) (h1 : n ≤ 365) {y : Int}
    (hleap : n = 365 → isLeapYear y = true) :
    1 ≤ n - daysBeforeMonth (monthOfDay n) + 1 ∧
      n - daysBeforeMonth (monthOfDay n) + 1 ≤ daysInMonth y (monthAfterMarch (monthOfDay n)) := by
  have hk := monthOfDay_range h0 h1
  have hlow : daysBeforeMonth (monthOfDay n) ≤ n := by
    unfold daysBeforeMonth monthOfDay
    omega
  have hhigh : n < daysBeforeMonth (monthOfDay n + 1) := by
    unfold daysBeforeMonth monthOfDay
    omega
  refine ⟨by omega, ?_⟩
  by_cases hlast : monthOfDay n < 11
  · rw [daysInMonth_monthAfterMarch hk.1 hlast]
    omega
  · obtain hm : monthOfDay n = 11 := by omega
    rw [hm]
    change n - 337 + 1 ≤ if isLeapYear y then 29 else 28
    split
    next => omega
    next hyear =>
      have : n ≠ 365 := fun h => hyear (hleap h)
      omega

theorem isDate_dateOf (day : Int) : isDate (dateOf day) = true := by
  have h0 := Int.emod_nonneg (day + epoch) (by decide : (146097 : Int) ≠ 0)
  have h1 := Int.emod_lt_of_pos (day + epoch) (by decide : (0 : Int) < 146097)
  have hyear := isLeapYear_of_last_day h0 h1
  have hd := sub_daysBeforeYear_range h0 h1
  have hk := monthOfDay_range hd.1 hd.2
  have hm := month_range hk.1 hk.2
  have hday := day_range hd.1 hd.2 (y := (dateOf day).year) ?leap
  case leap =>
    intro h
    have hfebruary : monthAfterMarch (monthOfDay 365) ≤ 2 := by decide
    have hyear := hyear h
    simp only [dateOf, h, if_pos hfebruary, isLeapYear, Bool.and_eq_true, Bool.or_eq_true,
      decide_eq_true_eq]
    omega
  simp only [isDate, Bool.and_eq_true, decide_eq_true_eq]
  exact ⟨⟨hm, hday.1⟩, hday.2⟩

/-- Days from the first of January -262143 to the last of December 262142 are in these years. -/
theorem year_dateOf_range {day : Int} (hlow : -96465292 ≤ day) (hhigh : day ≤ 95026236) :
    -262143 ≤ (dateOf day).year ∧ (dateOf day).year ≤ 262142 := by
  have h0 := Int.emod_nonneg (day + epoch) (by decide : (146097 : Int) ≠ 0)
  have h1 := Int.emod_lt_of_pos (day + epoch) (by decide : (0 : Int) < 146097)
  have hz := Int.emod_add_mul_ediv (day + epoch) 146097
  have hy := yearOfDay_range h0 h1
  have hd := sub_daysBeforeYear_range h0 h1
  generalize hyoe : yearOfDay ((day + epoch) % 146097) = y at hy hd
  generalize hdoy : (day + epoch) % 146097 - daysBeforeYear y = d at hd
  have hk := monthOfDay_range hd.1 hd.2
  -- January and February belong to the calendar year after the one that begins in March
  have hyear : (dateOf day).year = y + (day + epoch) / 146097 * 400 + 1 ∧ 10 ≤ monthOfDay d
      ∨ (dateOf day).year = y + (day + epoch) / 146097 * 400 ∧ monthOfDay d < 10 := by
    simp only [dateOf, hyoe, hdoy]
    by_cases hmonth : monthAfterMarch (monthOfDay d) ≤ 2
    · rw [if_pos hmonth]
      unfold monthAfterMarch at hmonth
      split at hmonth <;> omega
    · rw [if_neg hmonth]
      unfold monthAfterMarch at hmonth
      split at hmonth <;> omega
  simp only [epoch, daysBeforeYear, monthOfDay] at hz hd hdoy hyear
  omega

end Calendar

namespace Timestamp

/-! ### Parts of a text -/

open Decimal (isDigit padded)

theorem takeWhile_digits {ds r : List Char} (hd : ∀ c ∈ ds, isDigit c = true)
    (hr : ∀ c, r.head? = some c → isDigit c = false) : (ds ++ r).takeWhile isDigit = ds := by
  rw [List.takeWhile_append_of_pos hd]
  cases r with
  | nil => simp
  | cons c r => simp [hr c rfl]

/-- Digits in front are read as a number when there are no more than may be
read, and no digit follows unless all that may be read are there. -/
theorem number?_append {max : Nat} {ds r : List Char} (hne : ds ≠ [])
    (hd : ∀ c ∈ ds, isDigit c = true) (hmax : ds.length ≤ max)
    (hr : ds.length = max ∨ ∀ c, r.head? = some c → isDigit c = false) :
    number? max (ds ++ r) = some (Decimal.value ds, r) := by
  have htake : ((ds ++ r).take max).takeWhile isDigit = ds := by
    rw [List.take_append, List.take_of_length_le hmax]
    refine takeWhile_digits hd ?_
    intro c hc
    rcases hr with hr | hr
    · simp [hr] at hc
    · cases r with
      | nil => simp at hc
      | cons d r =>
        refine hr c ?_
        cases hk : max - ds.length with
        | zero => simp [hk] at hc
        | succ k => simpa [hk] using hc
  simp only [number?, htake, if_neg hne, List.drop_left]

theorem isBlank_of_isDigit {c : Char} (h : isDigit c = true) : Text.isBlank c = false := by
  have h0 : ('0' : Char).val.toNat = 48 := rfl
  have h9 : ('9' : Char).val.toNat = 57 := rfl
  have hc : c.toNat = c.val.toNat := rfl
  simp only [isDigit, Bool.and_eq_true, decide_eq_true_eq, Char.le_def,
    UInt32.le_iff_toNat_le] at h
  simp only [Text.isBlank, Bool.or_eq_false_iff, Bool.and_eq_false_iff, decide_eq_false_iff_not]
  omega

theorem trimStart_digits {ds r : List Char} (hne : ds ≠ []) (hd : ∀ c ∈ ds, isDigit c = true) :
    Text.trimStart (ds ++ r) = ds ++ r := by
  cases ds with
  | nil => exact absurd rfl hne
  | cons c ds => exact Text.trimStart_of_head (isBlank_of_isDigit (hd c (List.mem_cons_self ..)))

theorem field?_twoDigits {n : Int} (h0 : 0 ≤ n) (h1 : n < 100) (r : List Char) :
    field? (twoDigits n ++ r) = some (n, r) := by
  have hlength : (padded 2 n.toNat).length = 2 := Decimal.length_padded (by decide) (by omega)
  have hne := Decimal.padded_ne_nil 2 n.toNat
  have hd : ∀ c ∈ padded 2 n.toNat, isDigit c = true := Decimal.isDigit_of_mem_padded
  rw [field?, twoDigits, trimStart_digits hne hd,
    number?_append hne hd (Nat.le_of_eq hlength) (.inl hlength), Decimal.value_padded]
  simp only [Option.map_some, Int.toNat_of_nonneg h0]

theorem separator?_cons {c : Char} (hc : Text.isBlank c = false) (r : List Char) :
    separator? c (c :: r) = some r := by
  simp only [separator?, Text.trimStart_of_head hc]
  rfl

theorem year?_yearChars (y : Int) (r : List Char) :
    year? (yearChars y ++ '-' :: r) = some (y, '-' :: r) := by
  have hstop : ∀ c, ('-' :: r).head? = some c → isDigit c = false := by
    intro c hc
    cases hc
    rfl
  unfold yearChars
  split
  next h =>
    have hne := Decimal.padded_ne_nil 4 y.toNat
    have hd : ∀ c ∈ padded 4 y.toNat, isDigit c = true := Decimal.isDigit_of_mem_padded
    have hlength : (padded 4 y.toNat).length = 4 := Decimal.length_padded (by decide) (by omega)
    have hnumber := number?_append hne hd (Nat.le_of_eq hlength) (.inr hstop)
    have hplain : ∀ c cs, padded 4 y.toNat ++ '-' :: r = c :: cs → isDigit c = true := by
      intro c cs heq
      cases hds : padded 4 y.toNat with
      | nil => exact absurd hds hne
      | cons d ds =>
        rw [hds] at heq
        exact (List.cons.inj heq).1 ▸ hd d (hds ▸ List.mem_cons_self ..)
    rw [year?, trimStart_digits hne hd]
    split
    next heq => exact absurd (hplain _ _ heq) (by decide)
    next heq => exact absurd (hplain _ _ heq) (by decide)
    next =>
      rw [hnumber, Decimal.value_padded]
      simp only [Option.map_some, Int.toNat_of_nonneg h.1]
  next h =>
    have hne := Decimal.padded_ne_nil 4 y.natAbs
    have hd : ∀ c ∈ padded 4 y.natAbs, isDigit c = true := Decimal.isDigit_of_mem_padded
    have hmax : (padded 4 y.natAbs).length ≤ (padded 4 y.natAbs ++ '-' :: r).length := by simp
    have hnumber := number?_append hne hd hmax (.inr hstop)
    split
    next hneg =>
      rw [List.cons_append, year?, Text.trimStart_of_head (by decide)]
      simp only [hnumber, Decimal.value_padded, Option.map_some, Option.some.injEq,
        Prod.mk.injEq, and_true]
      omega
    next hpos =>
      rw [List.cons_append, year?, Text.trimStart_of_head (by decide)]
      simp only [hnumber, Decimal.value_padded, Option.map_some, Option.some.injEq,
        Prod.mk.injEq, and_true]
      omega

theorem fraction?_padded {w n : Nat} (h0 : 0 < w) (h9 : w ≤ 9) (hn : n < 10 ^ w) (r : List Char) :
    fraction? ('.' :: padded w n ++ 'Z' :: r) = some (n * 10 ^ (9 - w), 'Z' :: r) := by
  have hlength := Decimal.length_padded h0 hn
  have hdigits : (padded w n ++ 'Z' :: r).takeWhile isDigit = padded w n := by
    refine takeWhile_digits Decimal.isDigit_of_mem_padded ?_
    intro c hc
    cases hc
    rfl
  have htake : (padded w n).take 9 = padded w n := List.take_of_length_le (by omega)
  have hdrop : (padded w n ++ 'Z' :: r).drop w = 'Z' :: r := by
    rw [List.drop_append_of_le_length (by omega), List.drop_of_length_le (by omega)]
    rfl
  simp only [List.cons_append, fraction?, hdigits, if_neg (Decimal.padded_ne_nil w n), htake,
    Decimal.value_padded, hlength, hdrop]

theorem fraction?_fractionChars {nanos : Nat} (h : nanos < 1000000000) (r : List Char) :
    fraction? (fractionChars nanos ++ 'Z' :: r) = some (nanos, 'Z' :: r) := by
  unfold fractionChars
  split
  next h0 =>
    subst h0
    rfl
  split
  next h6 =>
    rw [fraction?_padded (by decide) (by decide) (by omega)]
    congr 2
    omega
  split
  next h3 =>
    rw [fraction?_padded (by decide) (by decide) (by omega)]
    congr 2
    omega
  next =>
    rw [fraction?_padded (by decide) (by decide) (by omega)]
    congr 2
    omega

theorem localSecond?_dateOf {seconds : Int} (hlow : minSecond ≤ seconds)
    (hhigh : seconds ≤ maxSecond) {second : Int}
    (hsecond : second = seconds % 60 ∨ second = 60 ∧ seconds % 60 = 59) :
    localSecond? (Calendar.dateOf (seconds / 86400)) (seconds % 86400 / 3600)
      (seconds % 86400 / 60 % 60) second = some seconds := by
  have hdate := Calendar.isDate_dateOf (seconds / 86400)
  have hyear : -262143 ≤ (Calendar.dateOf (seconds / 86400)).year
      ∧ (Calendar.dateOf (seconds / 86400)).year ≤ 262142 := by
    unfold minSecond at hlow
    unfold maxSecond at hhigh
    exact Calendar.year_dateOf_range (by omega) (by omega)
  rw [localSecond?, if_pos, Calendar.dayOf_dateOf]
  · congr 1
    omega
  · simp only [hdate, Bool.true_and, Bool.and_eq_true, decide_eq_true_eq]
    omega

/-- The text of a date, a time of day and a fraction is taken apart into these. -/
theorem ofChars?_parts {date : Date} (hdate : Calendar.isDate date = true) {hour minute second : Int}
    (hhour : 0 ≤ hour ∧ hour < 100) (hminute : 0 ≤ minute ∧ minute < 100)
    (hsecond : 0 ≤ second ∧ second < 100) {nanos : Nat} (hnanos : nanos < 1000000000) :
    ofChars? (yearChars date.year ++ '-' :: twoDigits date.month ++ '-' :: twoDigits date.day
        ++ 'T' :: twoDigits hour ++ ':' :: twoDigits minute ++ ':' :: twoDigits second
        ++ fractionChars nanos ++ ['Z']) =
      (localSecond? date hour minute second).bind fun seconds =>
        make? seconds (nanos + if second = 60 then 1000000000 else 0) := by
  obtain ⟨year, month, day⟩ := date
  have hrange : 1 ≤ month ∧ month ≤ 12 ∧ 1 ≤ day ∧ day ≤ 31 := by
    simp only [Calendar.isDate, Calendar.daysInMonth, Bool.and_eq_true, decide_eq_true_eq] at hdate
    obtain ⟨⟨hmonth, hday⟩, hlast⟩ := hdate
    refine ⟨hmonth.1, hmonth.2, hday, Int.le_trans hlast ?_⟩
    split
    · split <;> decide
    · split <;> decide
  obtain ⟨hm0, hm1, hd0, hd1⟩ := hrange
  simp only [List.append_assoc, List.cons_append]
  have hoffset : offset? (Text.trimStart ['Z']) = some (0, []) := by decide
  have hend : ¬ Text.trimStart [] ≠ [] := by decide
  -- one part after the other: what is read of it, and then what stands behind it
  rw [ofChars?, year?_yearChars]
  dsimp only [Option.bind_eq_bind, Option.bind_some]
  rw [separator?_cons rfl]
  dsimp only [Option.bind_some]
  rw [field?_twoDigits (by omega) (by omega)]
  dsimp only [Option.bind_some]
  rw [separator?_cons rfl]
  dsimp only [Option.bind_some]
  rw [field?_twoDigits (by omega) (by omega)]
  dsimp only [Option.bind_some]
  rw [if_pos (by decide), field?_twoDigits hhour.1 hhour.2]
  dsimp only [Option.bind_some]
  rw [separator?_cons rfl]
  dsimp only [Option.bind_some]
  rw [field?_twoDigits hminute.1 hminute.2]
  dsimp only [Option.bind_some]
  rw [separator?_cons rfl]
  dsimp only [Option.bind_some]
  rw [field?_twoDigits hsecond.1 hsecond.2]
  dsimp only [Option.bind_some]
  rw [fraction?_fractionChars hnanos]
  dsimp only [Option.bind_some]
  rw [hoffset]
  dsimp only [Option.bind_some]
  rw [if_neg hend]
  simp only [Int.sub_zero]

/-- A point in time is read from its characters: a leap second is the second 60. -/
theorem ofChars?_chars (t : Timestamp) : ofChars? t.chars = some t := by
  obtain ⟨seconds, nanos, valid⟩ := t
  have hv := valid
  simp only [isTimestamp, Bool.and_eq_true, Bool.or_eq_true, decide_eq_true_eq] at hv
  obtain ⟨⟨hlow, hhigh⟩, hnanos⟩ := hv
  have hdate := Calendar.isDate_dateOf (seconds / 86400)
  have hhour : 0 ≤ seconds % 86400 / 3600 ∧ seconds % 86400 / 3600 < 100 := by omega
  have hminute : 0 ≤ seconds % 86400 / 60 % 60 ∧ seconds % 86400 / 60 % 60 < 100 := by omega
  have hsecond : 0 ≤ seconds % 86400 % 60 + (nanos / 1000000000 : Nat)
      ∧ seconds % 86400 % 60 + (nanos / 1000000000 : Nat) < 100 := by omega
  have hfraction : nanos % 1000000000 < 1000000000 := by omega
  refine (ofChars?_parts hdate hhour hminute hsecond hfraction).trans ?_
  rw [localSecond?_dateOf hlow hhigh (by omega)]
  have hleap : nanos % 1000000000
      + (if seconds % 86400 % 60 + (nanos / 1000000000 : Nat) = 60 then 1000000000 else 0)
      = nanos := by
    split <;> omega
  rw [Option.bind_some, hleap, make?, dif_pos valid]

theorem ofString?_text (t : Timestamp) : ofString? t.text = some t := by
  rw [ofString?, text, String.toList_ofList, ofChars?_chars]

end Timestamp

end Mediation
