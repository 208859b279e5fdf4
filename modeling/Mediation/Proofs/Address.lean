import Mediation.Identity
import Mediation.Proofs.Decimal

/-!
# Hosts and numbers of addresses

What stands before the last colon of an address is its host, and what follows
is its number, spelled in decimal. A number has more than one spelling: zeros
may precede its digits, and a plus sign these. So an address is a host, a
number and a spelling of it, and two that differ in the spelling alone are
different addresses.
-/

namespace Mediation

/-! ### Spellings of a number -/

namespace Decimal

/-- The digits of a number after some zeros, and perhaps a plus sign before these. -/
def spelled (signed : Bool) (zeros n : Nat) : List Char :=
  (if signed then ['+'] else []) ++ (List.replicate zeros '0' ++ digits n)

theorem head?_unsigned (zeros n : Nat) :
    (List.replicate zeros '0' ++ digits n).head? ≠ some '+' := by
  intro h
  have hmem := List.mem_of_head? h
  rcases List.mem_append.mp hmem with hzero | hdigit
  · exact absurd (List.eq_of_mem_replicate hzero) (by decide)
  · exact absurd (isDigit_of_mem_digits n '+' hdigit) (by decide)

theorem parseBelow?_eq_some_iff {bound : Nat} {cs : List Char} {n : Nat} :
    parseBelow? bound cs = some n ↔ n < bound ∧ ∃ signed zeros, cs = spelled signed zeros n := by
  have hparse (ds : List Char) : (parse? ds).filter (· < bound) = some n ↔
      n < bound ∧ ∃ zeros, ds = List.replicate zeros '0' ++ digits n := by
    rw [Option.filter_eq_some_iff, decide_eq_true_eq, parse?_eq_some_iff, and_comm]
  unfold parseBelow?
  split
  next r =>
    rw [hparse]
    refine and_congr_right fun _ => ⟨fun ⟨zeros, hr⟩ => ⟨true, zeros, by rw [hr]; rfl⟩, ?_⟩
    rintro ⟨signed, zeros, heq⟩
    cases signed with
    | true => exact ⟨zeros, (List.cons.inj heq).2⟩
    | false =>
      have hhead : (List.replicate zeros '0' ++ digits n).head? = some '+' :=
        (congrArg List.head? heq).symm
      exact absurd hhead (head?_unsigned zeros n)
  next hplain =>
    rw [hparse]
    refine and_congr_right fun _ => ⟨fun ⟨zeros, hcs⟩ => ⟨false, zeros, hcs⟩, ?_⟩
    rintro ⟨signed, zeros, heq⟩
    cases signed with
    | true => exact absurd heq (hplain _)
    | false => exact ⟨zeros, heq⟩

theorem not_mem_spelled {c : Char} (hplus : c ≠ '+') (hdigit : isDigit c = false) (signed : Bool)
    (zeros n : Nat) : c ∉ spelled signed zeros n := by
  intro hmem
  rcases List.mem_append.mp hmem with hsign | hmem
  · cases signed with
    | true => exact hplus (List.mem_singleton.mp hsign)
    | false => cases hsign
  · rcases List.mem_append.mp hmem with hzero | hmem
    · rw [List.eq_of_mem_replicate hzero] at hdigit
      cases hdigit
    · rw [isDigit_of_mem_digits n c hmem] at hdigit
      cases hdigit

/-- A number that is spelled alike has the same sign and the same zeros. -/
theorem spelled_inj {signed signed' : Bool} {zeros zeros' n : Nat} :
    spelled signed zeros n = spelled signed' zeros' n ↔ signed = signed' ∧ zeros = zeros' := by
  refine ⟨fun h => ?_, fun ⟨hsigned, hzeros⟩ => by rw [hsigned, hzeros]⟩
  have hsigned : signed = signed' := by
    cases signed with
    | true =>
      cases signed' with
      | true => rfl
      | false =>
        have hhead : some '+' = (List.replicate zeros' '0' ++ digits n).head? :=
          congrArg List.head? h
        exact absurd hhead.symm (head?_unsigned zeros' n)
    | false =>
      cases signed' with
      | false => rfl
      | true =>
        have hhead : (List.replicate zeros '0' ++ digits n).head? = some '+' :=
          congrArg List.head? h
        exact absurd hhead (head?_unsigned zeros n)
  subst hsigned
  have hlength := congrArg List.length h
  simp only [spelled, List.length_append, List.length_replicate] at hlength
  exact ⟨rfl, by omega⟩

end Decimal

/-! ### The last colon -/

theorem splitLastColon_eq_none_iff {cs : List Char} : splitLastColon cs = none ↔ ':' ∉ cs := by
  induction cs with
  | nil => exact ⟨fun _ h => (nomatch h), fun _ => rfl⟩
  | cons c cs ih =>
    simp only [splitLastColon, List.mem_cons, not_or]
    split
    next front back hsplit =>
      have hmem : ¬ ':' ∉ cs := fun h => by
        rw [ih.mpr h] at hsplit
        cases hsplit
      exact ⟨fun h => (nomatch h), fun h => absurd h.2 hmem⟩
    next hsplit =>
      have hmem := ih.mp hsplit
      split
      next hc => exact ⟨fun h => (nomatch h), fun h => absurd hc.symm h.1⟩
      next hc => exact ⟨fun _ => ⟨Ne.symm hc, hmem⟩, fun _ => rfl⟩

theorem splitLastColon_append {front back : List Char} (h : ':' ∉ back) :
    splitLastColon (front ++ ':' :: back) = some (front, back) := by
  induction front with
  | nil =>
    have hnone := splitLastColon_eq_none_iff.mpr h
    simp only [List.nil_append, splitLastColon, hnone, if_true]
  | cons c front ih => simp only [List.cons_append, splitLastColon, ih]

theorem splitLastColon_eq_some_iff {cs front back : List Char} :
    splitLastColon cs = some (front, back) ↔ cs = front ++ ':' :: back ∧ ':' ∉ back := by
  refine ⟨fun h => ?_, fun ⟨heq, hback⟩ => heq ▸ splitLastColon_append hback⟩
  induction cs generalizing front with
  | nil => cases h
  | cons c cs ih =>
    simp only [splitLastColon] at h
    split at h
    next front' back' hsplit =>
      cases h
      obtain ⟨heq, hback⟩ := ih hsplit
      exact ⟨by rw [heq, List.cons_append], hback⟩
    next hsplit =>
      split at h
      next hc =>
        cases h
        exact ⟨by rw [hc, List.nil_append], splitLastColon_eq_none_iff.mp hsplit⟩
      next => cases h

/-! ### Addresses -/

/-- The text of a host and a number, with a spelling of the number. -/
def addressText (host : String) (n : Nat) (signed : Bool) (zeros : Nat) : String :=
  String.ofList (host.toList ++ ':' :: Decimal.spelled signed zeros n)

theorem addressText_inj {host : String} {n zeros zeros' : Nat} {signed signed' : Bool} :
    addressText host n signed zeros = addressText host n signed' zeros' ↔
      signed = signed' ∧ zeros = zeros' := by
  refine ⟨fun h => ?_, fun ⟨hsigned, hzeros⟩ => by rw [hsigned, hzeros]⟩
  have hlist := congrArg String.toList h
  rw [addressText, addressText, String.toList_ofList, String.toList_ofList] at hlist
  exact Decimal.spelled_inj.mp (List.cons.inj (List.append_cancel_left hlist)).2

/-- The parts of an address are its two sides of the last colon, the second one read as a number. -/
theorem addressParts?_eq_some_iff_split {s host : String} {n : Nat} :
    addressParts? s = some (host, n) ↔ ∃ front digits,
      splitLastColon s.toList = some (front, digits) ∧ Decimal.parseBelow? 65536 digits = some n ∧
        String.ofList front = host ∧ host ≠ "" ∧ n ≠ 0 := by
  have hempty (front : List Char) : String.ofList front ≠ "" ↔ front ≠ [] := by
    rw [ne_eq, ne_eq, ← String.toList_inj, String.toList_ofList, String.toList_empty]
  constructor
  · intro h
    unfold addressParts? at h
    split at h
    next => cases h
    next front digits hsplit =>
      split at h
      next => cases h
      next m hm =>
        split at h
        next hvalid =>
          cases h
          exact ⟨front, digits, hsplit, hm, rfl, (hempty front).mpr hvalid.1, hvalid.2⟩
        next => cases h
  · rintro ⟨front, digits, hsplit, hnumber, rfl, hhost, hn⟩
    have hvalid : front ≠ [] ∧ n ≠ 0 := ⟨(hempty front).mp hhost, hn⟩
    simp only [addressParts?, hsplit, hnumber, if_pos hvalid]

theorem addressParts?_eq_some_iff {s host : String} {n : Nat} :
    addressParts? s = some (host, n) ↔
      (host ≠ "" ∧ 1 ≤ n ∧ n ≤ 65535) ∧ ∃ signed zeros, s = addressText host n signed zeros := by
  rw [addressParts?_eq_some_iff_split]
  constructor
  · rintro ⟨front, digits, hsplit, hnumber, rfl, hhost, hn⟩
    obtain ⟨heq, -⟩ := splitLastColon_eq_some_iff.mp hsplit
    obtain ⟨hlt, signed, zeros, rfl⟩ := Decimal.parseBelow?_eq_some_iff.mp hnumber
    refine ⟨⟨hhost, Nat.pos_of_ne_zero hn, Nat.le_of_lt_succ hlt⟩, signed, zeros, ?_⟩
    rw [addressText, String.toList_ofList, ← heq, String.ofList_toList]
  · rintro ⟨⟨hhost, hpos, hle⟩, signed, zeros, rfl⟩
    have hback : ':' ∉ Decimal.spelled signed zeros n :=
      Decimal.not_mem_spelled (by decide) (by decide) signed zeros n
    have hnumber : Decimal.parseBelow? 65536 (Decimal.spelled signed zeros n) = some n :=
      Decimal.parseBelow?_eq_some_iff.mpr ⟨Nat.lt_succ_of_le hle, signed, zeros, rfl⟩
    refine ⟨host.toList, Decimal.spelled signed zeros n, ?_, hnumber, String.ofList_toList, hhost,
      Nat.ne_of_gt hpos⟩
    rw [addressText, String.toList_ofList, splitLastColon_append hback]

namespace NodeAddress

/-- What the accessors read off an address is what it was taken for an address by: neither of
them falls back. -/
theorem parts (a : NodeAddress) : addressParts? a.text = some (a.host, a.number) := by
  obtain ⟨⟨host, n⟩, hparts⟩ := Option.isSome_iff_exists.mp a.valid
  obtain ⟨front, digits, hsplit, hnumber, hhost, -⟩ := addressParts?_eq_some_iff_split.mp hparts
  have ha : a.host = host := by
    rw [NodeAddress.host, hsplit, Option.map_some, Option.getD_some, hhost]
  have hn : a.number = n := by
    rw [number, hsplit, Option.bind_some, hnumber, Option.getD_some]
  rw [hparts, ha, hn]

theorem ext_text {a b : NodeAddress} (h : a.text = b.text) : a = b := by
  cases a
  cases b
  cases h
  rfl

theorem exists_ofString?_iff {s : String} :
    (∃ a, ofString? s = .ok a ∧ a.text = s) ↔ ∃ host n, addressParts? s = some (host, n) := by
  unfold ofString?
  split
  next h =>
    obtain ⟨⟨host, n⟩, hparts⟩ := Option.isSome_iff_exists.mp h
    exact ⟨fun _ => ⟨host, n, hparts⟩, fun _ => ⟨_, rfl, rfl⟩⟩
  next h =>
    constructor
    · rintro ⟨a, ha, -⟩
      cases ha
    · rintro ⟨host, n, hparts⟩
      rw [hparts] at h
      exact absurd rfl h

/-- An address is its host, which is not empty, a colon and a spelling of its number, which is
one from 1 to 65535; a text is taken for an address exactly if it has this form; and two
addresses with one host and one number are equal exactly if they spell the number alike. -/
theorem host_and_spelled_number :
    (∀ a : NodeAddress, (a.host ≠ "" ∧ 1 ≤ a.number ∧ a.number ≤ 65535) ∧
      ∃ signed zeros, a.text = addressText a.host a.number signed zeros) ∧
    (∀ s, (∃ a, ofString? s = .ok a ∧ a.text = s) ↔ ∃ host n signed zeros,
      (host ≠ "" ∧ 1 ≤ n ∧ n ≤ 65535) ∧ s = addressText host n signed zeros) ∧
    ∀ (a b : NodeAddress) (signed signed' : Bool) (zeros zeros' : Nat),
      a.host = b.host → a.number = b.number →
      a.text = addressText a.host a.number signed zeros →
      b.text = addressText b.host b.number signed' zeros' →
      (a = b ↔ signed = signed' ∧ zeros = zeros') := by
  refine ⟨fun a => addressParts?_eq_some_iff.mp a.parts, fun s => ?_, ?_⟩
  · rw [exists_ofString?_iff]
    constructor
    · rintro ⟨host, n, hparts⟩
      obtain ⟨hvalid, signed, zeros, hs⟩ := addressParts?_eq_some_iff.mp hparts
      exact ⟨host, n, signed, zeros, hvalid, hs⟩
    · rintro ⟨host, n, signed, zeros, hvalid, hs⟩
      exact ⟨host, n, addressParts?_eq_some_iff.mpr ⟨hvalid, signed, zeros, hs⟩⟩
  · intro a b signed signed' zeros zeros' hhost hnumber ha hb
    rw [← hhost, ← hnumber] at hb
    have hspelled : a.text = b.text ↔ signed = signed' ∧ zeros = zeros' := by
      rw [ha, hb, addressText_inj]
    exact ⟨fun h => hspelled.mp (congrArg text h), fun h => ext_text (hspelled.mpr h)⟩

/-- Two zeros before the digits make another address with the same host and number. -/
theorem host_and_spelled_number_zeros :
    let a : NodeAddress := ⟨"[::1]:0080", by decide +kernel⟩
    let b : NodeAddress := ⟨"[::1]:80", by decide +kernel⟩
    (a.host = b.host ∧ a.number = b.number) ∧ a ≠ b := by
  intro a b
  have hhost : a.host = b.host := by decide +kernel
  have hnumber : a.number = b.number := by decide +kernel
  have ha : a.text = addressText a.host a.number false 2 := by decide +kernel
  have hb : b.text = addressText b.host b.number false 0 := by decide +kernel
  obtain ⟨-, -, hequal⟩ := host_and_spelled_number
  refine ⟨⟨hhost, hnumber⟩, fun h => ?_⟩
  cases ((hequal a b false false 2 0 hhost hnumber ha hb).mp h).2

/-- A plus sign before the number makes another address with the same host and number. -/
theorem not_text_of_host_and_number :
    ∃ a b, ofString? "a:+80" = .ok a ∧ ofString? "a:80" = .ok b ∧
      (a.host = "a" ∧ a.number = 80) ∧ (b.host = "a" ∧ b.number = 80) ∧
      a.text ≠ String.ofList (a.host.toList ++ ':' :: Decimal.digits a.number) ∧ a ≠ b := by
  refine ⟨⟨"a:+80", by decide +kernel⟩, ⟨"a:80", by decide +kernel⟩, ?_⟩
  decide +kernel

end NodeAddress

end Mediation
