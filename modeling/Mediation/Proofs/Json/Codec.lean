import Mediation.Json.Decode
import Mediation.Proofs.Json.Text

/-!
# Written values and their decoders

`Coded dec n j a` says that the JSON value `j` stands for `a`: it may be nested
`n` deep at most, and the decoder reads it as `a` wherever its document comes
from. The lemmas follow the decoders: scalars, options, lists, named variants,
records field by field and tagged variants. A whole text of a coded value is
read as the value (`Coded.decodeText_render`). `Yields dec P` says the converse
about ranges: whatever the decoder reads has the property.
-/

namespace Mediation

namespace Decode

open Json (Fits toDocuments toMembers Document Key)

structure Coded {α : Type} (dec : Decoder α) (n : Nat) (j : Json) (a : α) : Prop where
  fits : Fits n j
  reads : ∀ src, dec src j.toDocument = .ok a

section

variable {α β : Type} {n : Nat}

/-! ### Scalars -/

theorem fits_string (s : String) : Fits n (.string s) := by cases n <;> trivial

theorem coded_string (s : String) : Coded string n (.string s) s := ⟨fits_string s, fun _ => rfl⟩

theorem coded_boolean (b : Bool) : Coded boolean n (.bool b) b :=
  ⟨by cases n <;> trivial, fun _ => rfl⟩

theorem coded_integer {lo hi i : Int} (hlo : lo ≤ i) (hhi : i ≤ hi) (hlow : -(2 ^ 63) ≤ i)
    (hhigh : i < 2 ^ 64) : Coded (integer lo hi) n (.int i) i :=
  ⟨by cases n <;> exact ⟨hlow, hhigh⟩, fun _ => if_pos ⟨hlo, hhi⟩⟩

theorem coded_map {dec : Decoder α} {j : Json} {a : α} (h : Coded dec n j a) (f : α → β) :
    Coded (fun src d => (dec src d).map f) n j (f a) :=
  ⟨h.fits, fun src => by simp only [h.reads src, Except.map]⟩

theorem coded_natural {bound k : Nat} (h : k < bound) (hb : bound ≤ 2 ^ 64) :
    Coded (natural bound) n (.nat k) k :=
  coded_map (coded_integer (i := k) (by omega) (by omega) (by omega) (by omega)) Int.toNat

theorem coded_count {k : Nat} (h : k < 2 ^ 64) : Coded count n (.nat k) k :=
  coded_natural h (Nat.le_refl _)

theorem coded_word64 (w : UInt64) : Coded word64 n (.nat w.toNat) w := by
  have h := coded_map (coded_count (n := n) w.toNat_lt) UInt64.ofNat
  rwa [UInt64.ofNat_toNat] at h

theorem coded_byte (b : UInt8) : Coded byte n (.nat b.toNat) b := by
  have h := coded_map (coded_natural (n := n) b.toNat_lt (by decide)) UInt8.ofNat
  rwa [UInt8.ofNat_toNat] at h

theorem coded_int64 (i : Int64) : Coded int64 n (.int i.toInt) i := by
  have hlo := i.le_toInt
  have hhi := i.toInt_lt
  have h := coded_map
    (coded_integer (n := n) hlo (Int.le_sub_one_of_lt hhi) hlo (by omega)) Int64.ofInt
  rwa [Int64.ofInt_toInt] at h

/-- A text that parses as the value it was written from. -/
theorem coded_parsed {parse : String → Except DecodeError α} {s : String} {a : α}
    (h : parse s = .ok a) : Coded (parsed parse) n (.string s) a :=
  ⟨fits_string s, fun _ => h⟩

/-! ### Options and lists -/

theorem coded_none (dec : Decoder α) : Coded (nullable dec) n .null none :=
  ⟨by cases n <;> trivial, fun _ => rfl⟩

theorem coded_some {dec : Decoder α} {j : Json} {a : α} (h : Coded dec n j a) (hj : j ≠ .null) :
    Coded (nullable dec) n j (some a) := by
  refine ⟨h.fits, fun src => ?_⟩
  have hd : j.toDocument ≠ .null := by
    intro heq
    cases j with
    | null => exact hj rfl
    | _ => cases heq
  rw [nullable.eq_2 _ _ _ hd, h.reads src]
  rfl

theorem coded_optional {dec : Decoder α} {write : α → Json}
    (h : ∀ a, Coded dec n (write a) a) (hw : ∀ a, write a ≠ .null) :
    ∀ o, Coded (nullable dec) n (.optional write o) o
  | none => coded_none dec
  | some a => coded_some (h a) (hw a)

theorem coded_list {dec : Decoder α} {write : α → Json} {as : List α}
    (h : ∀ a ∈ as, Coded dec n (write a) a) :
    Coded (listOf dec) (n + 1) (.list write as) as := by
  refine ⟨?_, fun src => ?_⟩
  · intro j hj
    obtain ⟨a, ha, rfl⟩ := List.mem_map.mp hj
    exact (h a ha).fits
  · change each dec src (toDocuments (as.map write)) = .ok as
    induction as with
    | nil => rfl
    | cons a as ih =>
      have ih := ih fun b hb => h b (List.mem_cons_of_mem _ hb)
      rw [List.map_cons, toDocuments, each, (h a (List.mem_cons_self ..)).reads src, ih]
      rfl

/-! ### Named variants -/

theorem findVariant_of_mem {variants : List (String × α)} (hkeys : (variants.map Prod.fst).Nodup)
    {name : String} {a : α} (h : (name, a) ∈ variants) : findVariant variants name = .ok a := by
  have hfind : variants.find? (fun v => v.1 = name) = some (name, a) := by
    induction variants with
    | nil => cases h
    | cons v vs ih =>
      rw [List.map_cons, List.nodup_cons] at hkeys
      rcases List.mem_cons.mp h with rfl | h
      · rw [List.find?_cons_of_pos (by simp)]
      · have hne : v.1 ≠ name := by
          intro heq
          exact hkeys.1 (List.mem_map.mpr ⟨_, h, heq.symm⟩)
        rw [List.find?_cons_of_neg (by simpa using hne)]
        exact ih hkeys.2 h
  simp only [findVariant, hfind]

/-- The name of a variant that holds nothing. -/
theorem coded_choice_unit {variants : List (String × Payload α)} {name : String} {a : α}
    (hkeys : (variants.map Prod.fst).Nodup) (h : (name, .unit a) ∈ variants) :
    Coded (choice variants) n (.string name) a := by
  refine ⟨fits_string name, fun src => ?_⟩
  change (findVariant variants name).bind _ = _
  rw [findVariant_of_mem hkeys h]
  rfl

/-- A variant that holds a text, as an object with one member. -/
theorem coded_choice_text {variants : List (String × Payload α)} {name : String} {f : String → α}
    (hkeys : (variants.map Prod.fst).Nodup) (h : (name, .text f) ∈ variants) (s : String) :
    Coded (choice variants) (n + 1) (.object [(name, .string s)]) (f s) := by
  have hfind := findVariant_of_mem hkeys h
  refine ⟨?_, fun src => ?_⟩
  · intro m hm
    rw [List.mem_singleton.mp hm]
    exact fits_string s
  · cases src with
    | text =>
      change textVariant variants [(.named name, .string s)] = _
      rw [textVariant, hfind]
      rfl
    | buffer =>
      change bufferedVariant variants [(.named name, .string s)] = _
      rw [bufferedVariant, hfind]
      rfl

theorem coded_enumeration {name : α → String} {all : List α} {a : α} (ha : a ∈ all)
    (hnames : (all.map name).Nodup) :
    Coded (enumeration (all.map fun a => (name a, a))) n (.string (name a)) a := by
  refine coded_choice_unit ?_ ?_
  · simpa [Function.comp_def] using hnames
  · exact List.mem_map.mpr ⟨(name a, a), List.mem_map.mpr ⟨a, ha, rfl⟩, rfl⟩

/-! ### Records -/

/-- The members of an object stand for the fields of a record: in the order of
its names, and in any object that holds them the record reads the value. -/
structure Record.Coded (r : Record α) (n : Nat) (ms : List (String × Json)) (a : α) : Prop where
  names : r.names = ms.map Prod.fst
  fits : ∀ m ∈ ms, Fits n m.2
  reads : ∀ src all,
    (∀ m ∈ ms, ∃ place, findMember m.1 0 all = some (place, m.2.toDocument)) →
    r.members src all = .ok a

theorem Record.coded_pure (a : α) : Record.Coded (Pure.pure a) n [] a :=
  ⟨rfl, fun _ hm => absurd hm List.not_mem_nil, fun _ _ _ => rfl⟩

/-- A record with one more field. -/
theorem Record.Coded.field {r : Record (α → β)} {ms : List (String × Json)} {f : α → β}
    (h : r.Coded n ms f) {dec : Decoder α} {j : Json} {a : α} (ha : Decode.Coded dec n j a)
    {name : String} {absence : Absence α} :
    Record.Coded (r <*> Decode.field name dec absence) n (ms ++ [(name, j)]) (f a) where
  names := by
    rw [List.map_append]
    exact congrArg (· ++ [name]) h.names
  fits m hm := by
    rcases List.mem_append.mp hm with hm | hm
    · exact h.fits m hm
    · rw [List.mem_singleton.mp hm]
      exact ha.fits
  reads src all hall := by
    have hf := h.reads src all fun m hm => hall m (List.mem_append_left _ hm)
    obtain ⟨place, hplace⟩ := hall (name, j) (List.mem_append_right _ (List.mem_singleton_self _))
    have hx : (Decode.field name dec absence).members src all = .ok a := by
      simp only [Decode.field, hplace, ha.reads src]
    change (r.seq (Decode.field name dec absence)).members src all = _
    simp only [Record.seq, hf, hx]

/-- A record of one field. -/
theorem Record.coded_map (f : α → β) {dec : Decoder α} {j : Json} {a : α}
    (ha : Decode.Coded dec n j a) {name : String} {absence : Absence α} :
    Record.Coded (f <$> Decode.field name dec absence) n [(name, j)] (f a) :=
  (Record.coded_pure f).field ha

theorem Record.Coded.map {r : Record α} {ms : List (String × Json)} {a : α} (h : r.Coded n ms a)
    (f : α → β) : Record.Coded (f <$> r) n ms (f a) where
  names := h.names
  fits := h.fits
  reads src all hall := by
    change ((Record.pure f).seq r).members src all = _
    simp only [Record.seq, Record.pure, h.reads src all hall]

theorem spoiled_toMembers {names seen : List String} {ms : List (String × Json)}
    (hnames : ∀ m ∈ ms, m.1 ∈ names) (hkeys : (ms.map Prod.fst).Nodup)
    (hseen : ∀ m ∈ ms, m.1 ∉ seen) (place : Nat) :
    spoiled names seen place (toMembers ms) = none := by
  induction ms generalizing seen place with
  | nil => rfl
  | cons m ms ih =>
    obtain ⟨k, j⟩ := m
    rw [List.map_cons, List.nodup_cons] at hkeys
    have hk : names.contains k = true :=
      List.contains_iff_mem.mpr (hnames (k, j) (List.mem_cons_self ..))
    have hnew : ¬ seen.contains k = true := fun h =>
      hseen (k, j) (List.mem_cons_self ..) (List.contains_iff_mem.mp h)
    rw [toMembers, spoiled, if_pos hk, if_neg hnew]
    refine ih (fun m hm => hnames m (List.mem_cons_of_mem _ hm)) hkeys.2 ?_ _
    intro m hm hmem
    rcases List.mem_cons.mp hmem with heq | hmem
    · exact hkeys.1 (List.mem_map.mpr ⟨m, hm, heq⟩)
    · exact hseen m (List.mem_cons_of_mem _ hm) hmem

theorem findMember_toMembers {ms : List (String × Json)} (hkeys : (ms.map Prod.fst).Nodup)
    (place : Nat) {m : String × Json} (hm : m ∈ ms) :
    ∃ p, findMember m.1 place (toMembers ms) = some (p, m.2.toDocument) := by
  induction ms generalizing place with
  | nil => cases hm
  | cons m' ms ih =>
    obtain ⟨k, j⟩ := m'
    rw [List.map_cons, List.nodup_cons] at hkeys
    rw [toMembers, findMember]
    rcases List.mem_cons.mp hm with rfl | hm
    · exact ⟨place, if_pos rfl⟩
    · have hne : Key.named k ≠ Key.named m.1 := by
        intro heq
        exact hkeys.1 (List.mem_map.mpr ⟨m, hm, (Key.named.inj heq).symm⟩)
      rw [if_neg hne]
      exact ih hkeys.2 (place + 1) hm

theorem Record.Coded.ofMembers {r : Record α} {ms : List (String × Json)} {a : α}
    (h : r.Coded n ms a) (hnames : r.names.Nodup) (src : Source) :
    r.ofMembers src (toMembers ms) = .ok a := by
  have hkeys : (ms.map Prod.fst).Nodup := h.names ▸ hnames
  have hspoiled : spoiled r.names [] 0 (toMembers ms) = none :=
    spoiled_toMembers (fun m hm => h.names ▸ List.mem_map.mpr ⟨m, hm, rfl⟩) hkeys
      (fun _ _ => List.not_mem_nil) 0
  have hread := h.reads src (toMembers ms) fun m hm => findMember_toMembers hkeys 0 hm
  simp only [Record.ofMembers, hspoiled, hread]

theorem Record.Coded.object {r : Record α} {ms : List (String × Json)} {a : α}
    (h : r.Coded n ms a) (hnames : r.names.Nodup) :
    Decode.Coded r.decode (n + 1) (.object ms) a :=
  ⟨h.fits, fun src => h.ofMembers hnames src⟩

/-! ### Tagged variants -/

theorem collect_toMembers (t : Tagged α) (src : Source) (found : Option (Record α))
    {ms : List (String × Json)} (h : ∀ m ∈ ms, m.1 ≠ t.tag) :
    t.collect src found (toMembers ms) = .ok (found, toMembers ms) := by
  induction ms with
  | nil => rfl
  | cons m ms ih =>
    obtain ⟨k, j⟩ := m
    have hk : Key.named k ≠ Key.named t.tag := fun heq =>
      h (k, j) (List.mem_cons_self ..) (Key.named.inj heq)
    rw [toMembers, Tagged.collect, if_neg hk, if_neg (by simp [Json.sound_toDocument]),
      ih fun m hm => h m (List.mem_cons_of_mem _ hm)]
    rfl

/-- A tagged variant: the member with its name and the members of its record. -/
theorem coded_tagged {t : Tagged α} {r : Record α} {name : String} {ms : List (String × Json)}
    {a : α} (hvariant : ∀ src, t.variant src (.string name) = .ok r) (h : r.Coded n ms a)
    (hnames : (t.tag :: r.names).Nodup) :
    Coded t.decode (n + 1) (.object ((t.tag, .string name) :: ms)) a := by
  rw [List.nodup_cons] at hnames
  have htag : ∀ m ∈ ms, m.1 ≠ t.tag := fun m hm heq =>
    hnames.1 (h.names ▸ List.mem_map.mpr ⟨m, hm, heq⟩)
  refine ⟨?_, fun src => ?_⟩
  · intro m hm
    rcases List.mem_cons.mp hm with rfl | hm
    · exact fits_string name
    · exact h.fits m hm
  · have hcollect : t.collect src none (toMembers ((t.tag, .string name) :: ms)) =
        .ok (some r, toMembers ms) := by
      rw [toMembers, Tagged.collect, if_pos rfl, if_neg (by simp)]
      simp only [Json.toDocument, hvariant src, collect_toMembers t src (some r) htag]
    change Tagged.decode t src (.object (toMembers ((t.tag, .string name) :: ms))) = .ok a
    simp only [Tagged.decode, hcollect]
    exact h.ofMembers hnames.2 .buffer

/-! ### What is read -/

/-- Whatever the decoder reads has the property. -/
def Yields (dec : Decoder α) (P : α → Prop) : Prop := ∀ src d a, dec src d = .ok a → P a

structure Record.Yields (r : Record α) (P : α → Prop) : Prop where
  members : ∀ src ms a, r.members src ms = .ok a → P a
  items : ∀ src ds a rest, r.items src ds = .ok (a, rest) → P a

theorem yields_any (dec : Decoder α) : Yields dec fun _ => True := fun _ _ _ _ => trivial

theorem yields_count : Yields count (· < 2 ^ 64) := by
  intro src d k h
  obtain ⟨i, hi, rfl⟩ : ∃ i, integer 0 ((2 ^ 64 : Nat) - 1) src d = .ok i ∧ i.toNat = k := by
    revert h
    simp only [count, natural]
    cases integer 0 ((2 ^ 64 : Nat) - 1) src d with
    | error e => exact fun h => nomatch h
    | ok i => exact fun h => ⟨i, rfl, Except.ok.inj h⟩
  unfold integer at hi
  split at hi
  · split at hi
    · cases hi
      omega
    · cases hi
  · cases hi

theorem yields_list {dec : Decoder α} {P : α → Prop} (h : Yields dec P) :
    Yields (listOf dec) fun as => ∀ a ∈ as, P a := by
  intro src d as has
  unfold listOf at has
  split at has
  next ds =>
    induction ds generalizing as with
    | nil =>
      cases has
      exact fun _ ha => absurd ha List.not_mem_nil
    | cons d ds ih =>
      rw [each] at has
      split at has
      · cases has
      next b hb =>
        cases hds : each dec src ds with
        | error e =>
          rw [hds] at has
          cases has
        | ok bs =>
          rw [hds] at has
          cases has
          intro a ha
          rcases List.mem_cons.mp ha with rfl | ha
          · exact h src d _ hb
          · exact ih bs hds a ha
  next => cases has

theorem Record.yields_pure {P : α → Prop} {a : α} (h : P a) : Record.Yields (Pure.pure a) P where
  members _ _ _ hb := Except.ok.inj hb ▸ h
  items _ _ _ _ hb := (Prod.mk.inj (Except.ok.inj hb)).1 ▸ h

theorem Record.Yields.field {r : Record (α → β)} {P : β → Prop} {Q : α → Prop}
    (h : r.Yields fun f => ∀ a, Q a → P (f a)) {dec : Decoder α} (ha : Decode.Yields dec Q)
    {name : String} : Record.Yields (r <*> Decode.field name dec) P where
  members src ms b hb := by
    change (r.seq (Decode.field name dec)).members src ms = .ok b at hb
    simp only [Record.seq] at hb
    split at hb
    next f a hf hx =>
      cases hb
      refine h.members src ms f hf a ?_
      simp only [Decode.field] at hx
      split at hx
      · split at hx
        next hd =>
          cases hx
          exact ha src _ a hd
        next => cases hx
      · cases hx
    all_goals cases hb
  items src ds b rest hb := by
    change (r.seq (Decode.field name dec)).items src ds = .ok (b, rest) at hb
    simp only [Record.seq] at hb
    split at hb
    · cases hb
    next f ds' hf =>
      cases ds' with
      | nil => cases hb
      | cons d ds' =>
        simp only [Decode.field] at hb
        cases hd : dec src d with
        | error e =>
          rw [hd] at hb
          cases hb
        | ok a =>
          rw [hd] at hb
          cases hb
          exact h.items src ds f _ hf a (ha src d a hd)

theorem Record.Yields.decode {r : Record α} {P : α → Prop} (h : r.Yields P) :
    Decode.Yields r.decode P := by
  intro src d a ha
  unfold Record.decode at ha
  split at ha
  next ms =>
    unfold Record.ofMembers at ha
    split at ha
    next hr =>
      cases ha
      exact h.members src ms a hr
    all_goals cases ha
  next ds =>
    unfold Record.ofItems at ha
    split at ha
    · cases ha
    next hr =>
      cases ha
      exact h.items src ds a [] hr
    · cases ha
  next => cases ha

/-! ### Whole texts -/

theorem Yields.decodeText {dec : Decoder α} {P : α → Prop} (h : Yields dec P) {text : String}
    {a : α} (ha : Decode.decodeText dec text = .ok a) : P a := by
  simp only [Decode.decodeText] at ha
  split at ha
  · cases ha
  next hd =>
    split at ha
    · cases ha
      exact h .text _ a hd
    · cases ha

theorem Coded.decodeText_render {dec : Decoder α} {j : Json} {a : α} (h : Coded dec n j a)
    (hn : n ≤ Json.maxDepth) : decodeText dec j.render = .ok a := by
  simp only [decodeText, Json.readDocument_render h.fits hn, h.reads]
  rfl

theorem Coded.decodeText_renderIndented {dec : Decoder α} {j : Json} {a : α}
    (h : Coded dec n j a) (hn : n ≤ Json.maxDepth) : decodeText dec j.renderIndented = .ok a := by
  simp only [decodeText, Json.readDocument_renderIndented h.fits hn, h.reads]
  rfl

end

end Decode

end Mediation
