import Mediation.Table

/-!
# Laws of tables

Every operation is seen through `get?`, and laws between operations follow
because a table is determined by its answers.
-/

namespace Mediation.Table
variable {κ α : Type} [LT κ] [DecidableLT κ] [KeyOrder κ] [DecidableEq κ]

theorem get?_modify (t : Table κ α) (k j : κ) (f : α → α) :
    (t.modify k f).get? j = if j = k then (t.get? j).map f else t.get? j := by
  by_cases h : j = k
  · subst h
    simp only [get?_modify_self, if_true]
  · simp only [get?_modify_of_ne t f h, h, if_false]

theorem get?_erase (t : Table κ α) (k j : κ) :
    (t.erase k).get? j = if j = k then none else t.get? j := by
  by_cases h : j = k
  · subst h
    simp only [get?_erase_self, if_true]
  · simp only [get?_erase_of_ne t h, h, if_false]

theorem modify_eq_self (t : Table κ α) (k : κ) (f : α → α)
    (h : ∀ a, t.get? k = some a → f a = a) : t.modify k f = t := by
  apply ext_get?
  intro j
  rw [get?_modify]
  split
  next hj =>
    subst hj
    cases ht : t.get? j with
    | none => rfl
    | some a => rw [Option.map_some, h a ht]
  next => rfl

theorem insert_eq_self (t : Table κ α) (k : κ) (a : α) (h : t.get? k = some a) :
    t.insert k a = t := by
  apply ext_get?
  intro j
  rw [get?_insert]
  split
  next hj => rw [hj, h]
  next => rfl

/-- A value that is taken out and put back. -/
theorem insert_erase (t : Table κ α) {k : κ} {a : α} (h : t.get? k = some a) :
    (t.erase k).insert k a = t := by
  apply ext_get?
  intro j
  rw [get?_insert, get?_erase]
  split
  next hj => rw [hj, h]
  next => rfl

theorem erase_erase (t : Table κ α) (k : κ) : (t.erase k).erase k = t.erase k := by
  apply ext_get?
  intro j
  simp only [get?_erase]
  split <;> rfl

theorem erase_insert (t : Table κ α) (k : κ) (a : α) : (t.insert k a).erase k = t.erase k := by
  apply ext_get?
  intro j
  rw [get?_erase, get?_erase, get?_insert]
  split <;> rfl

omit [DecidableEq κ] in
theorem mem_keys (t : Table κ α) (k : κ) : k ∈ t.keys ↔ ∃ a, t.get? k = some a := by
  simp only [keys, List.mem_map, get?_eq_some_iff, Prod.exists, exists_and_right, exists_eq_right]

omit [DecidableLT κ] [DecidableEq κ] in
theorem nodup_keys (t : Table κ α) : t.keys.Nodup := by
  refine List.Pairwise.map Prod.fst ?_ t.sorted
  intro a b hlt heq
  rw [heq] at hlt
  exact KeyOrder.irrefl _ hlt

/-! ### Values -/

omit [KeyOrder κ] [DecidableEq κ] in
theorem perm_insertEntry {k : κ} {l : List (κ × α)} (h : find? k l = none) (a : α) :
    (insertEntry k a l).Perm ((k, a) :: l) := by
  induction l with
  | nil => exact List.Perm.refl _
  | cons x xs ih =>
    simp only [find?] at h
    simp only [insertEntry]
    split at h
    next hlt =>
      rw [if_pos hlt]
      exact ((ih h).cons x).trans (List.Perm.swap ..)
    next hlt =>
      rw [if_neg hlt]
      split at h
      next hgt => rw [if_pos hgt]
      next => cases h

omit [KeyOrder κ] [DecidableEq κ] in
theorem perm_eraseEntry {k : κ} {a : α} {l : List (κ × α)} (h : find? k l = some a) :
    (l.map Prod.snd).Perm (a :: (eraseEntry k l).map Prod.snd) := by
  induction l with
  | nil => cases h
  | cons x xs ih =>
    simp only [find?] at h
    simp only [eraseEntry]
    split at h
    next hlt =>
      rw [if_pos hlt]
      exact ((ih h).cons x.2).trans (List.Perm.swap ..)
    next hlt =>
      rw [if_neg hlt]
      split at h
      next => cases h
      next hgt =>
        cases h
        rw [if_neg hgt]
        exact List.Perm.refl _

omit [DecidableEq κ] in
theorem values_insert_perm {t : Table κ α} {k : κ} (h : t.get? k = none) (a : α) :
    (t.insert k a).values.Perm (a :: t.values) := (perm_insertEntry h a).map Prod.snd

omit [KeyOrder κ] [DecidableEq κ] in
theorem values_erase_perm {t : Table κ α} {k : κ} {a : α} (h : t.get? k = some a) :
    t.values.Perm (a :: (t.erase k).values) := perm_eraseEntry h

omit [DecidableEq κ] in
theorem mem_values (t : Table κ α) (a : α) : a ∈ t.values ↔ ∃ k, t.get? k = some a := by
  simp only [values, List.mem_map, get?_eq_some_iff, Prod.exists, exists_eq_right]

/-! ### Values that know their key -/

/-- Every value is stored under its own key. -/
def Keyed (key : α → κ) (t : Table κ α) : Prop := ∀ k a, t.get? k = some a → key a = k

variable {key : α → κ}

omit [KeyOrder κ] [DecidableEq κ] in
theorem keyed_empty : Keyed key (empty : Table κ α) := fun _ _ h => nomatch h

theorem Keyed.insert {t : Table κ α} (h : Keyed key t) {k : κ} {a : α} (ha : key a = k) :
    Keyed key (t.insert k a) := by
  intro j b hb
  rw [get?_insert] at hb
  split at hb
  next hj =>
    cases hb
    rw [ha, hj]
  next => exact h j b hb

theorem Keyed.erase {t : Table κ α} (h : Keyed key t) (k : κ) : Keyed key (t.erase k) := by
  intro j b hb
  rw [get?_erase] at hb
  split at hb
  · cases hb
  · exact h j b hb

theorem Keyed.modify {t : Table κ α} (h : Keyed key t) (k : κ) {f : α → α}
    (hf : ∀ a, key (f a) = key a) : Keyed key (t.modify k f) := by
  intro j b hb
  rw [get?_modify] at hb
  split at hb
  · obtain ⟨a, ha, rfl⟩ := Option.map_eq_some_iff.mp hb
    rw [hf]
    exact h j a ha
  · exact h j b hb

/-- Of a list whose values have different keys, a table holds all. -/
theorem get?_foldl_insert {l : List α} (hl : (l.map key).Nodup) (t : Table κ α) (k : κ) :
    (l.foldl (fun t a => t.insert (key a) a) t).get? k =
      (l.find? fun a => key a = k).or (t.get? k) := by
  induction l generalizing t with
  | nil => rfl
  | cons a l ih =>
    rw [List.map_cons, List.nodup_cons] at hl
    rw [List.foldl_cons, ih hl.2, get?_insert, List.find?_cons]
    by_cases ha : key a = k
    · have hnone : l.find? (fun b => key b = k) = none := by
        refine List.find?_eq_none.mpr fun b hb heq => hl.1 ?_
        rw [ha, ← of_decide_eq_true heq]
        exact List.mem_map_of_mem hb
      simp only [hnone, ha, decide_true, if_true, Option.none_or, Option.some_or]
    · have hne : ¬ k = key a := fun heq => ha heq.symm
      simp only [ha, decide_false, if_neg hne]

theorem keyed_ofList (key : α → κ) (l : List α) : Keyed key (ofList key l) := by
  have hfold : ∀ (l : List α) (t : Table κ α), Keyed key t →
      Keyed key (l.foldl (fun t a => t.insert (key a) a) t) := by
    intro l
    induction l with
    | nil => exact fun t ht => ht
    | cons a l ih => exact fun t ht => ih _ (ht.insert rfl)
  exact hfold l empty keyed_empty

omit [DecidableEq κ] in
theorem Keyed.map_values {t : Table κ α} (h : Keyed key t) : t.values.map key = t.keys := by
  rw [values, keys, List.map_map]
  exact List.map_congr_left fun e he => h e.1 e.2 (t.get?_eq_some_iff.mpr he)

omit [DecidableEq κ] in
/-- The values are in the order of their keys, of which no two are equal. -/
theorem Keyed.pairwise_values {t : Table κ α} (h : Keyed key t) :
    (t.values.map key).Pairwise (· < ·) := by
  rw [h.map_values]
  exact (pairwise_iff_keys t.entries).mp t.sorted

/-- A table is made again from its values. -/
theorem Keyed.ofList_values {t : Table κ α} (h : Keyed key t) : ofList key t.values = t := by
  apply ext_get?
  intro k
  rw [ofList, get?_foldl_insert (h.map_values ▸ t.nodup_keys), get?_empty, Option.or_none]
  have hfound : ∀ a, t.values.find? (fun a => key a = k) = some a → t.get? k = some a := by
    intro a ha
    obtain ⟨e, he, rfl⟩ := List.mem_map.mp (List.mem_of_find?_eq_some ha)
    have hk := List.find?_some ha
    have hget := t.get?_eq_some_iff.mpr he
    rw [decide_eq_true_eq, h e.1 e.2 hget] at hk
    exact hk ▸ hget
  cases hfind : t.values.find? (fun a => key a = k) with
  | some a => exact (hfound a hfind).symm
  | none =>
    refine (Option.eq_none_iff_forall_ne_some.mpr fun a ha => ?_).symm
    have hmem := List.mem_map_of_mem (f := Prod.snd) (t.get?_eq_some_iff.mp ha)
    exact (List.find?_eq_none.mp hfind) a hmem (decide_eq_true (h k a ha))

end Mediation.Table
