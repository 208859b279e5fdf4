/-!
# Tables ordered by key

A finite map whose entries are kept in strictly increasing key order, so that a
table has one representation: two tables with the same answers to `get?` are
equal (`Table.ext_get?`). Every operation has one lemma saying what it does to
`get?`.
-/

namespace Mediation

class KeyOrder (κ : Type) [LT κ] : Prop where
  irrefl : ∀ a : κ, ¬ a < a
  trans : ∀ {a b c : κ}, a < b → b < c → a < c
  connex : ∀ a b : κ, a < b ∨ a = b ∨ b < a

instance : KeyOrder Nat where
  irrefl := Nat.lt_irrefl
  trans := Nat.lt_trans
  connex := Nat.lt_trichotomy

instance : KeyOrder String where
  irrefl := String.lt_irrefl
  trans := String.lt_trans
  connex := Std.lt_trichotomy

instance : KeyOrder (List String) where
  irrefl := fun a => List.lt_irrefl a
  trans := fun h1 h2 => List.lt_trans h1 h2
  connex := fun a b => Std.lt_trichotomy a b

structure Table (κ : Type) (α : Type) [LT κ] where
  entries : List (κ × α)
  sorted : entries.Pairwise fun a b => a.1 < b.1

namespace Table

variable {κ α : Type} [LT κ] [DecidableLT κ]

/-! ### Operations on entry lists -/

/-- The value stored under a key; stops at the first larger key. -/
def find? (k : κ) : List (κ × α) → Option α
  | [] => none
  | e :: es => if e.1 < k then find? k es else if k < e.1 then none else some e.2

/-- Puts a value under a key, in place of the one stored there. -/
def insertEntry (k : κ) (a : α) : List (κ × α) → List (κ × α)
  | [] => [(k, a)]
  | e :: es =>
    if e.1 < k then e :: insertEntry k a es
    else if k < e.1 then (k, a) :: e :: es
    else (k, a) :: es

def eraseEntry (k : κ) : List (κ × α) → List (κ × α)
  | [] => []
  | e :: es =>
    if e.1 < k then e :: eraseEntry k es
    else if k < e.1 then e :: es
    else es

def modifyEntry (k : κ) (f : α → α) : List (κ × α) → List (κ × α)
  | [] => []
  | e :: es =>
    if e.1 < k then e :: modifyEntry k f es
    else if k < e.1 then e :: es
    else (e.1, f e.2) :: es

theorem mem_insertEntry {k : κ} {a : α} {l : List (κ × α)} {e : κ × α}
    (h : e ∈ insertEntry k a l) : e = (k, a) ∨ e ∈ l := by
  induction l with
  | nil => simpa [insertEntry] using h
  | cons x xs ih =>
    simp only [insertEntry] at h
    split at h
    · rcases List.mem_cons.mp h with h | h
      · exact Or.inr (by simp [h])
      · rcases ih h with h | h
        · exact Or.inl h
        · exact Or.inr (List.mem_cons_of_mem _ h)
    · split at h
      · rcases List.mem_cons.mp h with h | h
        · exact Or.inl h
        · exact Or.inr h
      · rcases List.mem_cons.mp h with h | h
        · exact Or.inl h
        · exact Or.inr (List.mem_cons_of_mem _ h)

theorem eraseEntry_sublist (k : κ) (l : List (κ × α)) : (eraseEntry k l).Sublist l := by
  induction l with
  | nil => exact List.Sublist.slnil
  | cons x xs ih =>
    simp only [eraseEntry]
    split
    · exact ih.cons_cons x
    · split
      · exact List.Sublist.refl _
      · exact List.sublist_cons_self x xs

theorem map_fst_modifyEntry (k : κ) (f : α → α) (l : List (κ × α)) :
    (modifyEntry k f l).map Prod.fst = l.map Prod.fst := by
  induction l with
  | nil => rfl
  | cons x xs ih =>
    simp only [modifyEntry]
    split
    · simp [ih]
    · split <;> rfl

omit [DecidableLT κ] in
theorem pairwise_iff_keys (l : List (κ × α)) :
    (l.Pairwise fun a b => a.1 < b.1) ↔ (l.map Prod.fst).Pairwise (· < ·) := by
  rw [List.pairwise_map]

variable [KeyOrder κ]

theorem sorted_insertEntry {k : κ} {a : α} {l : List (κ × α)}
    (h : l.Pairwise fun a b => a.1 < b.1) :
    (insertEntry k a l).Pairwise fun a b => a.1 < b.1 := by
  induction l with
  | nil => simp [insertEntry]
  | cons x xs ih =>
    have hx := List.pairwise_cons.mp h
    simp only [insertEntry]
    split
    · rename_i hlt
      refine List.pairwise_cons.mpr ⟨fun e he => ?_, ih hx.2⟩
      rcases mem_insertEntry he with rfl | he
      · exact hlt
      · exact hx.1 e he
    · split
      · rename_i hlt
        refine List.pairwise_cons.mpr ⟨fun e he => ?_, h⟩
        rcases List.mem_cons.mp he with rfl | he
        · exact hlt
        · exact KeyOrder.trans hlt (hx.1 e he)
      · rename_i h1 h2
        have hk : x.1 = k := by
          rcases KeyOrder.connex x.1 k with h | h | h
          · exact absurd h h1
          · exact h
          · exact absurd h h2
        refine List.pairwise_cons.mpr ⟨fun e he => ?_, hx.2⟩
        rw [← hk]
        exact hx.1 e he

omit [DecidableLT κ] in
theorem eq_of_not_lt {a b : κ} (h1 : ¬ a < b) (h2 : ¬ b < a) : a = b := by
  rcases KeyOrder.connex a b with h | h | h
  · exact absurd h h1
  · exact h
  · exact absurd h h2

theorem find?_eq_some_iff {k : κ} {a : α} {l : List (κ × α)}
    (h : l.Pairwise fun a b => a.1 < b.1) : find? k l = some a ↔ (k, a) ∈ l := by
  induction l with
  | nil => simp [find?]
  | cons x xs ih =>
    have hx := List.pairwise_cons.mp h
    simp only [find?, List.mem_cons]
    split
    · rename_i hlt
      rw [ih hx.2]
      refine ⟨Or.inr, fun hm => ?_⟩
      rcases hm with rfl | hm
      · exact absurd hlt (KeyOrder.irrefl _)
      · exact hm
    · rename_i hnlt
      split
      · rename_i hlt
        refine ⟨fun hn => by simp at hn, fun hm => ?_⟩
        rcases hm with rfl | hm
        · exact absurd hlt (KeyOrder.irrefl _)
        · exact absurd (hx.1 _ hm) (fun hgt => hnlt hgt)
      · rename_i hnlt2
        have hk := eq_of_not_lt hnlt hnlt2
        refine ⟨fun hs => Or.inl (by simp only [Option.some.injEq] at hs; rw [← hk, ← hs]),
          fun hm => ?_⟩
        rcases hm with hm | hm
        · rw [← hm]
        · exact absurd (hx.1 _ hm) (by rw [hk]; exact KeyOrder.irrefl _)

theorem find?_eq_none_of_forall_lt {k : κ} {l : List (κ × α)}
    (h : ∀ e ∈ l, k < e.1) : find? k l = none := by
  cases l with
  | nil => rfl
  | cons x xs =>
    have hx := h x (List.mem_cons_self ..)
    have hn : ¬ x.1 < k := fun hlt => KeyOrder.irrefl _ (KeyOrder.trans hx hlt)
    simp [find?, hn, hx]

theorem find?_insertEntry [DecidableEq κ] (k j : κ) (a : α) (l : List (κ × α))
    (h : l.Pairwise fun a b => a.1 < b.1) :
    find? j (insertEntry k a l) = if j = k then some a else find? j l := by
  by_cases hj : j = k
  · subst hj
    rw [if_pos rfl, find?_eq_some_iff (sorted_insertEntry h)]
    clear h
    induction l with
    | nil => simp [insertEntry]
    | cons x xs ih =>
      simp only [insertEntry]
      split
      · exact List.mem_cons_of_mem _ ih
      · split <;> exact List.mem_cons_self ..
  · rw [if_neg hj]
    induction l with
    | nil =>
      simp only [insertEntry, find?]
      rcases KeyOrder.connex k j with hlt | heq | hlt
      · simp [hlt]
      · exact absurd heq.symm hj
      · simp [hlt]
    | cons x xs ih =>
      have ih := ih (List.pairwise_cons.mp h).2
      simp only [insertEntry]
      split
      · simp only [find?, ih]
      · rename_i h1
        split
        · rename_i h2
          by_cases hkj : k < j
          · simp [find?, hkj]
          · have hjk : j < k := by
              rcases KeyOrder.connex k j with h | h | h
              · exact absurd h hkj
              · exact absurd h.symm hj
              · exact h
            have hjx : j < x.1 := KeyOrder.trans hjk h2
            have hxj : ¬ x.1 < j := fun hlt => KeyOrder.irrefl _ (KeyOrder.trans hjx hlt)
            simp [find?, hkj, hjk, hjx, hxj]
        · rename_i h2
          have hk := eq_of_not_lt h1 h2
          have hne : ¬ (¬ k < j ∧ ¬ j < k) := fun hh => hj (eq_of_not_lt hh.1 hh.2).symm
          simp only [find?, hk]
          by_cases hkj : k < j
          · simp [hkj]
          · have hjk : j < k := Classical.not_not.mp fun hn => hne ⟨hkj, hn⟩
            simp [hkj, hjk]

theorem find?_eraseEntry [DecidableEq κ] (k j : κ) (l : List (κ × α))
    (h : l.Pairwise fun a b => a.1 < b.1) :
    find? j (eraseEntry k l) = if j = k then none else find? j l := by
  induction l with
  | nil => simp [eraseEntry, find?]
  | cons x xs ih =>
    have hx := List.pairwise_cons.mp h
    have ih := ih hx.2
    simp only [eraseEntry]
    split
    · rename_i hlt
      simp only [find?, ih]
      by_cases hj : j = k
      · subst hj
        simp [hlt]
      · simp [hj]
    · rename_i h1
      split
      · rename_i h2
        by_cases hj : j = k
        · subst hj
          simp [find?, h1, h2]
        · simp [hj]
      · rename_i h2
        have hk := eq_of_not_lt h1 h2
        by_cases hj : j = k
        · subst hj
          rw [if_pos rfl]
          exact find?_eq_none_of_forall_lt fun e he => by rw [← hk]; exact hx.1 e he
        · rw [if_neg hj]
          by_cases hkj : k < j
          · simp [find?, hk, hkj]
          · have hjk : j < k := by
              rcases KeyOrder.connex k j with h | h | h
              · exact absurd h hkj
              · exact absurd h.symm hj
              · exact h
            have hnone : find? j xs = none :=
              find?_eq_none_of_forall_lt fun e he =>
                KeyOrder.trans hjk (by rw [← hk]; exact hx.1 e he)
            simp [find?, hk, hkj, hjk, hnone]

theorem find?_modifyEntry [DecidableEq κ] (k j : κ) (f : α → α) (l : List (κ × α)) :
    find? j (modifyEntry k f l) = if j = k then (find? j l).map f else find? j l := by
  induction l with
  | nil => simp [modifyEntry, find?]
  | cons x xs ih =>
    simp only [modifyEntry]
    split
    · rename_i hlt
      simp only [find?, ih]
      by_cases hj : j = k
      · subst hj
        simp [hlt]
      · simp [hj]
    · rename_i h1
      split
      · rename_i h2
        by_cases hj : j = k
        · subst hj
          simp [find?, h1, h2]
        · simp [hj]
      · rename_i h2
        have hk := eq_of_not_lt h1 h2
        by_cases hj : j = k
        · subst hj
          simp [find?, h1, h2]
        · rw [if_neg hj]
          by_cases hkj : k < j
          · simp [find?, hk, hkj]
          · have hjk : j < k := by
              rcases KeyOrder.connex k j with h | h | h
              · exact absurd h hkj
              · exact absurd h.symm hj
              · exact h
            simp [find?, hk, hkj, hjk]

/-! ### Tables -/

def empty : Table κ α := ⟨[], List.Pairwise.nil⟩

instance : Inhabited (Table κ α) := ⟨empty⟩

def get? (t : Table κ α) (k : κ) : Option α := find? k t.entries

def contains (t : Table κ α) (k : κ) : Bool := (t.get? k).isSome

/-- Puts a value under a key, in place of the one stored there. -/
def insert (t : Table κ α) (k : κ) (a : α) : Table κ α :=
  ⟨insertEntry k a t.entries, sorted_insertEntry t.sorted⟩

def erase (t : Table κ α) (k : κ) : Table κ α :=
  ⟨eraseEntry k t.entries, t.sorted.sublist (eraseEntry_sublist k t.entries)⟩

/-- Changes the value stored under a key; does nothing when there is none. -/
def modify (t : Table κ α) (k : κ) (f : α → α) : Table κ α :=
  ⟨modifyEntry k f t.entries, by
    rw [pairwise_iff_keys, map_fst_modifyEntry, ← pairwise_iff_keys]
    exact t.sorted⟩

def filterKeys (t : Table κ α) (p : κ → Bool) : Table κ α :=
  ⟨t.entries.filter fun e => p e.1, t.sorted.filter _⟩

def values (t : Table κ α) : List α := t.entries.map Prod.snd

def keys (t : Table κ α) : List κ := t.entries.map Prod.fst

def size (t : Table κ α) : Nat := t.entries.length

def isEmpty (t : Table κ α) : Bool := t.entries.isEmpty

/-- The table of a list of values under their keys; of two values with one key the later stays. -/
def ofList (key : α → κ) (l : List α) : Table κ α :=
  l.foldl (fun t a => t.insert (key a) a) empty

omit [KeyOrder κ] in
@[simp] theorem get?_empty (k : κ) : (empty : Table κ α).get? k = none := rfl

theorem get?_insert [DecidableEq κ] (t : Table κ α) (k j : κ) (a : α) :
    (t.insert k a).get? j = if j = k then some a else t.get? j := by
  have h := find?_insertEntry k j a t.entries t.sorted
  simp only [get?, insert]
  rw [h]

@[simp] theorem get?_insert_self [DecidableEq κ] (t : Table κ α) (k : κ) (a : α) :
    (t.insert k a).get? k = some a := by
  have h := find?_insertEntry k k a t.entries t.sorted
  simpa [get?, insert] using h

theorem get?_insert_of_ne [DecidableEq κ] (t : Table κ α) {k j : κ} (a : α) (h : j ≠ k) :
    (t.insert k a).get? j = t.get? j := by
  have hf := find?_insertEntry k j a t.entries t.sorted
  simpa [get?, insert, h] using hf

@[simp] theorem get?_erase_self [DecidableEq κ] (t : Table κ α) (k : κ) :
    (t.erase k).get? k = none := by
  have h := find?_eraseEntry k k t.entries t.sorted
  simpa [get?, erase] using h

theorem get?_erase_of_ne [DecidableEq κ] (t : Table κ α) {k j : κ} (h : j ≠ k) :
    (t.erase k).get? j = t.get? j := by
  have hf := find?_eraseEntry k j t.entries t.sorted
  simpa [get?, erase, h] using hf

@[simp] theorem get?_modify_self [DecidableEq κ] (t : Table κ α) (k : κ) (f : α → α) :
    (t.modify k f).get? k = (t.get? k).map f := by
  have h := find?_modifyEntry k k f t.entries
  simpa [get?, modify] using h

theorem get?_modify_of_ne [DecidableEq κ] (t : Table κ α) {k j : κ} (f : α → α) (h : j ≠ k) :
    (t.modify k f).get? j = t.get? j := by
  have hf := find?_modifyEntry k j f t.entries
  simpa [get?, modify, h] using hf

theorem get?_eq_some_iff (t : Table κ α) {k : κ} {a : α} :
    t.get? k = some a ↔ (k, a) ∈ t.entries := find?_eq_some_iff t.sorted

theorem get?_filterKeys (t : Table κ α) (p : κ → Bool) (k : κ) :
    (t.filterKeys p).get? k = if p k then t.get? k else none := by
  refine Option.ext fun a => ?_
  rw [get?_eq_some_iff]
  simp only [filterKeys, List.mem_filter]
  split
  · rename_i h
    rw [get?_eq_some_iff]
    simp [h]
  · rename_i h
    simp [h]

omit [DecidableLT κ] in
theorem entries_eq_of_mem_iff {l m : List (κ × α)}
    (hl : l.Pairwise fun a b => a.1 < b.1) (hm : m.Pairwise fun a b => a.1 < b.1)
    (h : ∀ e, e ∈ l ↔ e ∈ m) : l = m := by
  induction l generalizing m with
  | nil =>
    cases m with
    | nil => rfl
    | cons y ys => exact absurd ((h y).mpr (List.mem_cons_self ..)) (by simp)
  | cons x xs ih =>
    cases m with
    | nil => exact absurd ((h x).mp (List.mem_cons_self ..)) (by simp)
    | cons y ys =>
      have hx := List.pairwise_cons.mp hl
      have hy := List.pairwise_cons.mp hm
      have hxy : x = y := by
        rcases List.mem_cons.mp ((h x).mp (List.mem_cons_self ..)) with h1 | h1
        · exact h1
        · rcases List.mem_cons.mp ((h y).mpr (List.mem_cons_self ..)) with h2 | h2
          · exact h2.symm
          · exact absurd (KeyOrder.trans (hx.1 _ h2) (hy.1 _ h1)) (KeyOrder.irrefl _)
      subst hxy
      congr 1
      refine ih hx.2 hy.2 fun e => ⟨fun he => ?_, fun he => ?_⟩
      · rcases List.mem_cons.mp ((h e).mp (List.mem_cons_of_mem _ he)) with h1 | h1
        · exact absurd (hx.1 e he) (by rw [h1]; exact KeyOrder.irrefl _)
        · exact h1
      · rcases List.mem_cons.mp ((h e).mpr (List.mem_cons_of_mem _ he)) with h1 | h1
        · exact absurd (hy.1 e he) (by rw [h1]; exact KeyOrder.irrefl _)
        · exact h1

theorem ext_get? {t u : Table κ α} (h : ∀ k, t.get? k = u.get? k) : t = u := by
  have he : t.entries = u.entries := by
    refine entries_eq_of_mem_iff t.sorted u.sorted fun e => ?_
    have ht := t.get?_eq_some_iff (k := e.1) (a := e.2)
    have hu := u.get?_eq_some_iff (k := e.1) (a := e.2)
    rw [← ht, ← hu, h]
  cases t
  cases u
  simp only at he
  subst he
  rfl

end Table

end Mediation
