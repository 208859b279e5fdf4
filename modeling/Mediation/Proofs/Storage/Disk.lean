import Mediation.Storage.Disk

/-!
# What is at a path

Each operation on a disk is seen through `find?`: what it leaves at the paths it
is about, and that it leaves all other paths alone. Two disks agree on a set of
paths when the same is at each of them.
-/

namespace Mediation

theorem Path.mem_way {p q : Path} : q ∈ p.way ↔ q <+: p := by
  rw [way, List.mem_map]
  constructor
  · rintro ⟨n, -, rfl⟩
    exact List.take_prefix n p
  · intro h
    have hlength := h.length_le
    exact ⟨q.length, List.mem_range.mpr (by omega), (List.prefix_iff_eq_take.mp h).symm⟩

theorem Path.not_prefix_of_prefix {dir q r : Path} {a b : String} (hab : a ≠ b)
    (hq : q <+: dir ++ b :: r) : ¬ dir ++ [a] <+: q := by
  intro h
  have h := (List.prefix_append_right_inj dir).mp (h.trans hq)
  exact hab (List.cons_prefix_cons.mp h).1

theorem Path.ne_of_prefix {dir q r : Path} {a b : String} (hab : a ≠ b)
    (hq : q <+: dir ++ b :: r) : q ≠ dir ++ [a] := by
  rintro rfl
  exact not_prefix_of_prefix hab hq (List.prefix_refl _)

namespace Disk

def Agrees (P : Path → Prop) (d d' : Disk) : Prop := ∀ p, P p → d'.find? p = d.find? p

section Agrees
variable {P Q : Path → Prop} {d d' d'' : Disk}

theorem Agrees.refl (P : Path → Prop) (d : Disk) : Agrees P d d := fun _ _ => rfl

theorem Agrees.trans (h : Agrees P d d') (h' : Agrees P d' d'') : Agrees P d d'' :=
  fun p hp => (h' p hp).trans (h p hp)

theorem Agrees.mono (h : Agrees Q d d') (hPQ : ∀ p, P p → Q p) : Agrees P d d' :=
  fun p hp => h p (hPQ p hp)

/-- What is read at a path depends on the path and on the directories it leads through. -/
theorem Agrees.read {p : Path} (h : Agrees (· <+: p) d d') : d'.read p = d.read p := by
  have hblocked : d'.isBlocked p = d.isBlocked p := by
    unfold isBlocked
    rw [Bool.eq_iff_iff, List.any_eq_true, List.any_eq_true]
    have hway : ∀ q ∈ Path.way p.dropLast, d'.find? q = d.find? q := fun q hq =>
      h q ((Path.mem_way.mp hq).trans (List.dropLast_prefix p))
    exact ⟨fun ⟨q, hq, hfile⟩ => ⟨q, hq, hway q hq ▸ hfile⟩,
      fun ⟨q, hq, hfile⟩ => ⟨q, hq, (hway q hq).symm ▸ hfile⟩⟩
  rw [Disk.read, Disk.read, h p (List.prefix_refl p), hblocked]

end Agrees

/-! ### Writing and moving -/

theorem agrees_write? {d d' : Disk} {p : Path} {text : String} (h : d.write? p text = some d') :
    Agrees (· ≠ p) d d' := fun _ hq => find?_write?_of_ne h hq

theorem find?_insert (d : Disk) {p : Path} (hp : p ≠ []) (e : Entry) (q : Path) :
    (⟨d.entries.insert p e⟩ : Disk).find? q = if q = p then some e else d.find? q := by
  unfold find?
  by_cases hq : q = p
  · rw [if_pos hq, if_neg (hq ▸ hp), hq, Table.get?_insert_self]
  · rw [if_neg hq]
    split
    · rfl
    · exact Table.get?_insert_of_ne _ _ hq

theorem find?_removeTree {d : Disk} {p q : Path} (h : ¬ p <+: q) :
    (d.removeTree p).find? q = d.find? q := by
  unfold find?
  split
  · rfl
  · have hkeep : (!p.isPrefixOf q) = true := by
      rw [Bool.not_eq_true', ← Bool.not_eq_true, List.isPrefixOf_iff_prefix]
      exact h
    rw [removeTree, Table.get?_filterKeys, if_pos hkeep]

/-- Entries that are put behind a target change nothing at any other path. -/
theorem find?_foldl_insert {target q : Path} {n : Nat} {moved : List (Path × Entry)}
    (h : ∀ e ∈ moved, q ≠ target ++ e.1.drop n) (d : Disk) :
    (moved.foldl (fun d e => ⟨d.entries.insert (target ++ e.1.drop n) e.2⟩) d).find? q =
      d.find? q := by
  induction moved generalizing d with
  | nil => rfl
  | cons e moved ih =>
    rw [List.foldl_cons, ih fun e he => h e (List.mem_cons_of_mem _ he)]
    unfold find?
    split
    · rfl
    · exact Table.get?_insert_of_ne _ _ (h e (List.mem_cons_self ..))

theorem agrees_rename? {d d' : Disk} {source target : Path}
    (h : d.rename? source target = some d') :
    Agrees (fun q => ¬ source <+: q ∧ ¬ target <+: q) d d' := by
  intro q hq
  unfold rename? at h
  split at h
  · cases h
  split at h
  · cases h
    rfl
  split at h
  · cases h
  · cases h
    refine (find?_foldl_insert ?_ _).trans (find?_removeTree hq.1)
    rintro e - rfl
    exact hq.2 (List.prefix_append _ _)

theorem find?_rename?_target {d d' : Disk} {source target : Path} {e : Entry}
    (h : d.rename? source target = some d') (he : d.find? source = some e)
    (htarget : target ≠ []) : d'.find? target = some e := by
  unfold rename? at h
  rw [he] at h
  dsimp only at h
  split at h
  next heq =>
    cases h
    rw [← heq, he]
  split at h
  · cases h
  · cases h
    -- what lies below the source is put below the target
    have hbelow : ∀ m ∈ d.below source, target ≠ target ++ m.1.drop source.length := by
      intro m hm heq
      have hm := (List.mem_filter.mp hm).2
      simp only [Bool.and_eq_true, List.isPrefixOf_iff_prefix, decide_eq_true_eq] at hm
      obtain ⟨⟨r, hr⟩, hne⟩ := hm
      rw [← hr, List.drop_left, List.self_eq_append_right] at heq
      rw [heq, List.append_nil] at hr
      exact hne hr.symm
    rw [List.foldl_cons, find?_foldl_insert hbelow, List.drop_length, List.append_nil,
      find?_insert _ htarget, if_pos rfl]

theorem find?_rename?_source {d d' : Disk} {source target : Path}
    (h : d.rename? source target = some d') (htarget : ¬ target <+: source) :
    d'.find? source = none := by
  unfold rename? at h
  split at h
  · cases h
  split at h
  next heq => exact absurd (heq ▸ List.prefix_refl source) htarget
  split at h
  · cases h
  next hmoves =>
    cases h
    have hsource : source ≠ [] := by
      rintro rfl
      exact hmoves (Or.inl rfl)
    rw [find?_foldl_insert]
    · rw [find?, if_neg hsource, removeTree, Table.get?_filterKeys, if_neg]
      simp
    · rintro e - heq
      exact htarget (heq ▸ List.prefix_append _ _)

theorem write?_ok {d : Disk} {p : Path} (hp : d.find? p ≠ some .directory)
    (hparent : d.find? p.dropLast = some .directory) (text : String) :
    ∃ d', d.write? p text = some d' := by
  refine ⟨_, if_neg ?_⟩
  simp [isDirectory, hp, hparent]

/-- A file may be moved where there is room for it. -/
theorem rename?_file_ok {d : Disk} {source target : Path} {text : String}
    (hsource : d.find? source = some (.file text)) (hapart : ¬ source <+: target)
    (htarget : d.find? target ≠ some .directory)
    (hparent : d.find? target.dropLast = some .directory) :
    ∃ d', d.rename? source target = some d' := by
  have hne : source ≠ target := fun heq => hapart (heq ▸ List.prefix_refl source)
  have hroom : d.mayReplace (.file text) target = true := by
    unfold mayReplace
    cases he : d.find? target with
    | none => simp [isDirectory, hparent]
    | some e =>
      cases e with
      | file text => rfl
      | directory => exact absurd he htarget
  simp only [rename?, hsource, if_neg hne]
  rw [if_neg (by simp [hapart, hroom])]
  exact ⟨_, rfl⟩

/-! ### Making directories -/

/-- Makes one directory unless it is there. -/
def makeDirectory? (d : Disk) (q : Path) : Option Disk :=
  match d.find? q with
  | none => some ⟨d.entries.insert q .directory⟩
  | some .directory => some d
  | some (.file _) => none

theorem createDirectories?_eq (d : Disk) (p : Path) :
    d.createDirectories? p = p.way.foldlM makeDirectory? d := rfl

theorem find?_makeDirectory? {d d' : Disk} {q : Path} (h : d.makeDirectory? q = some d')
    (r : Path) : d'.find? r = if r = q then some .directory else d.find? r := by
  unfold makeDirectory? at h
  split at h
  next hnone =>
    cases h
    refine find?_insert d ?_ _ r
    rintro rfl
    cases hnone
  next hdirectory =>
    cases h
    split
    next hr => rw [hr, hdirectory]
    next => rfl
  next => cases h

theorem makeDirectories?_some {ps : List Path} {d d' : Disk}
    (h : ps.foldlM makeDirectory? d = some d') (r : Path) :
    d'.find? r = if r ∈ ps then some .directory else d.find? r := by
  induction ps generalizing d with
  | nil =>
    cases h
    rfl
  | cons q ps ih =>
    rw [List.foldlM_cons] at h
    obtain ⟨d₁, hd₁, h⟩ := Option.bind_eq_some_iff.mp h
    rw [ih h, find?_makeDirectory? hd₁]
    by_cases hr : r ∈ ps
    · rw [if_pos hr, if_pos (List.mem_cons_of_mem _ hr)]
    · by_cases hq : r = q
      · rw [if_neg hr, if_pos hq, if_pos (hq ▸ List.mem_cons_self ..)]
      · rw [if_neg hr, if_neg hq, if_neg (by simp [hr, hq])]

/-- The directories are made, and nothing else changes. -/
theorem find?_createDirectories? {d d' : Disk} {p : Path}
    (h : d.createDirectories? p = some d') (q : Path) :
    d'.find? q = if q <+: p then some .directory else d.find? q := by
  rw [createDirectories?_eq] at h
  rw [makeDirectories?_some h]
  simp only [Path.mem_way]

theorem createDirectories?_of_directories {d : Disk} {p : Path}
    (h : ∀ q, q <+: p → d.find? q = some .directory) : d.createDirectories? p = some d := by
  have hway : ∀ q ∈ p.way, d.find? q = some .directory := fun q hq => h q (Path.mem_way.mp hq)
  rw [createDirectories?_eq]
  generalize p.way = ps at hway
  induction ps with
  | nil => rfl
  | cons q ps ih =>
    have hq : d.makeDirectory? q = some d := by
      rw [makeDirectory?, hway q (List.mem_cons_self ..)]
    rw [List.foldlM_cons, hq]
    exact ih fun r hr => hway r (List.mem_cons_of_mem _ hr)

end Disk

end Mediation
