import Mediation.Proofs.Engine.Runs
import Mediation.Proofs.Storage.Histories

/-!
# Trades do not share files

Recording one trade leaves the files of every other trade as they were, in the
journal and in its backup. So whatever else is recorded, the files of a trade
are those that its own records come to.
-/

namespace Mediation

theorem JournalFile.slash_notMem_name (f : JournalFile) (id : TradeId) :
    '/' ∉ (f.name id).toList := by
  have hending : '/' ∉ f.ending.toList := by cases f <;> decide
  have htext : '/' ∉ id.text.toList := by
    intro hmem
    have hvalid := id.valid
    simp only [isTradeId, Bool.and_eq_true, List.all_eq_true] at hvalid
    exact absurd (hvalid.2 '/' hmem) (by decide)
  rw [name, String.toList_append, List.mem_append]
  rintro (hmem | hmem)
  · exact htext hmem
  · exact hending hmem

namespace Journal
open Disk

variable {j : Journal} {execute : Execution} {id : TradeId} {d : Disk}

theorem ready_of_prepare? {d' : Disk} (h : j.prepare? d = some d') : j.Ready d' := by
  intro q hq
  rw [find?_createDirectories? h, if_pos hq]

/-! ### Records of several trades -/

/-- A date, and a trade that is recorded then. -/
abbrev Dated := Int64 × Trade

/-- Records trades one after the other, also behind a record that fails. -/
def recordEach (j : Journal) (execute : Execution) (rs : List Dated) (d : Disk) : Disk :=
  rs.foldl (fun d r => (j.record execute r.1 r.2 d).1) d

theorem recordEach_concat (rs : List Dated) (r : Dated) (d : Disk) :
    j.recordEach execute (rs ++ [r]) d = (j.record execute r.1 r.2 (j.recordEach execute rs d)).1 :=
  List.foldl_append

/-- What becomes of the files of one trade. -/
def refileEach (id : TradeId) (h : Option Filing × Option Filing) (rs : List Dated) :
    Option Filing × Option Filing :=
  (rs.filter (·.2.id = id)).foldl (fun h r => refile h r.1 r.2) h

theorem refileEach_concat (id : TradeId) (h : Option Filing × Option Filing) (rs : List Dated)
    (r : Dated) :
    refileEach id h (rs ++ [r]) =
      if r.2.id = id then refile (refileEach id h rs) r.1 r.2 else refileEach id h rs := by
  unfold refileEach
  by_cases hid : r.2.id = id <;> simp [hid, List.filter_append]

theorem refileEach_filter (id : TradeId) (h : Option Filing × Option Filing) (rs : List Dated) :
    refileEach id h (rs.filter (·.2.id = id)) = refileEach id h rs := by
  simp [refileEach]

/-- What the record of a trade leaves alone: the files of other trades, the way
to them, and the backup itself. -/
def Foreign (j : Journal) (id : TradeId) (q : Path) : Prop :=
  (∃ f id', id' ≠ id ∧ j.Leads f id' q) ∨ q <+: j.directory ++ [backupName]

theorem Foreign.apart {q : Path} (h : j.Foreign id q) : j.Apart id q := by
  rcases h with ⟨f, id', hne, hleads⟩ | hhome
  · exact hleads.apart hne
  · exact (spares_of_home hhome).apart id

/-! ### Without a notification command -/

section
variable (execute) (hcommand : j.command = none)
include hcommand

theorem agrees_record_foreign (date : Int64) (t : Trade) (d : Disk) :
    Agrees (j.Foreign t.id) d (j.record execute date t d).1 :=
  agrees_record (.inl hcommand) (fun _ hq => hq.apart) date d

/-- The files of a trade are those that its own records come to. -/
theorem Holds.recordEach {current kept : Option Filing}
    (h : j.Holds id d (texts current) (texts kept)) (rs : List Dated) :
    j.Holds id (j.recordEach execute rs d) (texts (refileEach id (current, kept) rs).1)
      (texts (refileEach id (current, kept) rs).2) := by
  induction rs using List.reverseRecOn with
  | nil => exact h
  | append_singleton rs r ih =>
    rw [recordEach_concat, refileEach_concat]
    by_cases hid : r.2.id = id
    · subst hid
      obtain ⟨d', hrecord, hd'⟩ := ih.record hcommand execute r.1
      rw [if_pos rfl, hrecord]
      exact hd'
    · have hforeign : Agrees (j.Foreign r.2.id) _ _ :=
        agrees_record_foreign execute hcommand r.1 r.2 (j.recordEach execute rs d)
      rw [if_neg hid]
      exact ih.agrees fun f => hforeign.mono fun q hq => .inl ⟨f, id, Ne.symm hid, hq⟩

theorem Holds.recordEach_eq_alone {current kept : Option Filing}
    (h : j.Holds id d (texts current) (texts kept)) (rs : List Dated) (f : JournalFile) :
    (j.recordEach execute rs d).find? (j.path f id) =
        (j.recordEach execute (rs.filter (·.2.id = id)) d).find? (j.path f id) ∧
      (j.recordEach execute rs d).find? (j.backupPath f id) =
        (j.recordEach execute (rs.filter (·.2.id = id)) d).find? (j.backupPath f id) := by
  have hall := h.recordEach execute hcommand rs
  have halone := h.recordEach execute hcommand (rs.filter (·.2.id = id))
  rw [refileEach_filter] at halone
  exact ⟨(hall.current f).trans (halone.current f).symm, (hall.kept f).trans (halone.kept f).symm⟩

end

/-- Each record of a trade leaves the files of the others as they were, and the backup itself;
no two trades share a file, whose name is one name and not that of the backup; so the files
of a trade are as if no other trade had been recorded. -/
theorem recordEach_leaves_others (directory : Path) (execute : Execution) (d : Disk)
    (rs : List Dated) :
    let j : Journal := ⟨directory, none⟩
    (∀ n (_ : n < rs.length),
      let before := j.recordEach execute (rs.take n) d
      let after := j.recordEach execute (rs.take (n + 1)) d
      (∀ f id, id ≠ rs[n].2.id →
        after.find? (j.path f id) = before.find? (j.path f id) ∧
          after.find? (j.backupPath f id) = before.find? (j.backupPath f id)) ∧
        after.find? (directory ++ [backupName]) = before.find? (directory ++ [backupName])) ∧
    (∀ (f g : JournalFile) (id id' : TradeId), f.name id = g.name id' → f = g ∧ id = id') ∧
    (∀ (f : JournalFile) (id : TradeId), f.name id ≠ backupName ∧ '/' ∉ (f.name id).toList) ∧
    ∀ id current kept, j.Holds id d (texts current) (texts kept) → ∀ f,
      (j.recordEach execute rs d).find? (j.path f id) =
          (j.recordEach execute (rs.filter (·.2.id = id)) d).find? (j.path f id) ∧
        (j.recordEach execute rs d).find? (j.backupPath f id) =
          (j.recordEach execute (rs.filter (·.2.id = id)) d).find? (j.backupPath f id) := by
  intro j
  refine ⟨fun n hn => ?_, fun f g id id' => JournalFile.eq_of_name_eq, fun f id => ?_,
    fun id current kept h f => h.recordEach_eq_alone execute rfl rs f⟩
  · have hforeign : Agrees (j.Foreign rs[n].2.id) _ _ :=
      agrees_record_foreign execute rfl rs[n].1 rs[n].2
        (j.recordEach execute (rs.take n) d)
    rw [List.take_succ_eq_append_getElem hn, recordEach_concat]
    refine ⟨fun f id hid => ⟨?_, ?_⟩, ?_⟩
    · exact hforeign _ (.inl ⟨f, id, hid, j.leads_path f id⟩)
    · exact hforeign _ (.inl ⟨f, id, hid, j.leads_backupPath f id⟩)
    · exact hforeign _ (.inr (List.prefix_refl _))
  · exact ⟨f.name_ne_backupName id, f.slash_notMem_name id⟩

open Sample in
/-- The record of a trade stays while another, whose id is the name of its file, is recorded and
moved to the backup. -/
theorem recordEach_leaves_others_named_alike :
    let j : Journal := ⟨[], none⟩
    let namesake : TradeId := ⟨JournalFile.record.name tradeId, by decide +kernel⟩
    let paid : Trade := { trade with id := namesake, phase := .payoutPublished }
    let rs : List Dated := [(0, trade), (1, paid)]
    let execute : Execution := fun _ _ d => d
    ∃ d, j.prepare? .empty = some d ∧
      j.Holds tradeId d (texts none) (texts none) ∧ tradeId ≠ paid.id ∧
      (j.recordEach execute rs d).find? (j.path .record tradeId) =
        (j.recordEach execute [(0, trade)] d).find? (j.path .record tradeId) ∧
      (j.recordEach execute rs d).find? (j.backupPath .record tradeId) =
        (j.recordEach execute [(0, trade)] d).find? (j.backupPath .record tradeId) := by
  intro j namesake paid rs execute
  have hid : tradeId ≠ paid.id := by decide +kernel
  have hprepared : (j.prepare? .empty).isSome = true := by decide +kernel
  obtain ⟨d, hd⟩ := Option.isSome_iff_exists.mp hprepared
  have hfiles : ∀ f,
      d.find? (j.path f tradeId) = none ∧ d.find? (j.backupPath f tradeId) = none := by
    intro f
    rw [find?_createDirectories? hd, find?_createDirectories? hd]
    cases f <;> decide +kernel
  have hholds := (ready_of_prepare? hd).holds hfiles
  obtain ⟨hstep, -, -, halone⟩ := recordEach_leaves_others [] execute d rs
  obtain ⟨hleft, -⟩ := hstep 1 (by decide)
  have hown : rs.filter (·.2.id = tradeId) = [(0, trade)] := by decide +kernel
  obtain ⟨-, hbackup⟩ := halone tradeId none none hholds .record
  rw [hown] at hbackup
  exact ⟨d, hd, hholds, hid, (hleft .record tradeId hid).1, hbackup⟩

end Journal

end Mediation
