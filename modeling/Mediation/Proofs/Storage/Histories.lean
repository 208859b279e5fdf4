import Mediation.Proofs.Json.Formats
import Mediation.Proofs.Storage.Journal

/-!
# The files of a trade

The three files of a trade lie in the directory of the journal, or in its backup
once the trade is finished; no two trades share one. Recording a phase adds it
to the history that lies there, and the record of a published payout moves the
files to the backup, in place of those that it held.
-/

namespace Mediation

open Decode in
theorem PhaseEntry.coded (n : Nat) (e : PhaseEntry) :
    Coded PhaseEntry.record.decode (n + 1) e.toJson e :=
  Record.Coded.object
    (Record.coded_map PhaseEntry.mk (coded_int64 e.date)
      |>.field e.phase.coded)
    (by decide)

open Decode in
theorem PhaseHistory.decodeText_renderIndented (h : PhaseHistory) :
    decodeText PhaseHistory.record.decode h.toJson.renderIndented = .ok h := by
  have hcoded : Coded PhaseHistory.record.decode 3 h.toJson h :=
    Record.Coded.object
      (Record.coded_map PhaseHistory.mk (coded_list fun e _ => e.coded 0))
      (by decide)
  exact hcoded.decodeText_renderIndented (by decide)

/-! ### Names and paths -/

namespace JournalFile

theorem eq_of_name_eq {f g : JournalFile} {id id' : TradeId} (h : f.name id = g.name id') :
    f = g ∧ id = id' := by
  have hname (f : JournalFile) (id : TradeId) :
      (f.name id).toList = id.text.toList ++ f.ending.toList := by
    rw [name, String.toList_append]
  -- the endings differ in the letter before `.json`
  have hletter (f : JournalFile) (id : TradeId) :
      (f.name id).toList.reverse[5]? = f.ending.toList.reverse[5]? := by
    rw [hname, List.reverse_append, List.getElem?_append_left]
    cases f <;> decide
  have hfile : f = g := by
    have hsame := congrArg (·.toList.reverse[5]?) h
    simp only [hletter] at hsame
    revert hsame
    cases f <;> cases g <;> decide
  subst hfile
  have htext := congrArg String.toList h
  rw [hname, hname] at htext
  exact ⟨rfl, TradeId.ext_text (String.toList_inj.mp (List.append_cancel_right htext))⟩

end JournalFile

namespace Journal
open Disk

variable {j : Journal} {f g : JournalFile} {id id' : TradeId}

theorem eq_of_prefix_path (h : j.path g id' <+: j.path f id) : g = f ∧ id' = id := by
  have hnames := (List.prefix_append_right_inj j.directory).mp h
  exact JournalFile.eq_of_name_eq (List.cons_prefix_cons.mp hnames).1

theorem eq_of_prefix_backupPath (h : j.backupPath g id' <+: j.backupPath f id) :
    g = f ∧ id' = id := by
  have hnames := (List.prefix_append_right_inj j.directory).mp h
  have hnames := (List.cons_prefix_cons.mp hnames).2
  exact JournalFile.eq_of_name_eq (List.cons_prefix_cons.mp hnames).1

theorem not_path_prefix_backupPath : ¬ j.path g id' <+: j.backupPath f id := by
  intro h
  have hnames := (List.prefix_append_right_inj j.directory).mp h
  exact g.name_ne_backupName id' (List.cons_prefix_cons.mp hnames).1

theorem not_backupPath_prefix_path : ¬ j.backupPath g id' <+: j.path f id := by
  intro h
  have hlength := h.length_le
  simp [path, backupPath] at hlength

theorem backupPath_ne_path : j.backupPath g id' ≠ j.path f id := by
  intro heq
  have hbelow : j.backupPath g id' <+: j.path f id := heq ▸ List.prefix_refl _
  exact not_backupPath_prefix_path hbelow

/-- A path that leads to a file of a trade, or to that file in the backup. -/
def Leads (j : Journal) (f : JournalFile) (id : TradeId) (q : Path) : Prop :=
  q <+: j.path f id ∨ q <+: j.backupPath f id

theorem leads_path (j : Journal) (f : JournalFile) (id : TradeId) : j.Leads f id (j.path f id) :=
  Or.inl (List.prefix_refl _)

theorem leads_backupPath (j : Journal) (f : JournalFile) (id : TradeId) :
    j.Leads f id (j.backupPath f id) := Or.inr (List.prefix_refl _)

/-- The files of another trade are not on the way. -/
theorem Leads.apart {q : Path} (h : j.Leads f id q) (hid : id ≠ id') : j.Apart id' q := by
  intro g
  rcases h with h | h
  · exact ⟨fun hg => hid (eq_of_prefix_path (hg.trans h)).2.symm,
      fun hg => not_backupPath_prefix_path (hg.trans h)⟩
  · exact ⟨fun hg => not_path_prefix_backupPath (hg.trans h),
      fun hg => hid (eq_of_prefix_backupPath (hg.trans h)).2.symm⟩

theorem Leads.ne_path {q : Path} (h : j.Leads f id q) (hg : g ≠ f) : q ≠ j.path g id' := by
  rintro rfl
  rcases h with h | h
  · exact hg (eq_of_prefix_path h).1
  · exact not_path_prefix_backupPath h

theorem leads_of_home {q : Path} (hq : q <+: j.directory ++ [backupName]) : j.Leads f id q :=
  Or.inr (hq.trans ⟨[f.name id], List.append_assoc _ _ _⟩)

theorem home_of_directory {q : Path} (hq : q <+: (j.path f id).dropLast) :
    q <+: j.directory ++ [backupName] := by
  rw [path, List.dropLast_concat] at hq
  exact hq.trans (List.prefix_append _ _)

/-- The directories of the journal are there. -/
def Ready (j : Journal) (d : Disk) : Prop :=
  ∀ q, q <+: j.directory ++ [backupName] → d.find? q = some .directory

theorem Ready.agrees {d d' : Disk} (h : j.Ready d) (hd : Agrees (j.Leads f id) d d') :
    j.Ready d' := fun q hq => (hd q (leads_of_home hq)).trans (h q hq)

theorem Ready.write? {d d' : Disk} {text : String} (h : j.Ready d)
    (hwrite : d.write? (j.path f id) text = some d') : j.Ready d' := fun q hq =>
  (agrees_write? hwrite q (((spares_of_home hq).apart id).ne_path f)).trans (h q hq)

theorem Ready.moveFiles {fs : List JournalFile} {d d' : Disk} (h : j.Ready d)
    (hmoved : j.moveFiles id fs d = (d', none)) : j.Ready d' := by
  have hsame : Agrees (· <+: j.directory ++ [backupName]) d (j.moveFiles id fs d).1 :=
    agrees_moveFiles (fun q hq => (spares_of_home hq).apart id) fs d
  rw [hmoved] at hsame
  exact fun q hq => (hsame q hq).trans (h q hq)

/-! ### Moving to the backup -/

theorem agrees_rename?_path {d d' : Disk}
    (h : d.rename? (j.path g id) (j.backupPath g id) = some d') (hf : f ≠ g) :
    Agrees (j.Leads f id) d d' := by
  refine (agrees_rename? h).mono fun q hq => ?_
  rcases hq with hq | hq
  · exact ⟨fun hg => hf (eq_of_prefix_path (hg.trans hq)).1.symm,
      fun hg => not_backupPath_prefix_path (hg.trans hq)⟩
  · exact ⟨fun hg => not_path_prefix_backupPath (hg.trans hq),
      fun hg => hf (eq_of_prefix_backupPath (hg.trans hq)).1.symm⟩

/-- The files that have been moved lie in the backup, in place of what was there;
the others are where they were. -/
theorem find?_moveFiles {fs : List JournalFile} {d d' : Disk}
    (h : j.moveFiles id fs d = (d', none)) (hnodup : fs.Nodup) (f : JournalFile) :
    d'.find? (j.path f id) = (if f ∈ fs then none else d.find? (j.path f id)) ∧
      d'.find? (j.backupPath f id) =
        if f ∈ fs then (d.find? (j.path f id)).or (d.find? (j.backupPath f id))
        else d.find? (j.backupPath f id) := by
  induction fs generalizing d with
  | nil =>
    cases h
    exact ⟨rfl, rfl⟩
  | cons g fs ih =>
    obtain ⟨hg, hnodup⟩ := List.nodup_cons.mp hnodup
    unfold moveFiles at h
    split at h
    next hexists =>
      split at h
      next => cases h
      next d₁ hrename =>
        obtain ⟨hpath, hbackup⟩ := ih h hnodup
        by_cases hf : f = g
        · subst hf
          obtain ⟨e, he⟩ := Option.isSome_iff_exists.mp hexists
          have hsource := find?_rename?_source hrename not_backupPath_prefix_path
          have htarget := find?_rename?_target hrename he (by simp [backupPath])
          rw [hpath, hbackup, if_neg hg, if_neg hg, hsource, htarget, he]
          simp
        · have hsame := agrees_rename?_path hrename hf
          rw [hpath, hbackup, hsame _ (j.leads_path f id), hsame _ (j.leads_backupPath f id)]
          simp [hf]
    next hmissing =>
      obtain ⟨hpath, hbackup⟩ := ih h hnodup
      rw [hpath, hbackup]
      by_cases hf : f = g
      · subst hf
        have hnone : d.find? (j.path f id) = none := by simpa [exists?] using hmissing
        simp [hg, hnone]
      · simp [hf]

/-- Files are moved when nothing but files is where they are and where they go. -/
theorem moveFiles_ok {fs : List JournalFile} {d : Disk} (hnodup : fs.Nodup)
    (hbackup : d.find? (j.directory ++ [backupName]) = some .directory)
    (hfiles : ∀ f ∈ fs, d.find? (j.path f id) ≠ some .directory ∧
      d.find? (j.backupPath f id) ≠ some .directory) :
    ∃ d', j.moveFiles id fs d = (d', none) := by
  induction fs generalizing d with
  | nil => exact ⟨d, rfl⟩
  | cons g fs ih =>
    obtain ⟨hg, hnodup⟩ := List.nodup_cons.mp hnodup
    have hrest : ∀ f ∈ fs, d.find? (j.path f id) ≠ some .directory ∧
        d.find? (j.backupPath f id) ≠ some .directory :=
      fun f hf => hfiles f (List.mem_cons_of_mem g hf)
    unfold moveFiles
    cases he : d.find? (j.path g id) with
    | none =>
      rw [if_neg (by simp [exists?, he])]
      exact ih hnodup hbackup hrest
    | some e =>
      obtain ⟨text, rfl⟩ : ∃ text, e = .file text := by
        cases e with
        | file text => exact ⟨text, rfl⟩
        | directory => exact absurd he (hfiles g (List.mem_cons_self ..)).1
      have hparent : d.find? (j.backupPath g id).dropLast = some .directory := by
        rw [backupPath, List.append_cons, List.dropLast_concat]
        exact hbackup
      obtain ⟨d₁, hrename⟩ := rename?_file_ok he not_path_prefix_backupPath
        (hfiles g (List.mem_cons_self ..)).2 hparent
      rw [if_pos (by simp [exists?, he])]
      simp only [hrename]
      refine ih hnodup ?_ fun f hf => ?_
      · have hdirectory := agrees_rename? hrename (j.directory ++ [backupName]) ⟨?_, ?_⟩
        · rw [hdirectory]
          exact hbackup
        · exact Path.not_prefix_of_prefix (g.name_ne_backupName id) (List.prefix_refl _)
        · intro hbelow
          have hlength := hbelow.length_le
          simp [backupPath] at hlength
      · have hne : f ≠ g := by
          rintro rfl
          exact hg hf
        have hsame := agrees_rename?_path hrename hne
        rw [hsame _ (j.leads_path f id), hsame _ (j.leads_backupPath f id)]
        exact hrest f hf

/-! ### Histories -/

/-- The history of a file; it is empty when there is no file. -/
def historyAt (d : Disk) (p : Path) : Except StorageError PhaseHistory :=
  match d.read p with
  | .ok text => (Decode.decodeText PhaseHistory.record.decode text).mapError .malformed
  | .error (.nowhere .missing) => .ok .empty
  | .error _ => .error .io

theorem history_eq (j : Journal) (id : TradeId) (d : Disk) :
    j.history id d = historyAt d (j.path .phases id) := rfl

theorem historyAt_congr {d d' : Disk} {p : Path} (h : Agrees (· <+: p) d d') :
    historyAt d' p = historyAt d p := by
  rw [historyAt, historyAt, h.read]

theorem historyAt_of_file {d : Disk} {p : Path} {h : PhaseHistory}
    (hfile : d.find? p = some (.file h.toJson.renderIndented)) : historyAt d p = .ok h := by
  simp only [historyAt, Disk.read, hfile, h.decodeText_renderIndented]
  rfl

theorem historyAt_of_missing {d : Disk} {p : Path} (hnone : d.find? p = none)
    (hway : ∀ q, q <+: p.dropLast → d.find? q = some .directory) : historyAt d p = .ok .empty := by
  have hblocked : d.isBlocked p = false := by
    rw [← Bool.not_eq_true, isBlocked, List.any_eq_true]
    rintro ⟨q, hq, hfile⟩
    rw [hway q (Path.mem_way.mp hq)] at hfile
    simp at hfile
  simp [historyAt, Disk.read, hnone, hblocked]

/-- A phase that is recorded without a fault has been added to the history. -/
theorem record_ok {execute : Execution} {date : Int64} {t : Trade} {d : Disk}
    (h : (j.record execute date t d).2 = none) :
    ∃ phases d₂, j.history t.id (j.writeRecord execute t d) = .ok phases ∧
      (j.writeRecord execute t d).write? (j.path .phases t.id)
        (phases.add ⟨date, t.phase⟩).toJson.renderIndented = some d₂ ∧
      if t.phase = .payoutPublished then
        j.moveFiles t.id JournalFile.all d₂ = ((j.record execute date t d).1, none)
      else (j.record execute date t d).1 = d₂ := by
  unfold record at h ⊢
  dsimp only at h ⊢
  split at h
  next => cases h
  next phases hphases =>
    split at h
    next => cases h
    next d₂ hwrite =>
      refine ⟨phases, d₂, hphases, hwrite, ?_⟩
      split
      next hpaid =>
        rw [if_pos hpaid] at h
        exact Prod.ext rfl h
      next => rfl

/-! ### The histories of a trade -/

/-- The histories of a trade that the backup and the journal hold. -/
structure Keeps (j : Journal) (id : TradeId) (d : Disk) (kept current : List PhaseEntry) :
    Prop where
  ready : j.Ready d
  kept : historyAt d (j.backupPath .phases id) = .ok ⟨kept⟩
  current : historyAt d (j.path .phases id) = .ok ⟨current⟩

/-- What becomes of the histories in the backup and in the journal when a phase is recorded. -/
def archive (h : List PhaseEntry × List PhaseEntry) (e : PhaseEntry) :
    List PhaseEntry × List PhaseEntry :=
  if e.phase = .payoutPublished then (h.2 ++ [e], []) else (h.1, h.2 ++ [e])

def archiveAll (h : List PhaseEntry × List PhaseEntry) (es : List PhaseEntry) :
    List PhaseEntry × List PhaseEntry :=
  es.foldl archive h

theorem archiveAll_cons (h : List PhaseEntry × List PhaseEntry) (e : PhaseEntry)
    (es : List PhaseEntry) : archiveAll h (e :: es) = archiveAll (archive h e) es := rfl

theorem archiveAll_concat (h : List PhaseEntry × List PhaseEntry) (es : List PhaseEntry)
    (e : PhaseEntry) : archiveAll h (es ++ [e]) = archive (archiveAll h es) e := List.foldl_append

/-- What can be read at the end is the end of what could be read and of what was recorded. -/
theorem archiveAll_suffix (es kept current : List PhaseEntry) :
    (archiveAll (kept, current) es).1 ++ (archiveAll (kept, current) es).2 <:+
      kept ++ current ++ es := by
  induction es generalizing kept current with
  | nil =>
    rw [List.append_nil]
    exact List.suffix_refl _
  | cons e es ih =>
    have hread : kept ++ current ++ e :: es = kept ++ (current ++ [e]) ++ es := by
      simp only [List.append_assoc, List.singleton_append]
    rw [archiveAll_cons, hread, archive]
    split
    · refine (ih _ _).trans ?_
      rw [List.append_nil, List.append_assoc kept]
      exact List.suffix_append _ _
    · exact ih _ _

/-- All of it can be read as long as no payout was recorded, and after the first
payout if the backup was empty. -/
theorem archiveAll_eq_iff (es kept current : List PhaseEntry) :
    (archiveAll (kept, current) es).1 ++ (archiveAll (kept, current) es).2 =
        kept ++ current ++ es ↔
      es.countP (·.phase = .payoutPublished) = 0 ∨
        kept = [] ∧ es.countP (·.phase = .payoutPublished) = 1 := by
  induction es generalizing kept current with
  | nil => simp [archiveAll]
  | cons e es ih =>
    have hread : kept ++ current ++ e :: es = kept ++ (current ++ [e]) ++ es := by
      simp only [List.append_assoc, List.singleton_append]
    rw [archiveAll_cons, hread, archive]
    by_cases hpaid : e.phase = .payoutPublished
    · have hcount : (e :: es).countP (·.phase = .payoutPublished) =
          es.countP (·.phase = .payoutPublished) + 1 := by simp [hpaid]
      have hsuffix := (archiveAll_suffix es (current ++ [e]) []).length_le
      have hrest := ih (current ++ [e]) []
      rw [List.append_nil] at hsuffix hrest
      rw [if_pos hpaid, hcount]
      -- the old backup is gone, so nothing is lost only if it was empty
      constructor
      · intro hall
        have hempty : kept = [] := by
          rw [hall] at hsuffix
          simp only [List.length_append] at hsuffix
          exact List.length_eq_zero_iff.mp (by omega)
        rw [hempty, List.nil_append] at hall
        rcases hrest.mp hall with hnone | ⟨hnil, -⟩
        · exact .inr ⟨hempty, by omega⟩
        · simp at hnil
      · rintro (hzero | ⟨hempty, hone⟩)
        · omega
        · rw [hempty, List.nil_append]
          exact hrest.mpr (.inl (by omega))
    · have hcount : (e :: es).countP (·.phase = .payoutPublished) =
          es.countP (·.phase = .payoutPublished) := by simp [hpaid]
      rw [if_neg hpaid, hcount]
      exact ih _ _

section Keeps
variable {d d' : Disk} {kept current : List PhaseEntry}

theorem Keeps.agrees (h : j.Keeps id d kept current) (hd : Agrees (j.Leads .phases id) d d') :
    j.Keeps id d' kept current where
  ready := h.ready.agrees hd
  kept := by
    rw [historyAt_congr (hd.mono fun q hq => Or.inr hq)]
    exact h.kept
  current := by
    rw [historyAt_congr (hd.mono fun q hq => Or.inl hq)]
    exact h.current

/-- A history is written in the journal. -/
theorem Keeps.write (h : j.Keeps id d kept current) {phases : PhaseHistory}
    (hwrite : d.write? (j.path .phases id) phases.toJson.renderIndented = some d') :
    j.Keeps id d' kept phases.phases where
  ready := h.ready.write? hwrite
  kept := by
    rw [historyAt_congr ((agrees_write? hwrite).mono fun q hq heq => ?_)]
    · exact h.kept
    · exact not_path_prefix_backupPath (heq ▸ hq)
  current := historyAt_of_file (find?_write?_self hwrite)

/-- The history of the journal, which there is, moves to the backup. -/
theorem Keeps.moveFiles (h : j.Keeps id d kept current)
    (hfile : d.find? (j.path .phases id) =
      some (.file (PhaseHistory.mk current).toJson.renderIndented))
    (hmoved : j.moveFiles id JournalFile.all d = (d', none)) : j.Keeps id d' current [] := by
  obtain ⟨hpath, hbackup⟩ := find?_moveFiles hmoved (by decide) .phases
  have hmem : JournalFile.phases ∈ JournalFile.all := by decide
  rw [if_pos hmem] at hpath hbackup
  rw [hfile, Option.some_or] at hbackup
  have hready := h.ready.moveFiles hmoved
  exact ⟨hready, historyAt_of_file hbackup,
    historyAt_of_missing hpath fun q hq => hready q (home_of_directory hq)⟩

theorem Keeps.record {execute : Execution} {date : Int64} {t : Trade}
    (h : j.Keeps t.id d kept current)
    (hexecute : j.Harmless execute (j.Leads .phases t.id))
    (hok : (j.record execute date t d).2 = none) :
    j.Keeps t.id (j.record execute date t d).1 (archive (kept, current) ⟨date, t.phase⟩).1
      (archive (kept, current) ⟨date, t.phase⟩).2 := by
  obtain ⟨phases, d₂, hphases, hwrite, hmoved⟩ := record_ok hok
  have hrecord : Agrees (j.Leads .phases t.id) d (j.writeRecord execute t d) :=
    agrees_writeRecord hexecute (fun q hq => hq.ne_path (by decide)) d
  have hbefore := h.agrees hrecord
  rw [history_eq] at hphases
  obtain rfl : phases = ⟨current⟩ := Except.ok.inj (hphases.symm.trans hbefore.current)
  have hwritten := hbefore.write hwrite
  unfold archive
  split at hmoved
  next hpaid =>
    rw [if_pos hpaid]
    exact hwritten.moveFiles (find?_write?_self hwrite) hmoved
  next hpaid =>
    rw [if_neg hpaid, hmoved]
    exact hwritten

end Keeps

/-! ### All files of a trade -/

/-- The texts of the files of a trade in the journal and in the backup; where
there is no text, there is nothing. -/
structure Holds (j : Journal) (id : TradeId) (d : Disk)
    (current kept : JournalFile → Option String) : Prop where
  ready : j.Ready d
  current : ∀ f, d.find? (j.path f id) = (current f).map .file
  kept : ∀ f, d.find? (j.backupPath f id) = (kept f).map .file

theorem map_file_ne_directory (text : Option String) : text.map Entry.file ≠ some .directory := by
  cases text <;> simp

section Holds
variable {d d' : Disk} {current kept : JournalFile → Option String}

theorem Holds.agrees (h : j.Holds id d current kept) (hd : ∀ f, Agrees (j.Leads f id) d d') :
    j.Holds id d' current kept where
  ready := h.ready.agrees (hd .record)
  current := fun f => (hd f _ (j.leads_path f id)).trans (h.current f)
  kept := fun f => (hd f _ (j.leads_backupPath f id)).trans (h.kept f)

theorem Holds.write (h : j.Holds id d current kept) (f : JournalFile) (text : String) :
    ∃ d', d.write? (j.path f id) text = some d' ∧
      j.Holds id d' (fun g => if g = f then some text else current g) kept := by
  obtain ⟨d', hwrite⟩ : ∃ d', d.write? (j.path f id) text = some d' := by
    refine write?_ok ?_ (h.ready _ (home_of_directory (List.prefix_refl _))) text
    rw [h.current]
    exact map_file_ne_directory _
  have hsame := agrees_write? hwrite
  refine ⟨d', hwrite, h.ready.write? hwrite, fun g => ?_, fun g => ?_⟩
  · split
    next hg => rw [hg, find?_write?_self hwrite, Option.map_some]
    next hg =>
      rw [hsame _ ((j.leads_path g id).ne_path (Ne.symm hg))]
      exact h.current g
  · rw [hsame _ backupPath_ne_path]
    exact h.kept g

theorem Holds.moveFiles (h : j.Holds id d current kept) :
    ∃ d', j.moveFiles id JournalFile.all d = (d', none) ∧
      j.Holds id d' (fun _ => none) fun f => (current f).or (kept f) := by
  have hnodup : JournalFile.all.Nodup := by decide
  have hall (f : JournalFile) : f ∈ JournalFile.all := by cases f <;> decide
  obtain ⟨d', hmoved⟩ := moveFiles_ok hnodup (h.ready _ (List.prefix_refl _)) fun f _ => by
    rw [h.current, h.kept]
    exact ⟨map_file_ne_directory _, map_file_ne_directory _⟩
  refine ⟨d', hmoved, h.ready.moveFiles hmoved, fun f => ?_, fun f => ?_⟩
  · rw [(find?_moveFiles hmoved hnodup f).1, if_pos (hall f)]
    rfl
  · rw [(find?_moveFiles hmoved hnodup f).2, if_pos (hall f), h.current, h.kept, Option.map_or]

end Holds

/-- What is recorded of a trade: the trade as it was last, and its phases. -/
structure Filing where
  trade : Trade
  phases : List PhaseEntry

/-- The texts of the files of a trade, without the output of a command. -/
def texts (c : Option Filing) : JournalFile → Option String
  | .record => c.map fun c => c.trade.toRecord.toJson.renderIndented
  | .phases => c.map fun c => (PhaseHistory.mk c.phases).toJson.renderIndented
  | .commandOutput => none

/-- What becomes of the files in the journal and in the backup when a trade is recorded. -/
def refile (h : Option Filing × Option Filing) (date : Int64) (t : Trade) :
    Option Filing × Option Filing :=
  let filing : Filing := ⟨t, h.1.elim [] Filing.phases ++ [⟨date, t.phase⟩]⟩
  if t.phase = .payoutPublished then (none, some filing) else (some filing, h.2)

section Record
variable {d : Disk} {current kept : Option Filing}

theorem Ready.holds (h : j.Ready d)
    (hnone : ∀ f, d.find? (j.path f id) = none ∧ d.find? (j.backupPath f id) = none) :
    j.Holds id d (texts none) (texts none) where
  ready := h
  current := fun f => by
    rw [(hnone f).1]
    cases f <;> rfl
  kept := fun f => by
    rw [(hnone f).2]
    cases f <;> rfl

theorem historyAt_texts {c : Option Filing} {p : Path}
    (hfile : d.find? p = (texts c .phases).map .file)
    (hway : ∀ q, q <+: p.dropLast → d.find? q = some .directory) :
    historyAt d p = .ok ⟨c.elim [] Filing.phases⟩ := by
  cases c with
  | none => exact historyAt_of_missing hfile hway
  | some c => exact historyAt_of_file hfile

/-- The histories are those of the files. -/
theorem Holds.keeps (h : j.Holds id d (texts current) (texts kept)) :
    j.Keeps id d (kept.elim [] Filing.phases) (current.elim [] Filing.phases) where
  ready := h.ready
  kept := historyAt_texts (h.kept .phases) fun q hq => by
    rw [backupPath, List.append_cons, List.dropLast_concat] at hq
    exact h.ready q hq
  current := historyAt_texts (h.current .phases) fun q hq => h.ready q (home_of_directory hq)

/-- Without a notification command nothing keeps a trade from being recorded. -/
theorem Holds.record (hcommand : j.command = none) {t : Trade}
    (h : j.Holds t.id d (texts current) (texts kept)) (execute : Execution) (date : Int64) :
    ∃ d', j.record execute date t d = (d', none) ∧
      j.Holds t.id d' (texts (refile (current, kept) date t).1)
        (texts (refile (current, kept) date t).2) := by
  obtain ⟨d₁, hrecord, h₁⟩ := h.write .record t.toRecord.toJson.renderIndented
  have hwritten : j.writeRecord execute t d = d₁ := by
    simp only [writeRecord, hrecord, runCommand, hcommand]
  have hhistory : j.history t.id d₁ = .ok ⟨current.elim [] Filing.phases⟩ :=
    historyAt_texts (h₁.current .phases) fun q hq => h₁.ready q (home_of_directory hq)
  let c : Filing := ⟨t, current.elim [] Filing.phases ++ [⟨date, t.phase⟩]⟩
  obtain ⟨d₂, hphases, h₂⟩ := h₁.write .phases (PhaseHistory.mk c.phases).toJson.renderIndented
  have hfiled : (fun g => if g = .phases then some (PhaseHistory.mk c.phases).toJson.renderIndented
      else if g = .record then some t.toRecord.toJson.renderIndented else texts current g) =
        texts (some c) := by
    funext g
    cases g <;> rfl
  rw [hfiled] at h₂
  have hadd : (PhaseHistory.mk (current.elim [] Filing.phases)).add ⟨date, t.phase⟩ =
      ⟨c.phases⟩ := rfl
  unfold Journal.record refile
  simp only [hwritten, hhistory, hadd, hphases]
  split
  next hpaid =>
    obtain ⟨d', hmoved, h'⟩ := h₂.moveFiles
    have hcurrent : (fun _ => none) = texts none := by
      funext f
      cases f <;> rfl
    have hkept : (fun f => (texts (some c) f).or (texts kept f)) = texts (some c) := by
      funext f
      cases f <;> rfl
    rw [hcurrent, hkept] at h'
    exact ⟨d', hmoved, h'⟩
  next => exact ⟨d₂, rfl, h₂⟩

end Record

end Journal

end Mediation
