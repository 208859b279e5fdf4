import Mediation.Config.Basic
import Mediation.Journal.Basic
import Mediation.Proofs.Storage.Disk

/-!
# The journal keeps to its directory

The journal lies in the directory `trade_data` of the data directory. What it
records, and what it moves to its backup, lies there, so the snapshots and the
directories of both stay as they are, as long as the notification command
leaves them alone.
-/

namespace Mediation

/-! ### The directory of the journal -/

theorem namesOf_append_slash {s t u : String} (h : u.toList = s.toList ++ '/' :: t.toList) :
    namesOf u = namesOf s ++ namesOf t := by
  have hsplit : u.toList.splitOn '/' = s.toList.splitOn '/' ++ t.toList.splitOn '/' := by
    rw [h]
    exact List.splitOnP_append_cons _ _ (by decide)
  simp only [namesOf, hsplit, List.filter_append, List.map_append]

theorem NodeConfig.path_tradeDataDir {c : NodeConfig} (h : c.dataDir ≠ "") :
    Path.ofString c.tradeDataDir = Path.ofString c.dataDir ++ ["trade_data"] := by
  have hnames : namesOf c.tradeDataDir = namesOf c.dataDir ++ ["trade_data"] := by
    have hname : namesOf "trade_data" = ["trade_data"] := by decide +kernel
    unfold tradeDataDir joinPath
    split
    next hnone => exact absurd (String.toList_eq_nil_iff.mp (List.getLast?_eq_none_iff.mp hnone)) h
    next last hlast =>
      split
      next hslash =>
        obtain ⟨front, hfront⟩ := List.getLast?_eq_some_iff.mp hlast
        have hdir : namesOf c.dataDir = namesOf (String.ofList front) ++ namesOf "" :=
          namesOf_append_slash (by simp [hfront, hslash])
        have hempty : namesOf "" = [] := by decide +kernel
        rw [hdir, hempty, List.append_nil, ← hname]
        exact namesOf_append_slash (by simp [hfront, hslash])
      next =>
        rw [← hname]
        exact namesOf_append_slash (by simp)
  rw [Path.ofString, hnames, List.foldl_append]
  rfl

theorem JournalFile.name_ne_backupName (f : JournalFile) (id : TradeId) :
    f.name id ≠ Journal.backupName := by
  intro h
  -- every file name ends in ".json"
  have hending : f.ending.toList.getLast? = some 'n' := by cases f <;> decide
  have hlast : (f.name id).toList.getLast? = some 'n' := by
    rw [name, String.toList_append, List.getLast?_append, hending, Option.some_or]
  rw [h] at hlast
  exact absurd hlast (by decide)

namespace Journal
open Disk

/-! ### What the journal leaves alone -/

/-- A path that is neither that of a file of the journal nor below one. -/
def Spares (j : Journal) (q : Path) : Prop :=
  (∀ name, name ≠ backupName → ¬ j.directory ++ [name] <+: q) ∧
    ∀ name, ¬ j.directory ++ [backupName, name] <+: q

theorem spares_of_home {j : Journal} {q : Path} (hq : q <+: j.directory ++ [backupName]) :
    j.Spares q := by
  refine ⟨fun name hname => Path.not_prefix_of_prefix hname hq, fun name hfile => ?_⟩
  have hlength := (hfile.trans hq).length_le
  simp at hlength

/-- A path that is neither that of a file of a trade nor below one. -/
def Apart (j : Journal) (id : TradeId) (q : Path) : Prop :=
  ∀ f : JournalFile, ¬ j.path f id <+: q ∧ ¬ j.backupPath f id <+: q

theorem Spares.apart {j : Journal} {q : Path} (h : j.Spares q) (id : TradeId) : j.Apart id q :=
  fun f => ⟨h.1 (f.name id) (f.name_ne_backupName id), h.2 (f.name id)⟩

/-- The notification command, if there is one, leaves paths alone. -/
def Harmless (j : Journal) (execute : Execution) (P : Path → Prop) : Prop :=
  j.command = none ∨ ∀ program arguments d, Agrees P d (execute program arguments d)

theorem Harmless.mono {j : Journal} {execute : Execution} {P Q : Path → Prop}
    (h : j.Harmless execute Q) (hPQ : ∀ q, P q → Q q) : j.Harmless execute P :=
  h.imp_right fun hexecute program arguments d => (hexecute program arguments d).mono hPQ

theorem Apart.ne_path {j : Journal} {id : TradeId} {q : Path} (h : j.Apart id q)
    (f : JournalFile) : q ≠ j.path f id := fun heq => (h f).1 (heq ▸ List.prefix_refl q)

section
variable {j : Journal} {P : Path → Prop}

theorem agrees_moveFiles {id : TradeId} (hapart : ∀ q, P q → j.Apart id q)
    (fs : List JournalFile) (d : Disk) : Agrees P d (j.moveFiles id fs d).1 := by
  induction fs generalizing d with
  | nil => exact .refl P d
  | cons f fs ih =>
    unfold moveFiles
    split
    · split
      next => exact .refl P d
      next d₁ hrename =>
        have hmoved : Agrees P d d₁ := (agrees_rename? hrename).mono fun q hq => hapart q hq f
        exact hmoved.trans (ih d₁)
    · exact ih d

variable {execute : Execution} (hexecute : j.Harmless execute P)
include hexecute

theorem agrees_runCommand (id : TradeId) (d : Disk) : Agrees P d (j.runCommand execute id d) := by
  unfold runCommand
  split
  next => exact .refl P d
  next c hc =>
    rcases hexecute with hnone | hexecute
    · rw [hnone] at hc
      cases hc
    · exact hexecute _ _ d

theorem agrees_writeRecord {t : Trade} (hne : ∀ q, P q → q ≠ j.path .record t.id) (d : Disk) :
    Agrees P d (j.writeRecord execute t d) := by
  unfold writeRecord
  split
  next => exact .refl P d
  next d₁ hwrite =>
    exact ((agrees_write? hwrite).mono hne).trans (agrees_runCommand hexecute t.id d₁)

theorem agrees_record {t : Trade} (hapart : ∀ q, P q → j.Apart t.id q) (date : Int64) (d : Disk) :
    Agrees P d (j.record execute date t d).1 := by
  have hrecord : Agrees P d (j.writeRecord execute t d) :=
    agrees_writeRecord hexecute (fun q hq => (hapart q hq).ne_path .record) d
  unfold record
  dsimp only
  split
  next => exact hrecord
  next h hhistory =>
    split
    next => exact hrecord
    next d₁ hwrite =>
      have hphases := hrecord.trans
        ((agrees_write? hwrite).mono fun q hq => (hapart q hq).ne_path .phases)
      split
      · exact hphases.trans (agrees_moveFiles hapart JournalFile.all d₁)
      · exact hphases

end

end Journal

end Mediation
