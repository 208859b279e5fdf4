import Mediation.Storage.Snapshots
import Mediation.Proofs.Json.Formats
import Mediation.Proofs.Storage.Disk

/-!
# Snapshots are loaded as they were saved

A save that succeeds leaves a file that is loaded as the value it was made from;
one that fails leaves the file as it was. Either way nothing changes apart from
the file and its draft.
-/

namespace Mediation

namespace Snapshots
open Disk

/-! ### Saving -/

section
variable {d : Disk} {dir : Path} {name text : String}

theorem agrees_save_of_failed (h : (save d dir name text).2 = false) :
    Agrees (· ≠ dir ++ [draftOf name]) d (save d dir name text).1 := by
  unfold save at h ⊢
  split at h
  next => exact .refl _ _
  next d₁ hwrite =>
    split at h
    next => exact agrees_write? hwrite
    next => cases h

variable (d dir name text) in
theorem agrees_save :
    Agrees (fun q => ¬ dir ++ [draftOf name] <+: q ∧ ¬ dir ++ [name] <+: q) d
      (save d dir name text).1 := by
  unfold save
  split
  next => exact .refl _ _
  next d₁ hwrite =>
    have hdraft : Agrees (fun q => ¬ dir ++ [draftOf name] <+: q ∧ ¬ dir ++ [name] <+: q) d d₁ :=
      (agrees_write? hwrite).mono fun q hq heq => hq.1 (heq ▸ List.prefix_refl q)
    split
    next => exact hdraft
    next d₂ hrename => exact hdraft.trans (agrees_rename? hrename)

/-- What lies behind another name of the directory stays as it is. -/
theorem agrees_save_of_ne {other : String} {r : Path}
    (hother : other ≠ name ∧ other ≠ draftOf name) :
    Agrees (· <+: dir ++ other :: r) d (save d dir name text).1 :=
  (agrees_save d dir name text).mono fun _ hq =>
    ⟨Path.not_prefix_of_prefix hother.2.symm hq, Path.not_prefix_of_prefix hother.1.symm hq⟩

theorem read_save (h : (save d dir name text).2 = true) :
    (save d dir name text).1.read (dir ++ [name]) = .ok text := by
  unfold save at h ⊢
  split at h
  next => cases h
  next d₁ hwrite =>
    split at h
    next => cases h
    next d₂ hrename =>
      have hfile := find?_rename?_target hrename (find?_write?_self hwrite) (by simp)
      simp only [Disk.read, hfile]

end

/-! ### Saves that fail -/

/-- The disk with a directory in the way of a draft. -/
def bar (d : Disk) (dir : Path) (name : String) : Disk :=
  ⟨d.entries.insert (dir ++ [draftOf name]) .directory⟩

/-- The disk without a draft. -/
def unbar (d : Disk) (dir : Path) (name : String) : Disk :=
  ⟨d.entries.erase (dir ++ [draftOf name])⟩

theorem agrees_bar (d : Disk) (dir : Path) (name : String) :
    Agrees (· ≠ dir ++ [draftOf name]) d (bar d dir name) := fun q hq => by
  rw [bar, find?_insert _ (by simp), if_neg hq]

theorem agrees_unbar (d : Disk) (dir : Path) (name : String) :
    Agrees (· ≠ dir ++ [draftOf name]) d (unbar d dir name) := fun q hq => by
  unfold find?
  split
  · rfl
  · exact Table.get?_erase_of_ne _ hq

/-! ### Loading -/

variable {d d' : Disk} {dir : Path}

theorem loadTrades_congr (h : Agrees (· <+: dir ++ [tradesFile]) d d') :
    loadTrades d' dir = loadTrades d dir := by
  rw [loadTrades, loadTrades, h.read]

theorem loadDisputes_congr (h : Agrees (· <+: dir ++ [disputesFile]) d d') :
    loadDisputes d' dir = loadDisputes d dir := by
  rw [loadDisputes, loadDisputes, h.read]

theorem loadTrades_save {b : TradeBook} (h : (save d dir tradesFile (tradesText b)).2 = true) :
    loadTrades (save d dir tradesFile (tradesText b)).1 dir = .ok b := by
  have hdecode := (b.coded (n := 0)).decodeText_renderIndented (by decide)
  rw [loadTrades, read_save h]
  simp only [parseTrades, parse, tradesText, hdecode]
  rfl

theorem loadDisputes_save {ds : List Dispute}
    (h : (save d dir disputesFile (disputesText ds)).2 = true) :
    loadDisputes (save d dir disputesFile (disputesText ds)).1 dir = .ok ds := by
  have hcoded := Decode.coded_list (n := 3) fun (d : Dispute) (_ : d ∈ ds) => d.coded
  have hdecode := hcoded.decodeText_renderIndented (by decide)
  rw [loadDisputes, read_save h]
  simp only [parseDisputes, parse, disputesText, hdecode]
  rfl

end Snapshots

end Mediation
