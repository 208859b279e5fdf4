import Mathlib.Logic.Function.Iterate
import Mediation.Node.Boot
import Mediation.Proofs.Engine.Requests
import Mediation.Proofs.Engine.Runs
import Mediation.Proofs.Storage.Journal
import Mediation.Proofs.Storage.Snapshots

/-!
# A snapshot is the state, or it is still due

A started node handles requests while its journal is written, while saves fail,
and while the payout exchange changes the registry in the course of an
acceptance. After each of these, loading a snapshot gives what the node has in
memory, or the snapshot is still to be written. A flush leaves nothing to be
written exactly if the saves succeed that are due, and a node that stops then is
started again with the same trades and disputes.

A save fails when something is in the way of its draft. Anything may happen to
the disk apart from the snapshots and the directories of the node, so any of
the saves may fail.
-/

namespace Mediation

/-! ### The directories of a node -/

namespace NodeConfig

/-- A directory that a node makes when it starts, or one around it. -/
def Home (c : NodeConfig) (q : Path) : Prop :=
  q <+: Path.ofString c.dataDir ∨
    (c.journal.enabled = true ∧ q <+: Path.ofString c.tradeDataDir ++ [Journal.backupName])

/-- What the next start depends on: the directories and the two snapshots. -/
def Kept (c : NodeConfig) (q : Path) : Prop :=
  c.Home q ∨ q = Path.ofString c.dataDir ++ [Snapshots.tradesFile] ∨
    q = Path.ofString c.dataDir ++ [Snapshots.disputesFile]

theorem dataDir_of_fault? {c : NodeConfig} (h : c.fault? = none) : c.dataDir ≠ "" := by
  intro hempty
  rw [fault?, if_pos hempty] at h
  cases h

theorem Home.isPrefix {c : NodeConfig} (hdir : c.dataDir ≠ "") {q : Path} (h : c.Home q) :
    q <+: Path.ofString c.dataDir ++ ["trade_data", Journal.backupName] := by
  rcases h with h | ⟨-, h⟩
  · exact h.trans (List.prefix_append _ _)
  · rw [path_tradeDataDir hdir, List.append_assoc] at h
    exact h

theorem kept_of_prefix {c : NodeConfig} {q : Path} {name : String}
    (hname : name = Snapshots.tradesFile ∨ name = Snapshots.disputesFile)
    (hq : q <+: Path.ofString c.dataDir ++ [name]) : c.Kept q := by
  rcases List.prefix_concat_iff.mp hq with rfl | hq
  · rcases hname with rfl | rfl
    · exact .inr (.inl rfl)
    · exact .inr (.inr rfl)
  · exact .inl (.inl hq)

/-- A draft is none of what is kept. -/
theorem Kept.ne_draft {c : NodeConfig} (hdir : c.dataDir ≠ "") {q : Path} (h : c.Kept q)
    {name : String} (hname : name = Snapshots.tradesFile ∨ name = Snapshots.disputesFile) :
    q ≠ Path.ofString c.dataDir ++ [Snapshots.draftOf name] := by
  have hdraft : Snapshots.draftOf name ≠ "trade_data" ∧
      Snapshots.draftOf name ≠ Snapshots.tradesFile ∧
      Snapshots.draftOf name ≠ Snapshots.disputesFile := by
    rcases hname with rfl | rfl <;> decide
  rcases h with h | rfl | rfl
  · exact Path.ne_of_prefix hdraft.1 (h.isPrefix hdir)
  · exact Path.ne_of_prefix hdraft.2.1 (List.prefix_refl _)
  · exact Path.ne_of_prefix hdraft.2.2 (List.prefix_refl _)

/-- What is kept lies neither at nor below a file of the journal. -/
theorem Kept.spares {c : NodeConfig} (hdir : c.dataDir ≠ "") {j : Journal}
    (hj : j.directory = Path.ofString c.tradeDataDir) {q : Path} (h : c.Kept q) : j.Spares q := by
  rw [path_tradeDataDir hdir] at hj
  rcases h with h | h
  · have hq : q <+: j.directory ++ [Journal.backupName] := by
      rw [hj, List.append_assoc]
      exact h.isPrefix hdir
    exact Journal.spares_of_home hq
  · have hq : ¬ j.directory <+: q := by
      rw [hj]
      rcases h with rfl | rfl
      · exact Path.not_prefix_of_prefix (by decide) (List.prefix_refl _)
      · exact Path.not_prefix_of_prefix (by decide) (List.prefix_refl _)
    exact ⟨fun name _ hfile => hq ((List.prefix_append _ _).trans hfile),
      fun name hfile => hq ((List.prefix_append _ _).trans hfile)⟩

end NodeConfig

/-! ### What a storage holds -/

namespace Storage

/-- The storage of a node: its directories are there. -/
structure Sound (c : NodeConfig) (s : Storage) : Prop where
  fault : c.fault? = none
  directory : s.directory = Path.ofString c.dataDir
  journal : ∀ j, s.journal = some j → j.directory = Path.ofString c.tradeDataDir
  home : ∀ q, c.Home q → s.disk.find? q = some .directory

def HoldsTrades (s : Storage) (b : Book) : Prop :=
  ∃ l, Snapshots.loadTrades s.disk s.directory = .ok l ∧ Book.ofTradeBook l = b

def HoldsDisputes (s : Storage) (ds : DisputeStore) : Prop :=
  ∃ l, Snapshots.loadDisputes s.disk s.directory = .ok l ∧
    (DisputeStore.ofList l).disputes = ds.disputes

/-- Each snapshot is the state of the engine, or is still to be written. -/
structure Backs (c : NodeConfig) (s : Storage) (e : Engine) : Prop where
  sound : s.Sound c
  filed : e.Filed
  trades : e.registry.requests = 0 → s.HoldsTrades e.registry.book
  disputes : e.disputes.requests = 0 → s.HoldsDisputes e.disputes

variable {c : NodeConfig} {s : Storage} {e e' : Engine}

theorem Sound.dataDir (h : s.Sound c) : c.dataDir ≠ "" := NodeConfig.dataDir_of_fault? h.fault

/-- A change that is marked, and a storage that still has what is kept. -/
theorem Backs.marks (h : s.Backs c e) (hmarks : e.Marks e') (hfiled : e'.Filed) :
    s.Backs c e' where
  sound := h.sound
  filed := hfiled
  trades := fun hnone => by
    obtain ⟨hbefore, hbook⟩ := hmarks.registry hnone
    rw [hbook]
    exact h.trades hbefore
  disputes := fun hnone => by
    obtain ⟨hbefore, hsame⟩ := hmarks.disputes hnone
    rw [HoldsDisputes, hsame]
    exact h.disputes hbefore

theorem Backs.serve (h : s.Backs c e) (stamp : Stamp) (r : Request) :
    s.Backs c (e.serve stamp r).1 :=
  h.marks (e.served stamp r).marks ((e.served stamp r).filed h.filed)

theorem Sound.agrees {d : Disk} {b : List Trade} (h : s.Sound c)
    (hd : Disk.Agrees c.Home s.disk d) : Sound c { s with disk := d, backlog := b } where
  fault := h.fault
  directory := h.directory
  journal := h.journal
  home := fun q hq => (hd q hq).trans (h.home q hq)

theorem Backs.agrees {d : Disk} {b : List Trade} (h : s.Backs c e)
    (hd : Disk.Agrees c.Kept s.disk d) : Backs c { s with disk := d, backlog := b } e where
  sound := h.sound.agrees (hd.mono fun _ hq => .inl hq)
  filed := h.filed
  trades := fun hnone => by
    have hfile : Disk.Agrees (· <+: s.directory ++ [Snapshots.tradesFile]) s.disk d :=
      hd.mono fun _ hq => NodeConfig.kept_of_prefix (.inl rfl) (h.sound.directory ▸ hq)
    rw [HoldsTrades, Snapshots.loadTrades_congr hfile]
    exact h.trades hnone
  disputes := fun hnone => by
    have hfile : Disk.Agrees (· <+: s.directory ++ [Snapshots.disputesFile]) s.disk d :=
      hd.mono fun _ hq => NodeConfig.kept_of_prefix (.inr rfl) (h.sound.directory ▸ hq)
    rw [HoldsDisputes, Snapshots.loadDisputes_congr hfile]
    exact h.disputes hnone

/-- Records the trade that has waited longest. -/
def recordNext (s : Storage) (execute : Execution) (date : Int64) : Storage :=
  match s.journal, s.backlog with
  | some j, t :: rest => { s with disk := (j.record execute date t s.disk).1, backlog := rest }
  | _, _ => s

/-- The backlog is recorded one trade after the other. -/
theorem recordBacklog_eq_iterate (s : Storage) (execute : Execution) (date : Int64) :
    s.recordBacklog execute date = (recordNext · execute date)^[s.backlog.length] s := by
  cases hj : s.journal with
  | none =>
    have hnext : s.recordNext execute date = s := by simp only [recordNext, hj]
    rw [Function.iterate_fixed hnext, recordBacklog, hj]
  | some j =>
    obtain ⟨disk, directory, journal, backlog⟩ := s
    cases hj
    induction backlog generalizing disk with
    | nil => rfl
    | cons t backlog ih =>
      rw [List.length_cons, Function.iterate_succ_apply]
      exact ih (j.record execute date t disk).1

theorem Backs.recordNext (h : s.Backs c e) {execute : Execution}
    (hexecute : ∀ program arguments d, Disk.Agrees c.Kept d (execute program arguments d))
    (date : Int64) : (s.recordNext execute date).Backs c e := by
  unfold Storage.recordNext
  split
  next j t rest hj hbacklog =>
    have hapart : ∀ q, c.Kept q → j.Apart t.id q := fun q hq =>
      (hq.spares h.sound.dataDir (h.sound.journal j hj)).apart t.id
    exact h.agrees (Journal.agrees_record (.inr hexecute) hapart date s.disk)
  next => exact h

theorem Backs.recordBacklog (h : s.Backs c e) {execute : Execution}
    (hexecute : ∀ program arguments d, Disk.Agrees c.Kept d (execute program arguments d))
    (date : Int64) : (s.recordBacklog execute date).Backs c e := by
  rw [recordBacklog_eq_iterate]
  exact Function.Iterate.rec (Backs c · e) h (fun _ hs => Backs.recordNext hs hexecute date)
    s.backlog.length

/-! ### Saving -/

section Saving
variable {name text : String}
  (hname : name = Snapshots.tradesFile ∨ name = Snapshots.disputesFile)
include hname

theorem agrees_kept_of_failed (h : s.Sound c)
    (hfailed : (Snapshots.save s.disk s.directory name text).2 = false) :
    Disk.Agrees c.Kept s.disk (Snapshots.save s.disk s.directory name text).1 := by
  refine (Snapshots.agrees_save_of_failed hfailed).mono fun q hq => ?_
  rw [h.directory]
  exact hq.ne_draft h.dataDir hname

theorem Sound.save (h : s.Sound c) :
    Sound c { s with disk := (Snapshots.save s.disk s.directory name text).1 } := by
  have hother : "trade_data" ≠ name ∧ "trade_data" ≠ Snapshots.draftOf name := by
    rcases hname with rfl | rfl <;> decide
  have hbelow : Disk.Agrees (· <+: s.directory ++ ["trade_data", Journal.backupName]) s.disk
      (Snapshots.save s.disk s.directory name text).1 := Snapshots.agrees_save_of_ne hother
  refine h.agrees (hbelow.mono fun q hq => ?_)
  rw [h.directory]
  exact hq.isPrefix h.dataDir

end Saving

theorem holdsTrades_of_saved (hfiled : e.registry.book.Filed) (h : (s.saveTrades e).2 = true) :
    (s.saveTrades e).1.HoldsTrades e.registry.book :=
  ⟨_, Snapshots.loadTrades_save h, hfiled.ofTradeBook_snapshot⟩

theorem holdsDisputes_of_saved (hfiled : e.disputes.Filed) (h : (s.saveDisputes e).2 = true) :
    (s.saveDisputes e).1.HoldsDisputes e.disputes :=
  ⟨_, Snapshots.loadDisputes_save h, hfiled.ofList_toList⟩

theorem HoldsDisputes.saveTrades {ds : DisputeStore} (h : s.HoldsDisputes ds) (e : Engine) :
    (s.saveTrades e).1.HoldsDisputes ds := by
  obtain ⟨l, hload, hl⟩ := h
  refine ⟨l, ?_, hl⟩
  rw [← hload]
  exact Snapshots.loadDisputes_congr (Snapshots.agrees_save_of_ne (by decide))

theorem Backs.saveTrades (h : s.Backs c e) :
    (s.saveTrades e).1.Backs c (if (s.saveTrades e).2 then e.tradesStored else e) := by
  cases hsaved : (s.saveTrades e).2 with
  | false => exact h.agrees (agrees_kept_of_failed (.inl rfl) h.sound hsaved)
  | true =>
    refine ⟨h.sound.save (.inl rfl), ⟨h.filed.book, h.filed.disputes⟩, fun _ => ?_, fun hnone => ?_⟩
    · exact holdsTrades_of_saved h.filed.book hsaved
    · exact (h.disputes hnone).saveTrades e

theorem Backs.saveDisputes (h : s.Backs c e) :
    (s.saveDisputes e).1.Backs c (if (s.saveDisputes e).2 then e.disputesStored else e) := by
  cases hsaved : (s.saveDisputes e).2 with
  | false => exact h.agrees (agrees_kept_of_failed (.inr rfl) h.sound hsaved)
  | true =>
    refine ⟨h.sound.save (.inr rfl), ⟨h.filed.book, h.filed.disputes⟩, fun hnone => ?_, fun _ => ?_⟩
    · obtain ⟨l, hload, hl⟩ := h.trades hnone
      refine ⟨l, ?_, hl⟩
      rw [← hload]
      exact Snapshots.loadTrades_congr
        (Snapshots.agrees_save_of_ne (by decide))
    · exact holdsDisputes_of_saved h.filed.disputes hsaved

/-- The storage once the trade book is written, if that is due. -/
def tradesWritten (s : Storage) (e : Engine) : Storage :=
  if e.registry.requests = 0 then s else (s.saveTrades e).1

/-- The saves that are due succeed, one after the other. -/
structure Saves (s : Storage) (e : Engine) : Prop where
  trades : e.registry.requests ≠ 0 → (s.saveTrades e).2 = true
  disputes : e.disputes.requests ≠ 0 → ((s.tradesWritten e).saveDisputes e).2 = true

end Storage

/-! ### What can happen to a node -/

/-- What the payout exchange makes of a registry while it is asked: it takes no
request to store back, and trades and offers stay under their ids. -/
structure Registry.Meddled (r r' : Registry) : Prop where
  requests : r.requests ≤ r'.requests
  filed : r.book.Filed → r'.book.Filed

namespace Node

/-- What is done once the engine has served a request. -/
def finish (n : Node) (r : Request) (a : Answer) (e : Engine) : Node :=
  let served := { n with
    engine := e
    handled := n.handled + 1
    refusals := n.refusals ++ (refusal? r a).toList }
  served.collect.feed.flush

theorem serve_eq_finish (stamps : Nat → Stamp) (n : Node) (r : Request) :
    (n.serve stamps r).1 =
      n.finish r (n.engine.serve (stamps n.handled) r).2
        (n.engine.serve (stamps n.handled) r).1 := rfl

/-- One thing that happens to a node: a request comes or is handled, the payout
exchange or the clock moves, the journal is written, or the disk changes apart
from what is kept. -/
inductive Moves (c : NodeConfig) (n : Node) : Node → Prop where
  | send (r : Request) : Moves c n (n.send r)
  | handle (stamps : Nat → Stamp) : Moves c n (n.handleNext stamps).1
  | accept (id : TradeId) (caller ticket : Nat) (rest : List Request) (e : Engine)
      (registry : Registry) (hqueue : n.queue = .accept id caller :: rest)
      (hok : n.engine.accept id caller = .ok (e, ticket))
      (hregistry : e.registry.Meddled registry) :
      Moves c n (finish { n with queue := rest } (.accept id caller) .done
        { e with registry := registry })
  | release (error : Option String) : Moves c n (n.release error)
  | advance (elapsed : Nat) : Moves c n (n.advance elapsed).1
  | record (s : Storage) (execute : Execution) (date : Int64) (hs : n.storage = some s)
      (hexecute : ∀ program arguments d,
        Disk.Agrees c.Kept d (execute program arguments d)) :
      Moves c n { n with storage := some (s.recordBacklog execute date) }
  | disturb (s : Storage) (d : Disk) (hs : n.storage = some s)
      (hd : Disk.Agrees c.Kept s.disk d) :
      Moves c n { n with storage := some { s with disk := d } }

/-- The nodes that a start leads to. -/
inductive Reached (c : NodeConfig) : Node → Prop where
  | boot (around : Surroundings) (desk : PayoutDesk) (publishes : Bool) (d₀ d : Disk) (n : Node)
      (h : boot c around desk publishes d₀ = (d, .ok n)) : Reached c n
  | move (n m : Node) (h : Reached c n) (hmove : n.Moves c m) : Reached c m

/-- The storage of a node backs its engine. -/
def Durable (c : NodeConfig) (n : Node) : Prop :=
  ∃ s, n.storage = some s ∧ s.Backs c n.engine

variable {c : NodeConfig} {n : Node}

/-! ### Flushing -/

section Flush
variable {s : Storage}

theorem flushTrades_of_none (hnone : n.engine.registry.requests = 0) : n.flushTrades = n :=
  if_pos hnone

theorem flushDisputes_of_none (hnone : n.engine.disputes.requests = 0) : n.flushDisputes = n :=
  if_pos hnone

/-- A save of the trade book that succeeds leaves the file, and nothing of the book is due. -/
theorem flushTrades_of_saved (hs : n.storage = some s) (hdue : n.engine.registry.requests ≠ 0)
    (hsaved : (s.saveTrades n.engine).2 = true) :
    n.flushTrades =
      { n with engine := n.engine.tradesStored, storage := some (s.saveTrades n.engine).1 } := by
  simp only [flushTrades, if_neg hdue, hs, hsaved, if_true]

/-- One that fails is made up for later. -/
theorem flushTrades_of_failed (hs : n.storage = some s) (hdue : n.engine.registry.requests ≠ 0)
    (hfailed : (s.saveTrades n.engine).2 = false) :
    n.flushTrades = { n with storage := some (s.saveTrades n.engine).1 } := by
  simp only [flushTrades, if_neg hdue, hs, hfailed, Bool.false_eq_true, if_false]

theorem flushDisputes_of_saved (hs : n.storage = some s) (hdue : n.engine.disputes.requests ≠ 0)
    (hsaved : (s.saveDisputes n.engine).2 = true) :
    n.flushDisputes =
      { n with engine := n.engine.disputesStored, storage := some (s.saveDisputes n.engine).1 } := by
  simp only [flushDisputes, if_neg hdue, hs, hsaved, if_true]

theorem flushDisputes_of_failed (hs : n.storage = some s) (hdue : n.engine.disputes.requests ≠ 0)
    (hfailed : (s.saveDisputes n.engine).2 = false) :
    n.flushDisputes = { n with storage := some (s.saveDisputes n.engine).1 } := by
  simp only [flushDisputes, if_neg hdue, hs, hfailed, Bool.false_eq_true, if_false]

/-- Nothing of the trade book is due after a flush exactly if the save succeeds that was due. -/
theorem flushTrades_spec (hs : n.storage = some s) :
    n.flushTrades.storage = some (s.tradesWritten n.engine) ∧
      n.flushTrades.engine.disputes = n.engine.disputes ∧
      (n.flushTrades.engine.registry.requests = 0 ↔
        (n.engine.registry.requests ≠ 0 → (s.saveTrades n.engine).2 = true)) := by
  rw [Storage.tradesWritten]
  by_cases hdue : n.engine.registry.requests = 0
  · rw [flushTrades_of_none hdue, if_pos hdue]
    exact ⟨hs, rfl, iff_of_true hdue fun hne => absurd hdue hne⟩
  · rw [if_neg hdue]
    cases hsaved : (s.saveTrades n.engine).2 with
    | true =>
      rw [flushTrades_of_saved hs hdue hsaved]
      exact ⟨rfl, rfl, iff_of_true rfl fun _ => rfl⟩
    | false =>
      rw [flushTrades_of_failed hs hdue hsaved]
      exact ⟨rfl, rfl, iff_of_false hdue fun h => Bool.false_ne_true (h hdue)⟩

theorem flushDisputes_spec (hs : n.storage = some s) :
    n.flushDisputes.engine.registry = n.engine.registry ∧
      (n.flushDisputes.engine.disputes.requests = 0 ↔
        (n.engine.disputes.requests ≠ 0 → (s.saveDisputes n.engine).2 = true)) := by
  by_cases hdue : n.engine.disputes.requests = 0
  · rw [flushDisputes_of_none hdue]
    exact ⟨rfl, iff_of_true hdue fun hne => absurd hdue hne⟩
  · cases hsaved : (s.saveDisputes n.engine).2 with
    | true =>
      rw [flushDisputes_of_saved hs hdue hsaved]
      exact ⟨rfl, iff_of_true rfl fun _ => rfl⟩
    | false =>
      rw [flushDisputes_of_failed hs hdue hsaved]
      exact ⟨rfl, iff_of_false hdue fun h => Bool.false_ne_true (h hdue)⟩

/-- Nothing is due after a flush exactly if each save succeeds that was due. -/
theorem flush_done_iff (hs : n.storage = some s) :
    (n.flush.engine.registry.requests = 0 ∧ n.flush.engine.disputes.requests = 0) ↔
      s.Saves n.engine := by
  obtain ⟨hstorage, hsame, htrades⟩ := flushTrades_spec hs
  obtain ⟨hregistry, hdisputes⟩ := flushDisputes_spec hstorage
  have hsave : (s.tradesWritten n.engine).saveDisputes n.flushTrades.engine =
      (s.tradesWritten n.engine).saveDisputes n.engine := by
    rw [Storage.saveDisputes, hsame, Storage.saveDisputes]
  rw [hsame, hsave] at hdisputes
  rw [flush, hregistry, htrades, hdisputes]
  exact ⟨fun h => ⟨h.1, h.2⟩, fun h => ⟨h.trades, h.disputes⟩⟩

end Flush

/-! ### Each of it keeps the storage up to date -/

theorem durable_flushTrades (h : n.Durable c) : n.flushTrades.Durable c := by
  obtain ⟨s, hs, hbacks⟩ := h
  unfold flushTrades
  split
  · exact ⟨s, hs, hbacks⟩
  · rw [hs]
    exact ⟨(s.saveTrades n.engine).1, rfl, hbacks.saveTrades⟩

theorem durable_flushDisputes (h : n.Durable c) : n.flushDisputes.Durable c := by
  obtain ⟨s, hs, hbacks⟩ := h
  unfold flushDisputes
  split
  · exact ⟨s, hs, hbacks⟩
  · rw [hs]
    exact ⟨(s.saveDisputes n.engine).1, rfl, hbacks.saveDisputes⟩

theorem durable_flush (h : n.Durable c) : n.flush.Durable c :=
  durable_flushDisputes (durable_flushTrades h)

/-- The outcomes and the changes of phase that an engine hands on are not stored. -/
theorem backs_handedOn {s : Storage} {e : Engine} (h : s.Backs c e) :
    s.Backs c e.takeOutcomes.1.changesPassed :=
  h.marks ⟨fun hnone => ⟨hnone, rfl⟩, .refl _⟩ ⟨h.filed.book, h.filed.disputes⟩

theorem backs_feed {s : Storage} {e : Engine} (h : s.Backs c e) (changes : List PhaseChange) :
    (s.feed changes).Backs c e := by
  unfold Storage.feed
  split
  · exact h
  · exact h.agrees (.refl _ _)

theorem durable_finish {s : Storage} {e : Engine} (hs : n.storage = some s) (h : s.Backs c e)
    (r : Request) (a : Answer) : (n.finish r a e).Durable c := by
  refine durable_flush ⟨s.feed e.registry.changes, ?_, backs_feed (backs_handedOn h) _⟩
  simp only [feed, collect, hs, Option.map_some]
  rfl

theorem durable_handleNext (h : n.Durable c) (stamps : Nat → Stamp) :
    (n.handleNext stamps).1.Durable c := by
  unfold handleNext
  split
  next => exact h
  next r rest hqueue =>
    obtain ⟨s, hs, hbacks⟩ := h
    rw [serve_eq_finish]
    exact durable_finish (n := { n with queue := rest }) hs (hbacks.serve _ r) r _

theorem durable_accept {s : Storage} {e : Engine} {registry : Registry} {id : TradeId}
    {caller ticket : Nat} (h : s.Backs c n.engine)
    (hok : n.engine.accept id caller = .ok (e, ticket))
    (hregistry : e.registry.Meddled registry) : s.Backs c { e with registry := registry } := by
  have hserved := Engine.Served.accepted id caller ticket e rfl hok
  have hfiled := hserved.filed h.filed
  refine h.marks ⟨fun hnone => ?_, hserved.marks.disputes⟩ ⟨hregistry.filed hfiled.book,
    hfiled.disputes⟩
  -- an acceptance is to be stored, and that the exchange cannot change
  have hrequests := hregistry.requests
  have hmarked := Engine.marks_accept hok
  have hnone : registry.requests = 0 := hnone
  omega

theorem Moves.durable {m : Node} (hmove : n.Moves c m) (h : n.Durable c) : m.Durable c := by
  cases hmove with
  | send r => exact h
  | handle stamps => exact durable_handleNext h stamps
  | accept id caller ticket rest e registry hqueue hok hregistry =>
    obtain ⟨s, hs, hbacks⟩ := h
    exact durable_finish (n := { n with queue := rest }) hs
      (durable_accept hbacks hok hregistry) _ _
  | release error =>
    obtain ⟨s, hs, hbacks⟩ := h
    exact ⟨s, hs, hbacks.marks ⟨.refl _, .refl _⟩ ⟨hbacks.filed.book, hbacks.filed.disputes⟩⟩
  | advance elapsed =>
    obtain ⟨s, hs, hbacks⟩ := h
    exact ⟨s, hs, hbacks.marks ⟨.refl _, .refl _⟩ ⟨hbacks.filed.book, hbacks.filed.disputes⟩⟩
  | record s execute date hs hexecute =>
    obtain ⟨s', hs', hbacks⟩ := h
    cases hs.symm.trans hs'
    exact ⟨_, rfl, hbacks.recordBacklog hexecute date⟩
  | disturb s d hs hd =>
    obtain ⟨s', hs', hbacks⟩ := h
    cases hs.symm.trans hs'
    exact ⟨_, rfl, hbacks.agrees hd⟩

/-! ### The engine of a node -/

theorem flushTrades_engine (n : Node) :
    n.flushTrades.engine = n.engine ∨ n.flushTrades.engine = n.engine.tradesStored := by
  unfold flushTrades
  split
  · exact .inl rfl
  · split
    · exact .inr rfl
    · dsimp only
      split
      · exact .inr rfl
      · exact .inl rfl

theorem flushDisputes_engine (n : Node) :
    n.flushDisputes.engine = n.engine ∨ n.flushDisputes.engine = n.engine.disputesStored := by
  unfold flushDisputes
  split
  · exact .inl rfl
  · split
    · exact .inr rfl
    · dsimp only
      split
      · exact .inr rfl
      · exact .inl rfl

/-- A flush changes no more of the engine than what it counts. -/
theorem flush_engine (n : Node) : ∃ i j, n.flush.engine =
    { n.engine with
      registry := { n.engine.registry with requests := i }
      disputes := { n.engine.disputes with requests := j } } := by
  rw [flush]
  rcases n.flushTrades_engine with htrades | htrades <;>
    rcases n.flushTrades.flushDisputes_engine with hdisputes | hdisputes <;>
    rw [hdisputes, htrades] <;> exact ⟨_, _, rfl⟩

/-- Once a request is served, the outcomes and the changes of phase are handed
on, and what is to be stored is counted anew. -/
theorem finish_engine (n : Node) (r : Request) (a : Answer) (e : Engine) :
    (n.finish r a e).engine =
      { e with
        registry := { e.registry with
          requests := (n.finish r a e).engine.registry.requests
          changes := [] }
        disputes := { e.disputes with requests := (n.finish r a e).engine.disputes.requests }
        outcomes := [] } := by
  obtain ⟨i, j, hflush⟩ : ∃ i j, (n.finish r a e).engine =
      { e with
        registry := { e.registry with requests := i, changes := [] }
        disputes := { e.disputes with requests := j }
        outcomes := [] } := flush_engine _
  rw [hflush]

/-- Whatever happens to a node, its engine serves a request or it does not. Apart from that
there is no change but to the registry, to what is counted, to the timers and to what is held or
queued of its payouts. -/
theorem Moves.engine_eq {m : Node} (h : n.Moves c m) :
    ∃ e, (e = n.engine ∨ ∃ r, Engine.Served n.engine r e) ∧ m.engine =
      { e with
        registry := m.engine.registry
        disputes := { e.disputes with requests := m.engine.disputes.requests }
        timers := m.engine.timers
        desk := m.engine.desk
        outcomes := m.engine.outcomes } := by
  cases h with
  | send r => exact ⟨n.engine, Or.inl rfl, rfl⟩
  | handle stamps =>
    unfold handleNext
    split
    next => exact ⟨n.engine, Or.inl rfl, rfl⟩
    next r rest hqueue =>
      rw [serve_eq_finish, finish_engine]
      exact ⟨_, Or.inr ⟨r, n.engine.served (stamps n.handled) r⟩, rfl⟩
  | accept id caller ticket rest e registry hqueue hok hregistry =>
    rw [finish_engine]
    exact ⟨e, Or.inr ⟨.accept id caller, .accepted id caller ticket e rfl hok⟩, rfl⟩
  | release error => exact ⟨n.engine, Or.inl rfl, rfl⟩
  | advance elapsed => exact ⟨n.engine, Or.inl rfl, rfl⟩
  | record s execute date hs hexecute => exact ⟨n.engine, Or.inl rfl, rfl⟩
  | disturb s d hs hd => exact ⟨n.engine, Or.inl rfl, rfl⟩

theorem flush_state (n : Node) :
    n.flush.engine.registry.book = n.engine.registry.book ∧
      n.flush.engine.disputes.disputes = n.engine.disputes.disputes := by
  obtain ⟨i, j, hflush⟩ := n.flush_engine
  rw [hflush]
  exact ⟨rfl, rfl⟩

/-! ### Starting -/

theorem restore_ok {d d' : Disk} {book : TradeBook} {disputes : List Dispute}
    (h : restore c d = (d', .ok (book, disputes))) :
    c.fault? = none ∧ d.createDirectories? (Path.ofString c.dataDir) = some d' ∧
      Snapshots.loadTrades d' (Path.ofString c.dataDir) = .ok book ∧
      Snapshots.loadDisputes d' (Path.ofString c.dataDir) = .ok disputes := by
  unfold restore at h
  dsimp only at h
  split at h
  next => cases h
  next hvalid =>
    split at h
    next => cases h
    next d₁ hmade =>
      split at h
      next => cases h
      next => cases h
      next b ds htrades hdisputes =>
        cases h
        exact ⟨hvalid, hmade, htrades, hdisputes⟩

theorem storageOf_ok {around : Surroundings} {d d' : Disk} {s : Storage}
    (h : storageOf c around d = (d', .ok s)) :
    s.disk = d' ∧ s.directory = Path.ofString c.dataDir ∧
      (∀ j, s.journal = some j → j.directory = Path.ofString c.tradeDataDir) ∧
      ((c.journal.enabled = true ∧
          d.createDirectories? (Path.ofString c.tradeDataDir ++ [Journal.backupName]) = some d') ∨
        (c.journal.enabled = false ∧ d' = d)) := by
  unfold storageOf at h
  dsimp only at h
  split at h
  next henabled =>
    split at h
    next => cases h
    next d₁ hmade =>
      cases h
      refine ⟨rfl, rfl, fun j hj => ?_, .inl ⟨henabled, hmade⟩⟩
      cases hj
      rfl
  next hdisabled =>
    cases h
    refine ⟨rfl, rfl, fun j hj => ?_, .inr ⟨by simpa using hdisabled, rfl⟩⟩
    cases hj

/-- The directories of the journal are made without touching the snapshots. -/
theorem agrees_storageOf {around : Surroundings} {d d' : Disk} {s : Storage}
    (hdir : c.dataDir ≠ "")
    (hhome : ∀ q, q <+: Path.ofString c.dataDir → d.find? q = some .directory)
    (h : storageOf c around d = (d', .ok s)) {name : String} (hname : name ≠ "trade_data") :
    Disk.Agrees (· <+: Path.ofString c.dataDir ++ [name]) d d' := by
  obtain ⟨-, -, -, ⟨-, hmade⟩ | ⟨-, rfl⟩⟩ := storageOf_ok h
  · intro q hq
    rw [Disk.find?_createDirectories? hmade, NodeConfig.path_tradeDataDir hdir, List.append_assoc]
    split
    next hjournal =>
      rcases List.prefix_concat_iff.mp hq with rfl | hq
      · exact absurd (List.prefix_refl _) (Path.not_prefix_of_prefix hname hjournal)
      · exact (hhome q hq).symm
    next => rfl
  · exact .refl _ _

theorem home_storageOf {around : Surroundings} {d d' : Disk} {s : Storage}
    (hhome : ∀ q, q <+: Path.ofString c.dataDir → d.find? q = some .directory)
    (h : storageOf c around d = (d', .ok s)) (q : Path) (hq : c.Home q) :
    d'.find? q = some .directory := by
  obtain ⟨-, -, -, ⟨henabled, hmade⟩ | ⟨hdisabled, rfl⟩⟩ := storageOf_ok h
  · rw [Disk.find?_createDirectories? hmade]
    rcases hq with hq | ⟨-, hq⟩
    · split
      · rfl
      · exact hhome q hq
    · rw [if_pos hq]
  · rcases hq with hq | ⟨henabled, -⟩
    · exact hhome q hq
    · rw [hdisabled] at henabled
      cases henabled

theorem boot_ok {around : Surroundings} {desk : PayoutDesk} {publishes : Bool} {d₀ d : Disk}
    (h : boot c around desk publishes d₀ = (d, .ok n)) :
    ∃ d₁ book disputes s, restore c d₀ = (d₁, .ok (book, disputes)) ∧
      storageOf c around d₁ = (d, .ok s) ∧ n = .start (Engine.start
        (.withRetryDelay c.retryDelayMillis) c.address (.ofTradeBook book) (.ofList disputes)
        desk publishes) (some s) := by
  unfold boot at h
  split at h
  next => cases h
  next d₁ book disputes hrestore =>
    split at h
    next => cases h
    next d₂ s hstorage =>
      cases h
      exact ⟨d₁, book, disputes, s, hrestore, hstorage, rfl⟩

theorem boot_of_restored {around : Surroundings} {d₀ d₁ d : Disk} {book : TradeBook}
    {disputes : List Dispute} {s : Storage} (hrestore : restore c d₀ = (d₁, .ok (book, disputes)))
    (hstorage : storageOf c around d₁ = (d, .ok s)) (desk : PayoutDesk) (publishes : Bool) :
    boot c around desk publishes d₀ = (d, .ok (.start (Engine.start
      (.withRetryDelay c.retryDelayMillis) c.address (.ofTradeBook book) (.ofList disputes)
      desk publishes) (some s))) := by
  simp only [boot, hrestore, hstorage]

theorem durable_boot {around : Surroundings} {desk : PayoutDesk} {publishes : Bool} {d₀ d : Disk}
    (h : boot c around desk publishes d₀ = (d, .ok n)) : n.Durable c := by
  obtain ⟨d₁, book, disputes, s, hrestore, hstorage, rfl⟩ := boot_ok h
  obtain ⟨hvalid, hmade, htrades, hdisputes⟩ := restore_ok hrestore
  obtain ⟨hdisk, hdirectory, hjournal, -⟩ := storageOf_ok hstorage
  have hdir := NodeConfig.dataDir_of_fault? hvalid
  have hhome : ∀ q, q <+: Path.ofString c.dataDir → d₁.find? q = some .directory := fun q hq => by
    rw [Disk.find?_createDirectories? hmade, if_pos hq]
  refine ⟨s, rfl, ⟨hvalid, hdirectory, hjournal, ?_⟩,
    ⟨Book.filed_ofTradeBook book, DisputeStore.filed_ofList disputes⟩, fun _ => ?_, fun _ => ?_⟩
  · rw [hdisk]
    exact home_storageOf hhome hstorage
  · refine ⟨book, ?_, rfl⟩
    rw [hdisk, hdirectory, ← htrades]
    exact Snapshots.loadTrades_congr (agrees_storageOf hdir hhome hstorage (by decide))
  · refine ⟨disputes, ?_, rfl⟩
    rw [hdisk, hdirectory, ← hdisputes]
    exact Snapshots.loadDisputes_congr (agrees_storageOf hdir hhome hstorage (by decide))

theorem Reached.durable (h : Reached c n) : n.Durable c := by
  induction h with
  | boot around desk publishes d₀ d n h => exact durable_boot h
  | move n m h hmove ih => exact hmove.durable ih

/-! ### Starting again -/

theorem restore_of_loaded {d : Disk} {book : TradeBook} {disputes : List Dispute}
    (hvalid : c.fault? = none)
    (hhome : ∀ q, q <+: Path.ofString c.dataDir → d.find? q = some .directory)
    (htrades : Snapshots.loadTrades d (Path.ofString c.dataDir) = .ok book)
    (hdisputes : Snapshots.loadDisputes d (Path.ofString c.dataDir) = .ok disputes) :
    restore c d = (d, .ok (book, disputes)) := by
  unfold restore
  simp only [hvalid, Disk.createDirectories?_of_directories hhome, htrades, hdisputes]

theorem storageOf_of_home {d : Disk} (hhome : ∀ q, c.Home q → d.find? q = some .directory)
    (around : Surroundings) : ∃ s, storageOf c around d = (d, .ok s) := by
  unfold storageOf
  dsimp only
  split
  next henabled =>
    have hmade : d.createDirectories? (Path.ofString c.tradeDataDir ++ [Journal.backupName]) =
        some d := Disk.createDirectories?_of_directories fun q hq => hhome q (.inr ⟨henabled, hq⟩)
    simp only [Journal.prepare?, Journal.ofSettings, hmade]
    exact ⟨_, rfl⟩
  next => exact ⟨_, rfl⟩

/-- What a storage holds is what the next start makes its engine from. -/
theorem boot_of_holds {s : Storage} {b : Book} {ds : DisputeStore} (h : s.Sound c)
    (htrades : s.HoldsTrades b) (hdisputes : s.HoldsDisputes ds) (around : Surroundings)
    (desk : PayoutDesk) (publishes : Bool) :
    ∃ registry disputes storage, registry.book = b ∧ disputes.disputes = ds.disputes ∧
      boot c around desk publishes s.disk = (s.disk, .ok (.start
        (Engine.start (.withRetryDelay c.retryDelayMillis) c.address registry disputes desk
          publishes) (some storage))) := by
  obtain ⟨book, hloadTrades, hbook⟩ := htrades
  obtain ⟨l, hloadDisputes, hl⟩ := hdisputes
  rw [h.directory] at hloadTrades hloadDisputes
  have hrestore := restore_of_loaded h.fault (fun q hq => h.home q (.inl hq)) hloadTrades
    hloadDisputes
  obtain ⟨s', hstorage⟩ := storageOf_of_home h.home around
  exact ⟨.ofTradeBook book, .ofList l, s', hbook, hl,
    boot_of_restored hrestore hstorage desk publishes⟩

/-- A storage that holds all of an engine gives its trades and disputes to the next start. -/
theorem boot_of_backs {s : Storage} {e : Engine} (h : s.Backs c e)
    (htrades : e.registry.requests = 0) (hdisputes : e.disputes.requests = 0)
    (around : Surroundings) (desk : PayoutDesk) (publishes : Bool) :
    ∃ m, boot c around desk publishes s.disk = (s.disk, .ok m) ∧
      m.engine.registry.book = e.registry.book ∧
      m.engine.disputes.disputes = e.disputes.disputes := by
  obtain ⟨registry, disputes, s', hbook, hds, hboot⟩ :=
    boot_of_holds h.sound (h.trades htrades) (h.disputes hdisputes) around desk publishes
  exact ⟨_, hboot, hbook, hds⟩

/-- Whatever has happened to a node since its start, each of its snapshots is
still to be written, or it is loaded as what the node has in memory. A last flush
leaves nothing to be written exactly if the saves succeed that are due, and then
the node is started again with the same trades, offers and disputes. -/
theorem snapshots_current_or_due (h : Reached c n) :
    ∃ s left, n.storage = some s ∧ n.stop = some left ∧
      s.directory = Path.ofString c.dataDir ∧
      (n.engine.registry.requests ≠ 0 ∨
        ∃ l, Snapshots.loadTrades s.disk s.directory = .ok l ∧
          Book.ofTradeBook l = n.engine.registry.book) ∧
      (n.engine.disputes.requests ≠ 0 ∨
        ∃ l, Snapshots.loadDisputes s.disk s.directory = .ok l ∧
          (DisputeStore.ofList l).disputes = n.engine.disputes.disputes) ∧
      ((n.flush.engine.registry.requests = 0 ∧ n.flush.engine.disputes.requests = 0) ↔
        s.Saves n.engine) ∧
      (s.Saves n.engine → ∀ d, Disk.Agrees c.Kept left.disk d →
        ∀ around desk publishes, ∃ m, boot c around desk publishes d = (d, .ok m) ∧
          m.engine.registry.book = n.engine.registry.book ∧
          m.engine.disputes.disputes = n.engine.disputes.disputes) := by
  obtain ⟨s, hs, hbacks⟩ := h.durable
  obtain ⟨left, hleft, hflushed⟩ := durable_flush h.durable
  refine ⟨s, left, hs, hleft, hbacks.sound.directory,
    Decidable.or_iff_not_imp_left.mpr fun hdue => ?_,
    Decidable.or_iff_not_imp_left.mpr fun hdue => ?_, flush_done_iff hs, ?_⟩
  · exact hbacks.trades (Decidable.not_not.mp hdue)
  · exact hbacks.disputes (Decidable.not_not.mp hdue)
  · intro hsaves d hd around desk publishes
    obtain ⟨htrades, hdisputes⟩ := (flush_done_iff hs).mpr hsaves
    obtain ⟨m, hboot, hbook, hstore⟩ := boot_of_backs (hflushed.agrees (b := left.backlog) hd)
      htrades hdisputes around desk publishes
    exact ⟨m, hboot, hbook.trans n.flush_state.1, hstore.trans n.flush_state.2⟩

/-- The node with another disk. -/
def withDisk (n : Node) (f : Disk → Disk) : Node :=
  { n with storage := n.storage.map fun s => { s with disk := f s.disk } }

/-- Something is put in the way of a draft, or is taken away. -/
theorem Reached.withDisk (h : Reached c n) {name : String}
    (hname : name = Snapshots.tradesFile ∨ name = Snapshots.disputesFile) {f : Disk → Disk}
    (hf : ∀ d, Disk.Agrees (· ≠ Path.ofString c.dataDir ++ [Snapshots.draftOf name]) d (f d)) :
    Reached c (n.withDisk f) := by
  obtain ⟨s, hs, hbacks⟩ := h.durable
  have hkept : Disk.Agrees c.Kept s.disk (f s.disk) :=
    (hf s.disk).mono fun _ hq => hq.ne_draft hbacks.sound.dataDir hname
  have hmoved := Reached.move n _ h (.disturb s (f s.disk) hs hkept)
  rw [Node.withDisk, hs]
  exact hmoved

end Node

namespace Sample

def booting : Disk × Except NodeError Node :=
  Node.boot .default .none (.ofScript .hold) false .empty

theorem isSome_booting : booting.2.toOption.isSome = true := by decide +kernel

def booted : Node := booting.2.toOption.get isSome_booting

def dataDir : Path := Path.ofString NodeConfig.default.dataDir

theorem booting_eq : Node.boot .default .none (.ofScript .hold) false .empty =
    (booting.1, .ok booted) := by
  have hok : ∀ x : Except NodeError Node, ∀ h : x.toOption.isSome = true,
      x = .ok (x.toOption.get h) := by
    intro x h
    cases x with
    | error e => cases h
    | ok n => rfl
  exact Prod.ext rfl (hok booting.2 isSome_booting)

theorem reached_booted : Node.Reached .default booted :=
  .boot Surroundings.none (.ofScript .hold) false .empty _ booted booting_eq

/-- A disk with the sample trade, as a node leaves it. -/
def filedDisk : Disk :=
  (Snapshots.save booting.1 dataDir Snapshots.tradesFile
    (Snapshots.tradesText engine.registry.book.snapshot)).1

theorem home_filedDisk (q : Path) (hq : NodeConfig.Home .default q) :
    filedDisk.find? q = some .directory := by
  obtain ⟨s, hs, hbacks⟩ := reached_booted.durable
  have hbooted : booted.storage.map (fun s => (s.disk, s.directory)) =
      some (booting.1, dataDir) := rfl
  rw [hs] at hbooted
  obtain ⟨hdisk, hdirectory⟩ := Prod.mk.inj (Option.some.inj hbooted)
  have hsaved : Storage.Sound .default { s with
      disk := (Snapshots.save s.disk s.directory Snapshots.tradesFile
        (Snapshots.tradesText engine.registry.book.snapshot)).1 } := hbacks.sound.save (.inl rfl)
  rw [hdisk, hdirectory] at hsaved
  exact hsaved.home q hq

def filedStorage : Storage := ⟨filedDisk, dataDir, booted.storage.bind Storage.journal, []⟩

theorem storageOf_filedDisk :
    Node.storageOf .default .none filedDisk = (filedDisk, .ok filedStorage) := by
  have hmade : filedDisk.createDirectories? (Path.ofString NodeConfig.default.tradeDataDir ++
      [Journal.backupName]) = some filedDisk :=
    Disk.createDirectories?_of_directories fun q hq => home_filedDisk q (.inr ⟨rfl, hq⟩)
  simp only [Node.storageOf, Journal.prepare?, Journal.ofSettings, hmade]
  rfl

/-- The node that is started on that disk. -/
def filedNode : Node :=
  .start (.start (.withRetryDelay NodeConfig.default.retryDelayMillis) .default
    (.ofTradeBook engine.registry.book.snapshot) (.ofList []) (.ofScript .hold) false)
    (some filedStorage)

theorem boot_filedDisk : Node.boot .default .none (.ofScript .hold) false filedDisk =
    (filedDisk, .ok filedNode) := by
  have htrades : Snapshots.loadTrades filedDisk dataDir = .ok engine.registry.book.snapshot :=
    Snapshots.loadTrades_save (by decide +kernel)
  have hdisputes : Snapshots.loadDisputes filedDisk dataDir = .ok [] :=
    Snapshots.loadDisputes_congr (d := booting.1) (Snapshots.agrees_save_of_ne (by decide))
  have hrestore : Node.restore .default filedDisk =
      (filedDisk, .ok (engine.registry.book.snapshot, [])) :=
    Node.restore_of_loaded rfl (fun q hq => home_filedDisk q (.inl hq)) htrades hdisputes
  exact Node.boot_of_restored hrestore storageOf_filedDisk _ _

/-- That node with a directory in the way of each draft. -/
def barred : Node :=
  (filedNode.withDisk fun d => Snapshots.bar d dataDir Snapshots.tradesFile).withDisk fun d =>
    Snapshots.bar d dataDir Snapshots.disputesFile

/-- The node that was asked to open a dispute, and could save neither the dispute nor the trade. -/
def unsaved : Node :=
  ((barred.send (.openDispute (dispute none))).handleNext fun _ => stamp).1

/-- The same node once nothing is in the way of the drafts. -/
def unbarred : Node :=
  (unsaved.withDisk fun d => Snapshots.unbar d dataDir Snapshots.tradesFile).withDisk fun d =>
    Snapshots.unbar d dataDir Snapshots.disputesFile

theorem reached_unbarred : Node.Reached .default unbarred := by
  have hfiled : Node.Reached .default filedNode :=
    .boot Surroundings.none (.ofScript .hold) false filedDisk _ filedNode boot_filedDisk
  have hbarred : Node.Reached .default barred :=
    (hfiled.withDisk (.inl rfl) fun d => Snapshots.agrees_bar d dataDir _).withDisk (.inr rfl)
      fun d => Snapshots.agrees_bar d dataDir _
  have hsent := Node.Reached.move _ _ hbarred (.send (.openDispute (dispute none)))
  have hunsaved : Node.Reached .default unsaved := .move _ _ hsent (.handle fun _ => stamp)
  exact (hunsaved.withDisk (.inl rfl) fun d => Snapshots.agrees_unbar d dataDir _).withDisk
    (.inr rfl) fun d => Snapshots.agrees_unbar d dataDir _

end Sample

open Sample in
/-- The dispute and the state of its trade, whose first saves failed, are there when the node is
started again. -/
theorem Node.snapshots_current_or_due_after_failed_save :
    (unsaved.engine.registry.requests = 1 ∧ unsaved.engine.disputes.requests = 1) ∧
      ∃ left m, unbarred.stop = some left ∧
        (unbarred.flush.engine.registry.requests = 0 ∧
          unbarred.flush.engine.disputes.requests = 0) ∧
        boot .default .none (.ofScript .hold) false left.disk = (left.disk, .ok m) ∧
        (m.engine.registry.book.live.get? tradeId).map Trade.disputeState =
          some .mediationRequested ∧
        m.engine.disputes.contains tradeId = true := by
  obtain ⟨s, left, hs, hleft, -, -, -, hdone, hrestart⟩ :=
    snapshots_current_or_due reached_unbarred
  have hsaves : s.Saves unbarred.engine := by
    have htrades : unbarred.storage.map (fun s => (s.saveTrades unbarred.engine).2) =
        some true := by decide +kernel
    have hdisputes : unbarred.storage.map (fun s =>
        ((s.tradesWritten unbarred.engine).saveDisputes unbarred.engine).2) = some true := by
      decide +kernel
    rw [hs] at htrades hdisputes
    exact ⟨fun _ => Option.some.inj htrades, fun _ => Option.some.inj hdisputes⟩
  obtain ⟨m, hboot, htrades, hdisputes⟩ := hrestart hsaves left.disk (.refl _ _) .none
    (.ofScript .hold) false
  refine ⟨⟨by decide +kernel, by decide +kernel⟩, left, m, hleft, hdone.mpr hsaves, hboot, ?_, ?_⟩
  · rw [htrades]
    decide +kernel
  · rw [DisputeStore.contains, DisputeStore.find?, hdisputes]
    decide +kernel

end Mediation
