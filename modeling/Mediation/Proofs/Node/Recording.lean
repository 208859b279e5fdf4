import Mediation.Proofs.Engine.Notifications
import Mediation.Proofs.Node.Durability
import Mediation.Proofs.Storage.Histories

/-!
# The journal of a running node

The changes of phase of a request join the backlog of the journal, in the order
in which they were made; at any later time the trade that has waited longest is
recorded. Nothing else that happens to a node touches the files of the trades.
-/

namespace Mediation

/-! ### Recording what waits -/

/-- A trade that was recorded, with the fault that ended it, if any. -/
structure Recording where
  date : Int64
  trade : Trade
  fault : Option StorageError

def Recording.entry (w : Recording) : PhaseEntry := ⟨w.date, w.trade.phase⟩

namespace Storage

def recording? (s : Storage) (execute : Execution) (date : Int64) : Option Recording :=
  match s.journal, s.backlog with
  | some j, t :: _ => some ⟨date, t, (j.record execute date t s.disk).2⟩
  | _, _ => none

end Storage

/-! ### What happens to a node -/

inductive Occurrence where
  | send (r : Request)
  | handle (stamps : Nat → Stamp)
  | release (error : Option String)
  | advance (elapsed : Nat)
  | record (execute : Execution) (date : Int64)

namespace Node

def occur (n : Node) : Occurrence → Node
  | .send r => n.send r
  | .handle stamps => (n.handleNext stamps).1
  | .release error => n.release error
  | .advance elapsed => (n.advance elapsed).1
  | .record execute date =>
    { n with storage := n.storage.map fun s => s.recordNext execute date }

def run (n : Node) (os : List Occurrence) : Node := os.foldl occur n

def recording? (n : Node) : Occurrence → Option Recording
  | .record execute date => n.storage.bind fun s => s.recording? execute date
  | _ => none

/-- The trades that a run records, one after the other. -/
def recordings : Node → List Occurrence → List Recording
  | _, [] => []
  | n, o :: os => (n.recording? o).toList ++ recordings (n.occur o) os

/-- The changes of a trade's phase in a run: each shows between two books that follow
one another. -/
def changes (id : TradeId) : Node → List Occurrence → List PhaseChange
  | _, [] => []
  | n, o :: os =>
    (n.engine.registry.book.change? (n.occur o).engine.registry.book id).toList ++
      changes id (n.occur o) os

/-- A node changes its trades only when it serves a request. -/
theorem occur_served (n : Node) (o : Occurrence) :
    (n.occur o).engine.registry.book = n.engine.registry.book ∨
      ∃ r e, Engine.Served n.engine r e ∧
        (n.occur o).engine.registry.book = e.registry.book := by
  cases o with
  | send r => exact .inl rfl
  | release error => exact .inl rfl
  | advance elapsed => exact .inl rfl
  | record execute date => exact .inl rfl
  | handle stamps =>
    simp only [occur, handleNext]
    split
    next => exact .inl rfl
    next r rest hqueue =>
      rw [serve_eq_finish]
      exact .inr ⟨r, _, Engine.served n.engine _ r, (flush_state _).1⟩

theorem isSome_live_of_occur {n : Node} {o : Occurrence} {id : TradeId}
    (h : ((n.occur o).engine.registry.book.live.get? id).isSome = true) :
    (n.engine.registry.book.live.get? id).isSome = true := by
  rcases n.occur_served o with hsame | ⟨r, e, hserved, hbook⟩
  · exact hsame ▸ h
  · rw [hbook] at h
    exact (hserved.steps id).isSome_live h

theorem changes_of_not_live {n : Node} {id : TradeId}
    (h : n.engine.registry.book.live.get? id = none) (os : List Occurrence) :
    n.changes id os = [] := by
  induction os generalizing n with
  | nil => rfl
  | cons o os ih =>
    have hafter : (n.occur o).engine.registry.book.live.get? id = none := by
      rw [Option.eq_none_iff_forall_ne_some]
      intro t ht
      have hlive := isSome_live_of_occur (Option.isSome_iff_exists.mpr ⟨t, ht⟩)
      rw [h] at hlive
      cases hlive
    have hnone : n.engine.registry.book.change? (n.occur o).engine.registry.book id = none := by
      simp only [Book.change?, h]
    rw [changes, hnone, ih hafter]
    rfl

/-- The changes of a live trade's phase lead on from its phase. -/
theorem changes_chain {n : Node} {id : TradeId} {t : Trade}
    (h : n.engine.registry.book.live.get? id = some t) (os : List Occurrence) :
    PhaseChange.Chain t.phase (n.changes id os) := by
  induction os generalizing n t with
  | nil => trivial
  | cons o os ih =>
    rw [changes]
    cases hafter : (n.occur o).engine.registry.book.live.get? id with
    | none =>
      have hnone : n.engine.registry.book.change? (n.occur o).engine.registry.book id = none := by
        simp only [Book.change?, h, hafter]
      rw [hnone, changes_of_not_live hafter]
      trivial
    | some t' =>
      have hchange : n.engine.registry.book.change? (n.occur o).engine.registry.book id =
          if t'.phase = t.phase then none else some ⟨t', t.phase⟩ := by
        simp only [Book.change?, h, hafter]
      have hrest := ih hafter
      rw [hchange]
      split
      next hphase => exact hphase ▸ hrest
      next => exact ⟨rfl, hrest⟩

/-! ### A node with a journal -/

/-- A node whose storage has a journal, between two requests. -/
structure Journaling (c : NodeConfig) (j : Journal) (s : Storage) (n : Node) : Prop where
  storage : n.storage = some s
  journal : s.journal = some j
  enabled : c.journal.enabled = true
  sound : s.Sound c
  filed : n.engine.Filed
  passed : n.engine.registry.changes = []

variable {c : NodeConfig} {j : Journal} {s s' : Storage} {n : Node} {id : TradeId}

/-- A node that is started with its journal enabled keeps one, and nothing waits there. -/
theorem journaling_boot {around : Surroundings} {desk : PayoutDesk} {publishes : Bool} {d₀ d : Disk}
    (h : boot c around desk publishes d₀ = (d, .ok n)) (henabled : c.journal.enabled = true) :
    ∃ j s, n.Journaling c j s ∧ s.disk = d ∧ s.backlog = [] := by
  obtain ⟨s, hs, hbacks⟩ := durable_boot h
  obtain ⟨d₁, book, disputes, s', -, hstorage, rfl⟩ := boot_ok h
  obtain rfl : s' = s := Option.some.inj hs
  have hdisk := (storageOf_ok hstorage).1
  unfold storageOf at hstorage
  simp only [henabled, if_true] at hstorage
  split at hstorage
  next => cases hstorage
  next d₂ hprepared =>
    cases hstorage
    exact ⟨_, _, ⟨rfl, rfl, henabled, hbacks.sound, hbacks.filed, rfl⟩, hdisk, rfl⟩

namespace Journaling

theorem ready (h : n.Journaling c j s) : j.Ready s.disk := by
  intro q hq
  rw [h.sound.journal j h.journal] at hq
  exact h.sound.home q (.inr ⟨h.enabled, hq⟩)

theorem leads_below (h : n.Journaling c j s) {f : JournalFile} {q : Path} (hq : j.Leads f id q) :
    ∃ r, q <+: s.directory ++ "trade_data" :: r := by
  have hdirectory : j.directory = s.directory ++ ["trade_data"] := by
    rw [h.sound.journal j h.journal, h.sound.directory,
      NodeConfig.path_tradeDataDir h.sound.dataDir]
  rcases hq with hq | hq
  · refine ⟨[f.name id], hq.trans ?_⟩
    rw [Journal.path, hdirectory, List.append_assoc]
    exact List.prefix_refl _
  · refine ⟨[Journal.backupName, f.name id], hq.trans ?_⟩
    rw [Journal.backupPath, hdirectory, List.append_assoc]
    exact List.prefix_refl _

/-- A snapshot is written, and the files of the trades stay as they are. -/
theorem save (h : n.Journaling c j s) {name : String}
    (hname : name = Snapshots.tradesFile ∨ name = Snapshots.disputesFile) (text : String)
    (f : JournalFile) (id : TradeId) :
    Disk.Agrees (j.Leads f id) s.disk (Snapshots.save s.disk s.directory name text).1 := by
  have hother : "trade_data" ≠ name ∧ "trade_data" ≠ Snapshots.draftOf name := by
    rcases hname with rfl | rfl <;> decide
  intro q hq
  obtain ⟨r, hr⟩ := h.leads_below hq
  exact Snapshots.agrees_save_of_ne hother q hr

/-- A snapshot is written, or it is not due; nothing else of the engine changes
than what is counted. -/
theorem of_saved (h : n.Journaling c j s) {m : Node} {name : String}
    (hname : name = Snapshots.tradesFile ∨ name = Snapshots.disputesFile)
    (hengine : ∃ i k, m.engine =
      { n.engine with
        registry := { n.engine.registry with requests := i }
        disputes := { n.engine.disputes with requests := k } })
    (hstorage : m.storage = some s ∨ ∃ text,
      m.storage = some { s with disk := (Snapshots.save s.disk s.directory name text).1 }) :
    ∃ d, m.Journaling c j { s with disk := d } ∧ ∀ f id, Disk.Agrees (j.Leads f id) s.disk d := by
  obtain ⟨i, k, hengine⟩ := hengine
  have hfiled : m.engine.Filed := by
    rw [hengine]
    exact ⟨h.filed.book, h.filed.disputes⟩
  have hpassed : m.engine.registry.changes = [] := by
    rw [hengine]
    exact h.passed
  rcases hstorage with hstorage | ⟨text, hstorage⟩
  · exact ⟨s.disk, ⟨hstorage, h.journal, h.enabled, h.sound, hfiled, hpassed⟩,
      fun f id => .refl _ _⟩
  · exact ⟨_, ⟨hstorage, h.journal, h.enabled, h.sound.save hname, hfiled, hpassed⟩,
      h.save hname text⟩

theorem flushTrades (h : n.Journaling c j s) :
    ∃ d, n.flushTrades.Journaling c j { s with disk := d } ∧
      ∀ f id, Disk.Agrees (j.Leads f id) s.disk d := by
  refine h.of_saved (.inl rfl) ?_ ?_
  · rcases n.flushTrades_engine with hsame | hsame <;> exact ⟨_, _, hsame⟩
  · unfold Node.flushTrades
    split
    · exact .inl h.storage
    · rw [h.storage]
      exact .inr ⟨_, rfl⟩

theorem flushDisputes (h : n.Journaling c j s) :
    ∃ d, n.flushDisputes.Journaling c j { s with disk := d } ∧
      ∀ f id, Disk.Agrees (j.Leads f id) s.disk d := by
  refine h.of_saved (.inr rfl) ?_ ?_
  · rcases n.flushDisputes_engine with hsame | hsame <;> exact ⟨_, _, hsame⟩
  · unfold Node.flushDisputes
    split
    · exact .inl h.storage
    · rw [h.storage]
      exact .inr ⟨_, rfl⟩

theorem flush (h : n.Journaling c j s) :
    ∃ d, n.flush.Journaling c j { s with disk := d } ∧
      ∀ f id, Disk.Agrees (j.Leads f id) s.disk d := by
  obtain ⟨d₁, h₁, hd₁⟩ := h.flushTrades
  obtain ⟨d₂, h₂, hd₂⟩ := h₁.flushDisputes
  exact ⟨d₂, h₂, fun f id => (hd₁ f id).trans (hd₂ f id)⟩

/-- What listeners are told of a request joins the backlog. -/
theorem finish (h : n.Journaling c j s) {e : Engine} (hfiled : e.Filed) (r : Request) (a : Answer) :
    ∃ d, (n.finish r a e).Journaling c j
        { s with
          disk := d
          backlog := s.backlog ++ (e.registry.changes.filter Journal.takes).map (·.trade) } ∧
      ∀ f id, Disk.Agrees (j.Leads f id) s.disk d := by
  have hfeed : s.feed e.registry.changes =
      { s with
        backlog := s.backlog ++ (e.registry.changes.filter Journal.takes).map (·.trade) } := by
    simp only [Storage.feed, h.journal]
  refine flush (s := { s with
    backlog := s.backlog ++ (e.registry.changes.filter Journal.takes).map (·.trade) }) ?_
  refine ⟨?_, h.journal, h.enabled, h.sound.agrees (.refl _ _),
    ⟨hfiled.book, hfiled.disputes⟩, rfl⟩
  simp only [feed, collect, h.storage, Option.map_some]
  exact congrArg some hfeed

end Journaling

/-- What an occurrence makes of a storage: the changes of phase that the books
show are handed to the journal, or the trade that has waited longest is recorded. -/
inductive Notes (j : Journal) (n : Node) (o : Occurrence) (s s' : Storage) : Prop where
  | fed (sent : List PhaseChange)
      (hsent : ∀ id, sent.filter (fun c => c.trade.id = id) =
        (n.engine.registry.book.change? (n.occur o).engine.registry.book id).toList)
      (hbacklog : s'.backlog = s.backlog ++ (sent.filter Journal.takes).map (·.trade))
      (hdisk : ∀ f id, Disk.Agrees (j.Leads f id) s.disk s'.disk)
      (hnone : n.recording? o = none)
  | recorded (execute : Execution) (w : Recording) (ho : o = .record execute w.date)
      (hengine : (n.occur o).engine = n.engine)
      (hbacklog : s.backlog = w.trade :: s'.backlog)
      (hdisk : j.record execute w.date w.trade s.disk = (s'.disk, w.fault))
      (hw : n.recording? o = some w)

theorem Notes.of_same {o : Occurrence} (hbook : (n.occur o).engine.registry.book =
    n.engine.registry.book) (hnone : n.recording? o = none) : Notes j n o s s := by
  refine .fed [] (fun id => ?_) (List.append_nil _).symm (fun f id => .refl _ _) hnone
  rw [hbook, Book.change?_self]
  rfl

namespace Journaling

theorem handleNext (h : n.Journaling c j s) (stamps : Nat → Stamp) :
    ∃ s', (n.handleNext stamps).1.Journaling c j s' ∧ Notes j n (.handle stamps) s s' := by
  cases hqueue : n.queue with
  | nil =>
    have hsame : (n.handleNext stamps).1 = n := by simp only [Node.handleNext, hqueue]
    refine ⟨s, hsame.symm ▸ h, .of_same ?_ rfl⟩
    simp only [occur, hsame]
  | cons r rest =>
    let m : Node := { n with queue := rest }
    have hm : m.Journaling c j s := ⟨h.storage, h.journal, h.enabled, h.sound, h.filed, h.passed⟩
    have hnext : (n.handleNext stamps).1 = m.finish r (n.engine.serve (stamps n.handled) r).2
        (n.engine.serve (stamps n.handled) r).1 := by
      simp only [Node.handleNext, hqueue]
      exact serve_eq_finish stamps m r
    have hserved := Engine.served n.engine (stamps n.handled) r
    obtain ⟨d, hfinish, hdisk⟩ := hm.finish (hserved.filed h.filed) r
      (n.engine.serve (stamps n.handled) r).2
    obtain ⟨sent, hchanges, hsent⟩ := hserved.notifies h.filed.book
    rw [h.passed, List.nil_append] at hchanges
    refine ⟨_, hnext.symm ▸ hfinish, .fed sent (fun id => ?_) ?_ hdisk rfl⟩
    · have hbook : (n.handleNext stamps).1.engine.registry.book =
          (n.engine.serve (stamps n.handled) r).1.registry.book := by
        rw [hnext]
        exact (flush_state _).1
      rw [occur, hbook]
      exact hsent id
    · rw [hchanges]

theorem record (h : n.Journaling c j s) (execute : Execution) (date : Int64)
    (hexecute : j.Harmless execute c.Home) :
    ∃ s', (n.occur (.record execute date)).Journaling c j s' ∧
      Notes j n (.record execute date) s s' := by
  have hafter : (n.occur (.record execute date)).storage = some (s.recordNext execute date) := by
    simp only [Node.occur, h.storage, Option.map_some]
  have hrecording : n.recording? (.record execute date) = s.recording? execute date := by
    simp only [recording?, h.storage, Option.bind_some]
  cases hbacklog : s.backlog with
  | nil =>
    have hnext : s.recordNext execute date = s := by
      simp only [Storage.recordNext, h.journal, hbacklog]
    have hnone : s.recording? execute date = none := by
      simp only [Storage.recording?, h.journal, hbacklog]
    rw [hnext] at hafter
    exact ⟨s, ⟨hafter, h.journal, h.enabled, h.sound, h.filed, h.passed⟩,
      .of_same rfl (hrecording.trans hnone)⟩
  | cons t rest =>
    let w : Recording := ⟨date, t, (j.record execute date t s.disk).2⟩
    let s' : Storage :=
      { s with disk := (j.record execute date t s.disk).1, backlog := rest }
    have hnext : s.recordNext execute date = s' := by
      simp only [Storage.recordNext, h.journal, hbacklog, s']
    have hsome : s.recording? execute date = some w := by
      simp only [Storage.recording?, h.journal, hbacklog, w]
    have hhome : Disk.Agrees c.Home s.disk s'.disk :=
      Journal.agrees_record hexecute (fun q hq =>
        (NodeConfig.Kept.spares h.sound.dataDir (h.sound.journal j h.journal) (.inl hq)).apart t.id)
        date s.disk
    rw [hnext] at hafter
    refine ⟨s', ⟨hafter, h.journal, h.enabled, h.sound.agrees hhome, h.filed, h.passed⟩, ?_⟩
    exact .recorded execute w rfl rfl hbacklog rfl (hrecording.trans hsome)

/-- The journal is kept by whatever happens, and takes note of it. -/
theorem occur (h : n.Journaling c j s) (o : Occurrence)
    (hexecute : ∀ execute date, o = .record execute date → j.Harmless execute c.Home) :
    ∃ s', (n.occur o).Journaling c j s' ∧ Notes j n o s s' := by
  have hsame (m : Node) (hstorage : m.storage = n.storage)
      (hregistry : m.engine.registry = n.engine.registry)
      (hdisputes : m.engine.disputes = n.engine.disputes) : m.Journaling c j s :=
    ⟨hstorage.trans h.storage, h.journal, h.enabled, h.sound,
      ⟨hregistry ▸ h.filed.book, hdisputes ▸ h.filed.disputes⟩, hregistry ▸ h.passed⟩
  cases o with
  | send r => exact ⟨s, hsame _ rfl rfl rfl, .of_same rfl rfl⟩
  | handle stamps => exact h.handleNext stamps
  | release error => exact ⟨s, hsame _ rfl rfl rfl, .of_same rfl rfl⟩
  | advance elapsed => exact ⟨s, hsame _ rfl rfl rfl, .of_same rfl rfl⟩
  | record execute date => exact h.record execute date (hexecute execute date rfl)

/-! ### Runs -/

section Run
variable {os : List Occurrence}

/-- What has been recorded and what still waits are the changes of phase that the
journal takes, in the order in which they were made. -/
theorem run (h : n.Journaling c j s)
    (hexecute : ∀ execute date, .record execute date ∈ os → j.Harmless execute c.Home) :
    ∃ s', (n.run os).Journaling c j s' ∧ ∀ id,
      ((n.recordings os).map (·.trade) ++ s'.backlog).filter (·.id = id) =
        s.backlog.filter (·.id = id) ++ ((n.changes id os).filter Journal.takes).map (·.trade) := by
  induction os generalizing n s with
  | nil => exact ⟨s, h, fun id => (List.append_nil _).symm⟩
  | cons o os ih =>
    obtain ⟨s₁, h₁, hnotes⟩ := h.occur o fun execute date ho =>
      hexecute execute date (ho ▸ List.mem_cons_self ..)
    obtain ⟨s', h', hrun⟩ := ih h₁ fun execute date ho =>
      hexecute execute date (List.mem_cons_of_mem o ho)
    refine ⟨s', h', fun id => ?_⟩
    rw [recordings, changes, List.map_append, List.append_assoc, List.filter_append, hrun id]
    cases hnotes with
    | fed sent hsent hbacklog hdisk hnone =>
      have hwaits : s₁.backlog.filter (·.id = id) = s.backlog.filter (·.id = id) ++
          ((sent.filter fun c => c.trade.id = id).filter Journal.takes).map (·.trade) := by
        simp only [hbacklog, List.filter_append, List.filter_map, List.filter_filter, Bool.and_comm,
          Function.comp_def]
      rw [hnone, hwaits, hsent id, List.filter_append, List.map_append, List.append_assoc]
      rfl
    | recorded execute w ho hengine hbacklog hdisk hw =>
      rw [hw, hengine, Book.change?_self, hbacklog, Option.toList_none, List.nil_append, ← List.append_assoc,
        ← List.filter_append]
      rfl

/-- What holds of the recorded trades and the disk when nothing has been recorded
holds after every run if each record keeps it. -/
theorem run_induction {P : List Recording → Disk → Prop} (h : n.Journaling c j s)
    (hexecute : ∀ execute date, .record execute date ∈ os → j.Harmless execute c.Home)
    (hagrees : ∀ ws d d', (∀ f id, Disk.Agrees (j.Leads f id) d d') → P ws d → P ws d')
    (hrecord : ∀ ws w execute d d', .record execute w.date ∈ os →
      j.record execute w.date w.trade d = (d', w.fault) → P ws d → P (ws ++ [w]) d')
    (hstart : P [] s.disk) (hs' : (n.run os).storage = some s') :
    P (n.recordings os) s'.disk := by
  -- what has been recorded before is carried along
  suffices hrun : ∀ ws, P ws s.disk → P (ws ++ n.recordings os) s'.disk from hrun [] hstart
  clear hstart
  induction os generalizing n s with
  | nil =>
    intro ws hws
    obtain rfl : s = s' := Option.some.inj (h.storage.symm.trans hs')
    exact (List.append_nil ws).symm ▸ hws
  | cons o os ih =>
    intro ws hws
    obtain ⟨s₁, h₁, hnotes⟩ := h.occur o fun execute date ho =>
      hexecute execute date (ho ▸ List.mem_cons_self ..)
    have hrest := ih h₁ (fun execute date ho => hexecute execute date (List.mem_cons_of_mem o ho))
      (fun ws w execute d d' ho => hrecord ws w execute d d' (List.mem_cons_of_mem o ho)) hs'
    rw [recordings, ← List.append_assoc]
    cases hnotes with
    | fed sent hsent hbacklog hdisk hnone =>
      rw [hnone, Option.toList_none, List.append_nil]
      exact hrest ws (hagrees ws _ _ hdisk hws)
    | recorded execute w ho hengine hbacklog hdisk hw =>
      rw [hw, Option.toList_some]
      exact hrest _ (hrecord ws w execute _ _ (ho ▸ List.mem_cons_self ..) hdisk hws)

end Run

end Journaling

end Node

end Mediation
