import Mediation.Proofs.Engine.Conservation
import Mediation.Proofs.Engine.Operations
import Mediation.Proofs.Engine.Sweep
import Mediation.Proofs.Node.Durability

/-!
# A lost completion

A trade is closed when the outcome of its payout comes, or by the sweep. The
two do the same to its case: whoever waits for an outcome has accepted a result,
so that there is a dispute about the trade, and the sweep does not pass it over.
A node that stops before the outcome has come forgets who waited for it, but
the sweep closes the trade once the node is started again.
-/

namespace Mediation

namespace Engine

theorem backed_of_empty {e : Engine} (h : e.acceptances = .empty) : e.Backed := by
  intro k p hp
  rw [h, Table.get?_empty] at hp
  cases hp

section Pending
variable {e : Engine} {o : PayoutOutcome} {p : PendingAcceptance}

/-- The sweep does not pass over a trade whose payout is under way. -/
theorem Backed.caseOf_cleanup (h : e.Backed) (hp : e.acceptances.get? o.ticket = some p) :
    e.cleanup.1.caseOf p.tradeId = (e.caseOf p.tradeId).swept := by
  rw [Engine.caseOf_cleanup, if_pos (h _ p hp)]

/-- The outcome closes the trade as the sweep does. -/
theorem Backed.answered_eq_swept (h : e.Backed) (hp : e.acceptances.get? o.ticket = some p)
    (ho : o.error = none) :
    (e.receiveOutcome o).caseOf p.tradeId = e.cleanup.1.caseOf p.tradeId := by
  rw [h.caseOf_cleanup hp, caseOf_receiveOutcome hp ho, if_pos rfl]

theorem Backed.cleanup_answered (h : e.Backed) (hp : e.acceptances.get? o.ticket = some p)
    (ho : o.error = none) :
    (e.receiveOutcome o).cleanup.1.caseOf p.tradeId = e.cleanup.1.caseOf p.tradeId := by
  rw [Engine.caseOf_cleanup, h.answered_eq_swept hp ho, h.caseOf_cleanup hp, Case.swept_swept,
    ite_self]

theorem Backed.answered_cleanup (h : e.Backed) (hp : e.acceptances.get? o.ticket = some p)
    (ho : o.error = none) :
    (e.cleanup.1.receiveOutcome o).caseOf p.tradeId = e.cleanup.1.caseOf p.tradeId := by
  have hpending : e.cleanup.1.acceptances.get? o.ticket = some p := by
    rw [e.cleanup_frame]
    exact hp
  rw [caseOf_receiveOutcome hpending ho, if_pos rfl, h.caseOf_cleanup hp, Case.swept_swept]

end Pending

end Engine

/-! ### Every pending acceptance is about a stored dispute -/

theorem World.backed_perform {w : World} (h : w.engine.Backed) (o : Operation) :
    (w.perform o).engine.Backed := by
  rcases w.perform_engine o with ⟨r, hserved⟩ | hsame
  · exact hserved.backed h
  · rw [hsame]
    exact h.congr rfl rfl

theorem World.backed_operate {w : World} (h : w.engine.Backed) (os : List Operation) :
    (w.operate os).engine.Backed :=
  operate_induction (P := fun w => w.engine.Backed) (fun _ o hw => backed_perform hw o) os w h

namespace Node
variable {c : NodeConfig} {n : Node}

theorem caseOf_finish (n : Node) (r : Request) (a : Answer) (e : Engine) (id : TradeId) :
    (n.finish r a e).engine.caseOf id = e.caseOf id := by
  rw [finish_engine]
  rfl

theorem Moves.backed {m : Node} (hmove : n.Moves c m) (h : n.engine.Backed) :
    m.engine.Backed := by
  obtain ⟨e, he, hengine⟩ := hmove.engine_eq
  rw [hengine]
  rcases he with rfl | ⟨r, hserved⟩
  · exact h.congr rfl rfl
  · exact (hserved.backed h).congr rfl rfl

theorem Reached.backed (h : Reached c n) : n.engine.Backed := by
  induction h with
  | boot around desk publishes d₀ d n h =>
    obtain ⟨d₁, book, disputes, s, -, -, rfl⟩ := boot_ok h
    exact Engine.backed_of_empty rfl
  | move n m h hmove ih => exact hmove.backed ih

/-- A node with all of its trades and disputes on disk is started again with
every case as it was, and with an empty queue. -/
theorem Reached.boot_stopped (h : Reached c n) {left : Storage} (hleft : n.stop = some left)
    (htrades : n.flush.engine.registry.requests = 0)
    (hdisputes : n.flush.engine.disputes.requests = 0) {d : Disk}
    (hd : Disk.Agrees c.Kept left.disk d) (around : Surroundings) (desk : PayoutDesk)
    (publishes : Bool) :
    ∃ m, Node.boot c around desk publishes d = (d, .ok m) ∧ m.queue = [] ∧
      ∀ id, m.engine.caseOf id = n.engine.caseOf id := by
  obtain ⟨s, hs, hflushed⟩ := durable_flush h.durable
  cases hleft.symm.trans hs
  have hkept := hflushed.agrees (b := left.backlog) hd
  obtain ⟨registry, disputes, storage, hbook, hds, hboot⟩ := boot_of_holds hkept.sound
    (hkept.trades htrades) (hkept.disputes hdisputes) around desk publishes
  refine ⟨_, hboot, rfl, fun id => Engine.caseOf_congr ?_ (hbook.trans n.flush_state.1)⟩
  change disputes.find? id = _
  rw [DisputeStore.find?, DisputeStore.find?, hds, n.flush_state.2]

/-- A request to a node that has nothing to do is served at once. -/
theorem caseOf_request_cleanup {m : Node} (hqueue : m.queue = []) (stamps : Nat → Stamp)
    (id : TradeId) :
    (m.request stamps .cleanup).1.engine.caseOf id = m.engine.cleanup.1.caseOf id := by
  have hserved : (m.request stamps .cleanup).1 =
      Node.finish { m with queue := [] } .cleanup (.closed m.engine.cleanup.2)
        m.engine.cleanup.1 := by
    simp only [request, hqueue, List.length_nil, handleMany, handleNext, send, List.nil_append]
    rfl
  rw [hserved, caseOf_finish]

end Node

/-- In every state that an engine without pending acceptances gets into, the sweep does to the
trade of a pending acceptance what the successful outcome of its payout does, and both do no more
than one of them, in either order. So when a node stops before the outcome is handled, a sweep
after the next start brings the trade to where the outcome would have brought it. -/
theorem Node.cleanup_makes_up_for_outcome :
    (∀ (e : Engine) (os : List Operation) (o : PayoutOutcome) (p : PendingAcceptance),
      e.acceptances = .empty →
      let f := ((World.start e).operate os).engine
      f.acceptances.get? o.ticket = some p → o.error = none →
      (f.receiveOutcome o).caseOf p.tradeId = f.cleanup.1.caseOf p.tradeId ∧
        (f.receiveOutcome o).cleanup.1.caseOf p.tradeId = f.cleanup.1.caseOf p.tradeId ∧
        (f.cleanup.1.receiveOutcome o).caseOf p.tradeId = f.cleanup.1.caseOf p.tradeId) ∧
    ∀ (c : NodeConfig) (n : Node) (o : PayoutOutcome) (p : PendingAcceptance), n.Reached c →
      n.engine.acceptances.get? o.ticket = some p → o.error = none →
      ∀ left, n.stop = some left → n.flush.engine.registry.requests = 0 →
      n.flush.engine.disputes.requests = 0 → ∀ d, Disk.Agrees c.Kept left.disk d →
      ∀ around desk publishes stamps, ∃ m, boot c around desk publishes d = (d, .ok m) ∧
        (m.request stamps .cleanup).1.engine.caseOf p.tradeId =
          (n.engine.receiveOutcome o).caseOf p.tradeId := by
  constructor
  · intro e os o p hempty f hp ho
    have hbacked : f.Backed :=
      World.backed_operate (w := World.start e) (Engine.backed_of_empty hempty) os
    exact ⟨hbacked.answered_eq_swept hp ho, hbacked.cleanup_answered hp ho,
      hbacked.answered_cleanup hp ho⟩
  · intro c n o p hreached hp ho left hleft htrades hdisputes d hd around desk publishes stamps
    obtain ⟨m, hboot, hqueue, hcases⟩ :=
      hreached.boot_stopped hleft htrades hdisputes hd around desk publishes
    have hdisputed : m.engine.disputes.contains p.tradeId = true := by
      have hsame := congrArg Case.dispute (hcases p.tradeId)
      change m.engine.disputes.find? p.tradeId = n.engine.disputes.find? p.tradeId at hsame
      rw [DisputeStore.contains, hsame]
      exact hreached.backed _ p hp
    refine ⟨m, hboot, ?_⟩
    rw [caseOf_request_cleanup hqueue, Engine.caseOf_cleanup, if_pos hdisputed, hcases,
      hreached.backed.answered_eq_swept hp ho, hreached.backed.caseOf_cleanup hp]

namespace Sample

/-- The trade is mediated on the node that has it, its result is accepted, and the payout is published;
the outcome is held. -/
def unansweredNode : Node :=
  let asked := [Request.event (.support (opening none)),
    .event (.support (.disputeResult forBuyer)), .accept tradeId 7,
    .update tradeId (.payoutTx "tx")]
  asked.foldl (fun n r => ((n.send r).handleNext fun _ => stamp).1) filedNode

theorem reached_unansweredNode : Node.Reached .default unansweredNode := by
  have hserved : ∀ n r, Node.Reached .default n →
      Node.Reached .default ((n.send r).handleNext fun _ => stamp).1 := fun n r hn =>
    .move _ _ (.move _ _ hn (.send r)) (.handle fun _ => stamp)
  have hfiled : Node.Reached .default filedNode :=
    .boot Surroundings.none (.ofScript .hold) false filedDisk _ filedNode boot_filedDisk
  exact hserved _ _ (hserved _ _ (hserved _ _ (hserved _ _ hfiled)))

/-- The operations that take an engine there. -/
def unanswered : List Operation :=
  [.act stamp (.ask (.event (.support (opening none)))), .hand forBuyer,
    .act stamp (.ask (.accept tradeId 7)), .act stamp (.ask (.update tradeId (.payoutTx "tx")))]

def unansweredEngine : Engine := ((World.start engine).operate unanswered).engine

end Sample

open Sample in
/-- The outcome was lost with the node, and the sweep after the start closes the trade. -/
theorem Node.cleanup_makes_up_for_lost_outcome :
    (unansweredEngine.cleanup.1.registry.book.closed.get? tradeId).isSome = true ∧
      (unansweredEngine.receiveOutcome ⟨1, tradeId, none⟩).caseOf tradeId =
        unansweredEngine.cleanup.1.caseOf tradeId ∧
      ∃ left m, unansweredNode.stop = some left ∧
        boot .default .none (.ofScript .hold) false left.disk = (left.disk, .ok m) ∧
        ((m.request (fun _ => stamp) .cleanup).1.engine.caseOf tradeId).closed.isSome = true := by
  obtain ⟨hengine, hnode⟩ := cleanup_makes_up_for_outcome
  obtain ⟨hsame, -, -⟩ := hengine Sample.engine unanswered ⟨1, tradeId, none⟩ ⟨tradeId, 7⟩ rfl
    (by decide +kernel) rfl
  have hleft : unansweredNode.stop.isSome = true := by decide +kernel
  obtain ⟨left, hleft⟩ := Option.isSome_iff_exists.mp hleft
  obtain ⟨m, hboot, hrestarted⟩ := hnode .default unansweredNode ⟨1, tradeId, none⟩ ⟨tradeId, 7⟩
    reached_unansweredNode (by decide +kernel) rfl left hleft (by decide +kernel)
    (by decide +kernel) left.disk (.refl _ _) .none (.ofScript .hold) false fun _ => stamp
  refine ⟨by decide +kernel, hsame, left, m, hleft, hboot, ?_⟩
  rw [hrestarted]
  decide +kernel

end Mediation
