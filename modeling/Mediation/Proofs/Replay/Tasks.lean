import Mathlib.Logic.Relation
import Mediation.Proofs.Node.Durability
import Mediation.Proofs.Replay.Direct

/-!
# The two tasks of a replay

A replay puts requests into the queue of a node and waits where it needs an
answer; the node handles its queue in a task of its own. The two take their
turns in any order. What the replay finds in one place at one time, such as the
retries that are due, it passes on one by one, while the node may be at work.

The outcomes that a request raises come last in its turn: what is sent while the
request is handled comes into the queue before them, as if it had been sent
before the turn.
-/

namespace Mediation

namespace Replay

/-- What a replay does next. Requests are numbered as they come into the queue,
and the one whose answer is awaited is known by its number. -/
inductive Action where
  | send (r : Request)
  | ask (r : Request)
  | await (number : Nat)
  | advance (millis : Nat)
  | release (error : Option String)
  | report

/-- What a step begins with; its number is the caller of its acceptance. -/
def Action.ofStep (index : Nat) : ScenarioStep → Action
  | .deliver message => .send (.event (.support message))
  | .advance millis => .advance millis.toNat
  | .openDispute dispute => .ask (.openDispute dispute)
  | .accept id => .send (.accept id index)
  | .reject id => .ask (.reject id)
  | .releasePayout error => .release error
  | .cleanup => .ask .cleanup
  | .setPhase id phase => .ask (.update id (.phase phase))
  | .setPayoutTx id txid => .ask (.update id (.payoutTx txid))
  | .setPeerSignature id signature => .ask (.update id (.peerSignature signature))

/-- What every step ends with: two barriers, and its report. -/
def closing : List Action := [.ask .barrier, .ask .barrier, .report]

/-- The node, the number of the step, what is left of it, and the steps after it. -/
structure State where
  node : Node
  index : Nat
  todo : List Action
  rest : List ScenarioStep

/-- The replay has reported all of its steps. -/
def State.Done (c : State) : Prop := c.todo = [] ∧ c.rest = []

/-- One turn of either task. What the node generates in the course of a step is
the stamp of the step. -/
inductive Turn (stamps : Nat → Stamp) : State → State → Prop where
  | begin (n : Node) (index : Nat) (s : ScenarioStep) (rest : List ScenarioStep) :
      Turn stamps ⟨n, index, [], s :: rest⟩ ⟨n, index, .ofStep index s :: closing, rest⟩
  | send (n : Node) (index : Nat) (r : Request) (todo : List Action) (rest : List ScenarioStep) :
      Turn stamps ⟨n, index, .send r :: todo, rest⟩ ⟨n.send r, index, todo, rest⟩
  | ask (n : Node) (index : Nat) (r : Request) (todo : List Action) (rest : List ScenarioStep) :
      Turn stamps ⟨n, index, .ask r :: todo, rest⟩
        ⟨n.send r, index, .await (n.handled + n.queue.length) :: todo, rest⟩
  | await (n : Node) (index number : Nat) (todo : List Action) (rest : List ScenarioStep)
      (h : number < n.handled) :
      Turn stamps ⟨n, index, .await number :: todo, rest⟩ ⟨n, index, todo, rest⟩
  | advance (n : Node) (index millis : Nat) (todo : List Action) (rest : List ScenarioStep) :
      Turn stamps ⟨n, index, .advance millis :: todo, rest⟩
        ⟨{ n with engine := { n.engine with timers := n.engine.timers.advance millis } }, index,
          (n.engine.timers.dueAfter millis).map (fun t => .send (.event (.deferred t.task))) ++ todo,
          rest⟩
  | release (n : Node) (index : Nat) (error : Option String) (todo : List Action)
      (rest : List ScenarioStep) :
      Turn stamps ⟨n, index, .release error :: todo, rest⟩
        ⟨{ n with engine := { n.engine with desk := n.engine.desk.release } }, index,
          (n.engine.desk.released error).map (fun o => .send (.event (.payoutCompleted o))) ++ todo,
          rest⟩
  | report (n : Node) (index : Nat) (todo : List Action) (rest : List ScenarioStep) :
      Turn stamps ⟨n, index, .report :: todo, rest⟩ ⟨n, index + 1, todo, rest⟩
  | handle (n : Node) (index : Nat) (todo : List Action) (rest : List ScenarioStep)
      (h : n.queue ≠ []) :
      Turn stamps ⟨n, index, todo, rest⟩
        ⟨(n.handleNext fun _ => stamps index).1, index, todo, rest⟩

end Replay

/-! ### A node handles a request -/

namespace Node

theorem flushTrades_eq (n : Node) :
    n.flushTrades = { n with
      engine := n.flushTrades.engine
      storage := n.flushTrades.storage } := by
  unfold flushTrades
  split
  · rfl
  · split <;> rfl

theorem flushDisputes_eq (n : Node) :
    n.flushDisputes = { n with
      engine := n.flushDisputes.engine
      storage := n.flushDisputes.storage } := by
  unfold flushDisputes
  split
  · rfl
  · split <;> rfl

theorem flush_eq (n : Node) :
    n.flush = { n with engine := n.flush.engine, storage := n.flush.storage } := by
  rw [flush, flushDisputes_eq, flushTrades_eq]

theorem flush_engine_forget (n : Node) : n.flush.engine.forget = n.engine.forget := by
  rw [flush]
  rcases n.flushTrades_engine with htrades | htrades <;>
    rcases n.flushTrades.flushDisputes_engine with hdisputes | hdisputes <;>
    rw [hdisputes, htrades] <;> rfl

variable {n : Node} {r : Request} {rest : List Request} (hqueue : n.queue = r :: rest)
include hqueue

/-- The rest of the queue is followed by the outcomes that the request led to. -/
theorem handleNext_queue (stamps : Nat → Stamp) :
    (n.handleNext stamps).1.queue =
      rest ++ (n.engine.serve (stamps n.handled) r).1.takeOutcomes.2.map fun o =>
        .event (.payoutCompleted o) := by
  unfold handleNext
  rw [hqueue, serve_eq_finish, finish, flush_eq]
  rfl

theorem handleNext_handled (stamps : Nat → Stamp) :
    (n.handleNext stamps).1.handled = n.handled + 1 := by
  unfold handleNext
  rw [hqueue, serve_eq_finish, finish, flush_eq]
  rfl

theorem handleNext_engine (stamps : Nat → Stamp) :
    (n.handleNext stamps).1.engine.forget =
      (n.engine.serve (stamps n.handled) r).1.takeOutcomes.1.forget := by
  unfold handleNext
  rw [hqueue, serve_eq_finish, finish, flush_engine_forget]
  rfl

theorem handleNext_outcomes (stamps : Nat → Stamp) :
    (n.handleNext stamps).1.engine.outcomes = [] :=
  congrArg Engine.outcomes (handleNext_engine hqueue stamps)

end Node

end Mediation
