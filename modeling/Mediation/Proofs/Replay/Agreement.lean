import Mediation.Proofs.Replay.Schedules
import Mediation.Proofs.Replay.Termination

/-!
# A replay is what its steps come to

Every schedule of a replay ends with all of its steps taken, and the state that it
reports is what the steps come to when they are applied one after the other. The
replay that waits, and lets the node handle its queue only then, is one of the
schedules.
-/

namespace Mediation

/-! ### A replay that waits -/

theorem Engine.serve_congr {r : Request} (hr : r.dispute? = none) (e : Engine)
    (stamp stamp' : Stamp) : e.serve stamp r = e.serve stamp' r := by
  cases r with
  | event event =>
    cases event with
    | support m =>
      cases m with
      | openNewDispute m => cases hr
      | peerOpenedDispute m => cases hr
      | chat m => rfl
      | disputeResult m => rfl
      | unsupported => rfl
    | deferred m => rfl
    | payoutCompleted o => rfl
  | openDispute d => cases hr
  | accept id caller => rfl
  | reject id => rfl
  | cleanup => rfl
  | update id u => rfl
  | barrier => rfl

namespace Node

theorem handleMany_succ (stamps : Nat → Stamp) (k : Nat) (n : Node) :
    (handleMany stamps (k + 1) n).1 = (handleMany stamps k (n.handleNext stamps).1).1 := by
  cases k <;> rfl

/-- None of the requests opens a dispute, so that no stamp is drawn for them. -/
def Plain (rs : List Request) : Prop := ∀ r ∈ rs, r.dispute? = none

/-- A stamp is drawn for none of the requests in the queue but the next. -/
def Draws (stamps : Nat → Stamp) (stamp : Stamp) (n : Node) : Prop :=
  Plain n.queue ∨ (stamps n.handled = stamp ∧ Plain n.queue.tail)

theorem plain_map {α : Type} {f : α → Request} (h : ∀ a, (f a).dispute? = none) (l : List α) :
    Plain (l.map f) := List.forall_mem_map.mpr fun a _ => h a

theorem Plain.append {rs rs' : List Request} (h : Plain rs) (h' : Plain rs') :
    Plain (rs ++ rs') := List.forall_mem_append.mpr ⟨h, h'⟩

theorem Plain.concat_barrier {rs : List Request} (h : Plain rs) : Plain (rs ++ [.barrier]) :=
  h.append (List.forall_mem_singleton.mpr rfl)

variable {n : Node} {r : Request} {queue : List Request} {stamps : Nat → Stamp} {stamp : Stamp}

theorem Draws.handleNext (h : n.Draws stamps stamp) (hqueue : n.queue = r :: queue) :
    n.handleNext (fun _ => stamp) = n.handleNext stamps := by
  simp only [Node.handleNext, hqueue]
  rcases h with hplain | ⟨rfl, -⟩
  · have hr : r.dispute? = none := hplain r (hqueue ▸ List.mem_cons_self ..)
    simp only [Node.serve, Engine.serve_congr hr n.engine stamp (stamps n.handled)]
  · rfl

theorem Draws.plain_handleNext (h : n.Draws stamps stamp) (hqueue : n.queue = r :: queue) :
    Plain (n.handleNext stamps).1.queue := by
  have hrest : Plain queue := by
    rcases h with hplain | ⟨-, hplain⟩
    · exact fun b hb => hplain b (hqueue ▸ List.mem_cons_of_mem _ hb)
    · rw [hqueue] at hplain
      exact hplain
  rw [handleNext_queue hqueue]
  exact hrest.append (plain_map (fun _ => rfl) _)

end Node

namespace Replay
open Relation

abbrev Reaches (stamps : Nat → Stamp) : State → State → Prop := ReflTransGen (Turn stamps)

variable {stamps draws : Nat → Stamp} {n : Node} {index : Nat} {todo : List Action}
  {rest : List ScenarioStep}

theorem turn_handleNext (hqueue : n.queue ≠ []) (hdraws : n.Draws draws (stamps index)) :
    Turn stamps ⟨n, index, todo, rest⟩ ⟨(n.handleNext draws).1, index, todo, rest⟩ := by
  obtain ⟨r, queue, hcons⟩ := List.exists_cons_of_ne_nil hqueue
  rw [← hdraws.handleNext hcons]
  exact .handle n index todo rest hqueue

theorem reaches_handleMany {k : Nat} (hk : k < n.queue.length)
    (hdraws : n.Draws draws (stamps index)) :
    (∀ todo rest, Reaches stamps ⟨n, index, todo, rest⟩
        ⟨(n.handleMany draws (k + 1)).1, index, todo, rest⟩) ∧
      (n.handleMany draws (k + 1)).1.handled = n.handled + (k + 1) ∧
      Node.Plain (n.handleMany draws (k + 1)).1.queue := by
  induction k generalizing n with
  | zero =>
    have hqueue : n.queue ≠ [] := List.ne_nil_of_length_pos hk
    obtain ⟨r, queue, hcons⟩ := List.exists_cons_of_ne_nil hqueue
    exact ⟨fun todo rest => .single (turn_handleNext hqueue hdraws),
      Node.handleNext_handled hcons draws, hdraws.plain_handleNext hcons⟩
  | succ k ih =>
    have hqueue : n.queue ≠ [] := List.ne_nil_of_length_pos (Nat.zero_lt_of_lt hk)
    obtain ⟨r, queue, hcons⟩ := List.exists_cons_of_ne_nil hqueue
    have hk' : k < (n.handleNext draws).1.queue.length := by
      rw [hcons, List.length_cons] at hk
      rw [Node.handleNext_queue hcons, List.length_append]
      omega
    -- a stamp may be drawn for the first request only, and the rest is plain
    obtain ⟨hreaches, hhandled, hplain⟩ := ih hk' (.inl (hdraws.plain_handleNext hcons))
    rw [Node.handleMany_succ]
    refine ⟨fun todo rest => (hreaches todo rest).head (turn_handleNext hqueue hdraws), ?_, hplain⟩
    rw [hhandled, Node.handleNext_handled hcons]
    omega

/-- The replay asks for something and waits until it is answered. -/
theorem reaches_request {r : Request} (hdraws : (n.send r).Draws draws (stamps index)) :
    (∀ todo rest, Reaches stamps ⟨n, index, .ask r :: todo, rest⟩
        ⟨(n.request draws r).1, index, todo, rest⟩) ∧
      Node.Plain (n.request draws r).1.queue := by
  have hlength : n.queue.length < (n.send r).queue.length := by
    rw [Node.send, List.length_append]
    exact Nat.lt_succ_self _
  obtain ⟨hreaches, hhandled, hplain⟩ := reaches_handleMany hlength hdraws
  refine ⟨fun todo rest => ?_, hplain⟩
  refine ((hreaches _ rest).head (.ask n index r todo rest)).tail (.await _ _ _ _ _ ?_)
  have hsent : (n.send r).handled = n.handled := rfl
  rw [hhandled, hsent]
  omega

theorem reaches_sync (hdraws : (n.send .barrier).Draws draws (stamps index)) :
    (∀ todo rest, Reaches stamps ⟨n, index, .ask .barrier :: todo, rest⟩
        ⟨n.sync draws, index, todo, rest⟩) ∧ Node.Plain (n.sync draws).queue :=
  reaches_request hdraws

theorem reaches_sends {α : Type} (f : α → Request) (l : List α) (n : Node) :
    Reaches stamps ⟨n, index, (l.map fun a => .send (f a)) ++ todo, rest⟩
      ⟨{ n with queue := n.queue ++ l.map f }, index, todo, rest⟩ := by
  induction l generalizing n with
  | nil =>
    have hsame : { n with queue := n.queue ++ ([] : List α).map f } = n := by
      rw [List.map_nil, List.append_nil]
    rw [hsame]
    exact .refl
  | cons a l ih =>
    have hrest := ih (n.send (f a))
    have hqueue : (n.send (f a)).queue ++ l.map f = n.queue ++ (a :: l).map f := by
      rw [Node.send, List.append_assoc]
      rfl
    rw [hqueue] at hrest
    exact hrest.head (.send n index (f a) _ rest)

theorem reaches_closing (hdraws : (n.send .barrier).Draws draws (stamps index)) :
    Reaches stamps ⟨n, index, closing, rest⟩
      ⟨(n.sync draws).sync draws, index + 1, [], rest⟩ := by
  obtain ⟨hfirst, hplain⟩ := reaches_sync hdraws
  have hdraws' : ((n.sync draws).send .barrier).Draws draws (stamps index) :=
    .inl hplain.concat_barrier
  exact ((hfirst _ rest).trans ((reaches_sync hdraws').1 _ rest)).tail (.report _ _ _ _)

theorem reaches_runStep {s : ScenarioStep} (hqueue : n.queue = [])
    (houtcomes : n.engine.outcomes = []) (hdraws : draws n.handled = stamps index) :
    Reaches stamps ⟨n, index, [], s :: rest⟩
      ⟨((runStep draws index n s).1.sync draws).sync draws, index + 1, [], rest⟩ := by
  have hsend : ∀ r, Reaches stamps ⟨n, index, .send r :: closing, rest⟩
      ⟨((n.send r).sync draws).sync draws, index + 1, [], rest⟩ := by
    intro r
    refine .head (.send n index r closing rest) (reaches_closing (.inr ⟨hdraws, ?_⟩))
    rw [Node.send, Node.send, hqueue]
    exact Node.Plain.concat_barrier (List.forall_mem_nil _)
  have hask : ∀ r, Reaches stamps ⟨n, index, .ask r :: closing, rest⟩
      ⟨((n.request draws r).1.sync draws).sync draws, index + 1, [], rest⟩ := by
    intro r
    have hdraws' : (n.send r).Draws draws (stamps index) := by
      refine .inr ⟨hdraws, ?_⟩
      rw [Node.send, hqueue]
      exact List.forall_mem_nil _
    obtain ⟨hreaches, hplain⟩ := reaches_request hdraws'
    exact (hreaches closing rest).trans (reaches_closing (.inl hplain.concat_barrier))
  refine .head (.begin n index s rest) ?_
  cases s with
  | deliver message => exact hsend _
  | advance millis =>
    refine .head (.advance n index _ closing rest) ((reaches_sends _ _ _).trans ?_)
    refine reaches_closing (.inl (Node.Plain.concat_barrier ?_))
    rw [hqueue, List.nil_append]
    exact Node.plain_map (fun _ => rfl) _
  | openDispute dispute => exact hask _
  | accept id => exact hsend _
  | reject id => exact hask _
  | releasePayout error =>
    have hrelease : (runStep draws index n (.releasePayout error)).1 =
        { n with
          engine := { n.engine with desk := n.engine.desk.release }
          queue := n.queue ++ (n.engine.desk.released error).map fun o =>
            .event (.payoutCompleted o) } := by
      simp only [runStep, Node.release, Node.collect, Engine.takeOutcomes_release houtcomes]
    rw [hrelease]
    refine .head (.release n index error closing rest) ((reaches_sends _ _ _).trans ?_)
    refine reaches_closing (.inl (Node.Plain.concat_barrier ?_))
    rw [hqueue, List.nil_append]
    exact Node.plain_map (fun _ => rfl) _
  | cleanup => exact hask _
  | setPhase id phase => exact hask _
  | setPayoutTx id txid => exact hask _
  | setPeerSignature id signature => exact hask _

theorem runSteps_cons (draws : Nat → Stamp) (index : Nat) (n : Node) (log : ReplayLog)
    (s : ScenarioStep) (rest : List ScenarioStep) :
    runSteps draws index n log (s :: rest) =
      runSteps draws (index + 1) (takeStep draws index n log s).1
        (takeStep draws index n log s).2 rest := rfl

theorem runSteps_concat (draws : Nat → Stamp) (steps : List ScenarioStep) (s : ScenarioStep)
    (index : Nat) (n : Node) (log : ReplayLog) :
    runSteps draws index n log (steps ++ [s]) =
      takeStep draws (index + steps.length) (runSteps draws index n log steps).1
        (runSteps draws index n log steps).2 s := by
  induction steps generalizing index n log with
  | nil => rfl
  | cons t steps ih =>
    rw [List.cons_append, runSteps_cons, ih, runSteps_cons, List.length_cons]
    have hindex : index + 1 + steps.length = index + (steps.length + 1) := by omega
    rw [hindex]

theorem Reaches.sound {s : Scenario} {c : State}
    (h : Reaches stamps ⟨.start s.engine none, 0, [], s.steps⟩ c) : Sound stamps s c := by
  induction h with
  | refl => exact sound_tasks stamps s
  | tail _ hturn ih => exact hturn.sound ih

end Replay

/-- The stamp that is drawn first in a step of a replay that waits. -/
def Scenario.drawn (s : Scenario) (draws : Nat → Stamp) (index : Nat) : Stamp :=
  draws (runSteps draws 0 (.start s.engine none) .empty (s.steps.take index)).1.handled

namespace Replay

/-- The replay that waits is one of the schedules. -/
theorem reaches_runSteps (s : Scenario) (draws : Nat → Stamp) {k : Nat}
    (hk : k ≤ s.steps.length) :
    Reaches (s.drawn draws) ⟨.start s.engine none, 0, [], s.steps⟩
      ⟨(runSteps draws 0 (.start s.engine none) .empty (s.steps.take k)).1, k, [], s.steps.drop k⟩ := by
  induction k with
  | zero => exact .refl
  | succ k ih =>
    have hreached := ih (Nat.le_of_succ_le hk)
    have hdrop : s.steps.drop k = s.steps[k] :: s.steps.drop (k + 1) :=
      List.drop_eq_getElem_cons hk
    have htake : s.steps.take (k + 1) = s.steps.take k ++ [s.steps[k]] :=
      List.take_succ_eq_append_getElem hk
    have hlength : (s.steps.take k).length = k := List.length_take_of_le (Nat.le_of_succ_le hk)
    -- between two steps the node is at rest, so that the next step starts afresh
    cases hreached.sound with
    | working step hrest hstage => exact absurd rfl hstage.ne_nil
    | resting htodo hrest hqueue houtcomes hvalue =>
      rw [htake, runSteps_concat, hlength, Nat.zero_add]
      rw [hdrop] at hreached
      exact hreached.trans (reaches_runStep hqueue houtcomes rfl)

end Replay

/-! ### Reports -/

/-- What is reported of the state after a scenario. -/
structure Account extends NodeSnapshot where
  acks : List AckMessage
  payoutCalls : List PayoutCall
  deriving DecidableEq

def Engine.account (e : Engine) : Account where
  toNodeSnapshot := e.snapshot
  acks := e.acks
  payoutCalls := e.desk.calls

def ReplayReport.account (r : ReplayReport) : Account where
  trades := r.trades
  disputes := r.disputes
  pendingRetries := r.pendingRetries
  pendingAcceptances := r.pendingAcceptances
  acks := r.acks
  payoutCalls := r.payoutCalls

theorem Engine.account_congr {e e' : Engine} (h : e.forget = e'.forget) :
    e.account = e'.account := by
  have hforget : ∀ e : Engine, e.account = e.forget.account := fun _ => rfl
  rw [hforget e, h, hforget e']

namespace Replay

/-- How many steps have been taken, once the barriers of the last have been answered. -/
def State.taken? (c : State) : Option Nat :=
  match c.todo with
  | [] => some c.index
  | [.report] => some (c.index + 1)
  | _ => none

section Reaches
variable {s : Scenario} {c : State} {k : Nat}
  (h : Reaches stamps ⟨.start s.engine none, 0, [], s.steps⟩ c)
include h

theorem Reaches.taken (hk : c.taken? = some k) :
    c.node.queue = [] ∧ c.node.engine.outcomes = [] ∧
      c.node.engine.forget = (s.engine.performAll stamps 0 (s.steps.take k)).forget := by
  cases h.sound with
  | resting htodo hrest hqueue houtcomes hvalue =>
    rw [State.taken?, htodo] at hk
    cases hk
    exact ⟨hqueue, houtcomes, hvalue⟩
  | working step hrest hstage =>
    unfold State.taken? at hk
    split at hk
    next htodo => exact absurd htodo hstage.ne_nil
    next htodo =>
      rw [htodo] at hstage
      cases hk
      exact hstage.report.2
    · cases hk

/-- Every acceptance is answered but those whose completions are held. -/
theorem Reaches.acceptances (hk : c.taken? = some k) :
    c.node.engine.acceptances.keys.Perm (c.node.engine.desk.held.map Completion.ticket) := by
  obtain ⟨-, -, hvalue⟩ := h.taken hk
  have hacceptances : c.node.engine.acceptances =
      (s.engine.performAll stamps 0 (s.steps.take k)).acceptances :=
    (congrArg Engine.acceptances hvalue :)
  have hdesk : c.node.engine.desk =
      (s.engine.performAll stamps 0 (s.steps.take k)).desk := (congrArg Engine.desk hvalue :)
  rw [hacceptances, hdesk]
  exact (s.settled_performAll stamps (s.steps.take k)).2

theorem Reaches.account_of_done (hdone : c.Done) :
    c.node.engine.account = (s.engine.performAll stamps 0 s.steps).account := by
  obtain ⟨htodo, hrest⟩ := hdone
  cases h.sound with
  | working step hrest hstage => exact absurd htodo hstage.ne_nil
  | resting _ hdrop hqueue houtcomes hvalue =>
    rw [hrest, List.drop_eq_nil_iff] at hdrop
    rw [List.take_of_length_le hdrop] at hvalue
    exact Engine.account_congr hvalue

theorem Reaches.progress : c.Done ∨ ∃ c', Turn stamps c c' := by
  obtain ⟨n, index, todo, rest⟩ := c
  cases h.sound with
  | working step hrest hstage => exact .inr (hstage.progress stamps index rest)
  | resting htodo =>
    cases htodo
    cases rest with
    | nil => exact .inl ⟨rfl, rfl⟩
    | cons step rest => exact .inr ⟨_, .begin n index step rest⟩

end Reaches

/-- However the two tasks of a replay take their turns: once the barriers of a step
have been answered, nothing is in the queue, the acceptances that are pending are
those whose completions are held, and the state is what the steps so far come to
when they are applied one after the other. The replay ends with all of its steps
taken. The replay that waits is one of the schedules, and reports what its steps
come to with the stamps that it draws. -/
theorem schedules_agree (s : Scenario) :
    (∀ stamps c, Reaches stamps ⟨.start s.engine none, 0, [], s.steps⟩ c →
      (∀ k, c.taken? = some k → c.node.queue = [] ∧ c.node.engine.outcomes = [] ∧
        c.node.engine.acceptances.keys.Perm (c.node.engine.desk.held.map Completion.ticket) ∧
        c.node.engine.account = (s.engine.performAll stamps 0 (s.steps.take k)).account) ∧
      (c.Done → c.node.engine.account = (s.engine.performAll stamps 0 s.steps).account) ∧
      (c.Done ∨ ∃ c', Turn stamps c c') ∧ Acc (fun c' c => Turn stamps c c') c) ∧
    ∀ draws, ∃ c, Reaches (s.drawn draws) ⟨.start s.engine none, 0, [], s.steps⟩ c ∧ c.Done ∧
      (s.replay draws).account = c.node.engine.account ∧
      (s.replay draws).account = (s.engine.performAll (s.drawn draws) 0 s.steps).account := by
  refine ⟨fun stamps c h => ⟨fun k hk => ?_, h.account_of_done, h.progress,
    (wellFounded_turn stamps).apply c⟩, fun draws => ?_⟩
  · obtain ⟨hqueue, houtcomes, hvalue⟩ := h.taken hk
    exact ⟨hqueue, houtcomes, h.acceptances hk, Engine.account_congr hvalue⟩
  · have hreached := reaches_runSteps s draws (Nat.le_refl _)
    rw [List.take_length, List.drop_length] at hreached
    exact ⟨_, hreached, ⟨rfl, rfl⟩, rfl, hreached.account_of_done ⟨rfl, rfl⟩⟩

end Replay

namespace Sample

/-- The closed case, and the ruling is accepted. -/
def accepting : Scenario where
  address := .default
  trades := [trade]
  openOffers := []
  disputes := [{ dispute (some forBuyer.result) with isClosed := true }]
  payout := .succeed
  publishesOnFinalize := false
  retryDelay := none
  steps := [.accept tradeId]

def handled (n : Node) : Node := (n.handleNext fun _ => stamp).1

/-- The first barrier is answered, and the outcome of the payout is behind it. -/
def between : Node :=
  handled (handled (((Node.start accepting.engine none).send (.accept tradeId 0)).send .barrier))

def settled : Node := handled (handled (between.send .barrier))

theorem reaches_settled :
    Replay.Reaches (fun _ => stamp) ⟨.start accepting.engine none, 0, [], accepting.steps⟩
      ⟨settled, 1, [], []⟩ := by
  refine .head (.begin _ _ _ _) (.head (.send _ _ _ _ _) (.head (.ask _ _ _ _ _) ?_))
  refine .head (.handle _ _ _ _ (List.cons_ne_nil _ _)) ?_
  refine .head (.handle _ _ _ _ (List.cons_ne_nil _ _)) ?_
  refine .head (.await between _ _ _ _ (by decide +kernel)) (.head (.ask _ _ _ _ _) ?_)
  refine .head (.handle (between.send .barrier) _ _ _ (List.cons_ne_nil _ _)) ?_
  refine .head (.handle _ _ _ _ (List.ne_nil_of_length_pos (by decide +kernel))) ?_
  exact .head (.await settled _ _ _ _ (by decide +kernel)) (.single (.report _ _ _ _))

end Sample

/-- The outcome of an acceptance, raised behind the first barrier, has been handled
once the second is answered. -/
theorem Replay.schedules_agree_outcome_between_barriers :
    Sample.between.queue ≠ [] ∧ Sample.settled.queue = [] ∧
      Sample.settled.engine.acceptances.keys = [] ∧
      Sample.settled.engine.account.payoutCalls =
        [⟨.acceptAndSendSignature, Sample.tradeId⟩] := by
  obtain ⟨htaken, hdone, -⟩ :=
    (Replay.schedules_agree Sample.accepting).1 _ _ Sample.reaches_settled
  obtain ⟨hqueue, -, hacceptances, -⟩ := htaken 1 rfl
  have haccount := hdone ⟨rfl, rfl⟩
  have hheld : Sample.settled.engine.desk.held = [] := by decide +kernel
  rw [hheld, List.map_nil, List.perm_nil] at hacceptances
  refine ⟨List.ne_nil_of_length_pos (by decide +kernel), hqueue, hacceptances, ?_⟩
  rw [haccount]
  decide +kernel

end Mediation
