import Mediation.Proofs.Replay.Agreement

/-!
# Where the callers of a replay are

Whoever asks for an acceptance is in the queue of the node until the request is
handled. Then the caller is refused, or waits for a payout until it is
answered, and is in no two of these places. The payout exchange is called once
for each caller that was not refused; an exchange that holds its completions
has each of its calls among those held or among those released.
-/

namespace Mediation

/-! ### One request -/

namespace Engine

/-- The callers that were not refused: those that have been answered, and those that wait. -/
def callers (e : Engine) : List Nat :=
  e.replies.map Reply.caller ++ e.acceptances.values.map PendingAcceptance.caller

/-- What an engine with a scripted exchange, which has released some of what it held,
keeps of payouts. -/
structure Tallies (script : PayoutScript) (released : Nat) (e : Engine) : Prop where
  scripted : e.desk.script = script
  mindful : e.desk.forgetful = false
  bound : ∀ k p, e.acceptances.get? k = some p → k ≤ e.tickets
  calls : e.desk.calls.length = e.callers.length
  held : script = .hold → e.desk.calls.length = e.desk.held.length + released
  idle : script ≠ .hold → e.desk.held = [] ∧ released = 0

section Serve
variable {e e' : Engine} {script : PayoutScript} {released caller ticket : Nat} {id : TradeId}

theorem Tallies.new_ticket (h : e.Tallies script released) :
    e.acceptances.get? (e.tickets + 1) = none := by
  refine Option.eq_none_iff_forall_ne_some.mpr fun p hp => ?_
  have hle := h.bound _ p hp
  omega

theorem callers_accept (h : e.Tallies script released)
    (hok : e.accept id caller = .ok (e', ticket)) : e'.callers.Perm (caller :: e.callers) := by
  obtain ⟨rfl, -, hreplies, hacceptances, -⟩ := accept_payouts hok
  have hvalues := (Table.values_insert_perm h.new_ticket ⟨id, caller⟩).map PendingAcceptance.caller
  rw [callers, callers, hreplies, hacceptances]
  exact (hvalues.append_left _).trans List.perm_middle

theorem calls_accept (h : e.Tallies script released)
    (hok : e.accept id caller = .ok (e', ticket)) :
    e'.desk.script = script ∧ e'.desk.forgetful = false ∧
      e'.desk.calls.length = e.desk.calls.length + 1 ∧
      e'.desk.held.length = e.desk.held.length + (if script = .hold then 1 else 0) := by
  obtain ⟨d, r, t, step, -, -, -, rfl, rfl⟩ := accept_ok hok
  have hdesk : ((e.accepting id caller r).askPayout step (acceptedTrade t r)
      ⟨e.tickets + 1, id⟩).desk = e.desk.take step (acceptedTrade t r) ⟨e.tickets + 1, id⟩ := rfl
  rw [hdesk]
  simp only [PayoutDesk.take, h.mindful, Bool.false_eq_true, if_false, h.scripted]
  refine ⟨trivial, trivial, List.length_append, ?_⟩
  split
  · exact List.length_append
  · rfl

theorem callers_receiveOutcome (e : Engine) (o : PayoutOutcome) :
    (e.receiveOutcome o).callers.Perm e.callers := by
  cases hp : e.acceptances.get? o.ticket with
  | none =>
    have hsame : e.receiveOutcome o = e := by
      simp only [receiveOutcome, hp]
    rw [hsame]
  | some p =>
    have hvalues := (Table.values_erase_perm hp).map PendingAcceptance.caller
    rw [receiveOutcome_of_pending hp, callers, callers, List.map_append, List.append_assoc]
    exact hvalues.symm.append_left _

theorem payouts_of_no_caller {r : Request} (hr : r.caller? = none) (e : Engine) (stamp : Stamp) :
    (∃ o p, e.acceptances.get? o.ticket = some p ∧ (e.serve stamp r).1 = e.receiveOutcome o) ∨
      ((e.serve stamp r).1.acceptances = e.acceptances ∧
        (e.serve stamp r).1.tickets = e.tickets ∧ (e.serve stamp r).1.replies = e.replies ∧
        (e.serve stamp r).1.desk = e.desk) := by
  rcases (served e stamp r).payouts with
    ⟨o, p, -, hp, heq⟩ | ⟨id, caller, ticket, rfl, -⟩ | ⟨hacceptances, htickets, hreplies, hdesk, -⟩
  · exact Or.inl ⟨o, p, hp, heq⟩
  · cases hr
  · exact Or.inr ⟨hacceptances, htickets, hreplies, hdesk⟩

/-- Who comes with a request is refused, or is a caller of the engine from then on. -/
theorem callers_serve (h : e.Tallies script released) (stamp : Stamp) (r : Request) :
    (r.caller?.toList ++ e.callers).Perm
      ((refusal? r (e.serve stamp r).2).toList.map Prod.fst ++ (e.serve stamp r).1.callers) := by
  cases hr : r.caller? with
  | none =>
    have hrefusal : refusal? r (e.serve stamp r).2 = none := by
      unfold refusal?
      split
      next => cases hr
      next => rfl
    rw [hrefusal]
    rcases payouts_of_no_caller hr e stamp with
      ⟨o, p, -, heq⟩ | ⟨hacceptances, -, hreplies, -⟩
    · rw [heq]
      exact (callers_receiveOutcome e o).symm
    · have hsame : (e.serve stamp r).1.callers = e.callers := by
        rw [callers, hreplies, hacceptances, callers]
      rw [hsame]
      exact List.Perm.refl _
  | some caller =>
    cases r with
    | accept id caller' =>
      cases hr
      cases hok : e.accept id caller with
      | ok p =>
        simp only [serve, hok, refusal?]
        exact (callers_accept h hok).symm
      | error err =>
        simp only [serve, hok, refusal?]
        exact List.Perm.refl _
    | _ => cases hr

theorem callers_subset_serve (h : e.Tallies script released) (stamp : Stamp) (r : Request) :
    e.callers ⊆ (e.serve stamp r).1.callers := by
  intro i hi
  rcases (served e stamp r).payouts with
    ⟨o, p, -, -, heq⟩ | ⟨id, caller, ticket, -, hok⟩ | ⟨hacceptances, -, hreplies, -⟩
  · rw [heq]
    exact (callers_receiveOutcome e o).mem_iff.mpr hi
  · exact (callers_accept h hok).mem_iff.mpr (List.mem_cons_of_mem _ hi)
  · rw [callers, hreplies, hacceptances]
    exact hi

theorem replies_serve (e : Engine) (stamp : Stamp) (r : Request) :
    e.replies <+: (e.serve stamp r).1.replies := by
  rcases (served e stamp r).payouts with
    ⟨o, p, -, hp, heq⟩ | ⟨id, caller, ticket, -, hok⟩ | ⟨-, -, hreplies, -⟩
  · rw [heq, receiveOutcome_of_pending hp]
    exact List.prefix_append _ _
  · exact ⟨[], (List.append_nil _).trans (accept_payouts hok).2.2.1.symm⟩
  · exact ⟨[], (List.append_nil _).trans hreplies.symm⟩

theorem Tallies.of_desk (h : e.Tallies script released) (hdesk : e'.desk = e.desk)
    (htickets : e'.tickets = e.tickets)
    (hpending : ∀ k p, e'.acceptances.get? k = some p → e.acceptances.get? k = some p)
    (hcallers : e'.callers.Perm e.callers) : e'.Tallies script released where
  scripted := by rw [hdesk, h.scripted]
  mindful := by rw [hdesk, h.mindful]
  bound k p hp := by
    rw [htickets]
    exact h.bound k p (hpending k p hp)
  calls := by rw [hdesk, hcallers.length_eq, h.calls]
  held := by
    rw [hdesk]
    exact h.held
  idle := by
    rw [hdesk]
    exact h.idle

theorem Tallies.serve (h : e.Tallies script released) (stamp : Stamp) (r : Request) :
    (e.serve stamp r).1.Tallies script released := by
  rcases (served e stamp r).payouts with
    ⟨o, p, -, hp, heq⟩ | ⟨id, caller, ticket, -, hok⟩ |
      ⟨hacceptances, htickets, hreplies, hdesk, -⟩
  · rw [heq]
    have hreceived := receiveOutcome_of_pending hp
    refine h.of_desk (by rw [hreceived]) (by rw [hreceived]) ?_ (callers_receiveOutcome e o)
    intro k q hq
    rw [hreceived, Table.get?_erase] at hq
    split at hq
    · cases hq
    · exact hq
  · obtain ⟨hscript, hmindful, hcalls, hheld⟩ := calls_accept h hok
    have hcallers := (callers_accept h hok).length_eq
    obtain ⟨rfl, htickets, -, hacceptances, -⟩ := accept_payouts hok
    refine ⟨hscript, hmindful, ?_, ?_, ?_, ?_⟩
    · intro k q hq
      rw [htickets]
      rw [hacceptances, Table.get?_insert] at hq
      split at hq
      next hk => exact Nat.le_of_eq hk
      next => exact Nat.le_succ_of_le (h.bound k q hq)
    · rw [hcalls, hcallers, h.calls, List.length_cons]
    · intro hscript
      have hbefore := h.held hscript
      rw [if_pos hscript] at hheld
      omega
    · intro hscript
      obtain ⟨hnothing, hreleased⟩ := h.idle hscript
      rw [if_neg hscript, hnothing] at hheld
      exact ⟨List.length_eq_zero_iff.mp hheld, hreleased⟩
  · refine h.of_desk hdesk htickets ?_ ?_
    · intro k q hq
      rw [hacceptances] at hq
      exact hq
    · rw [callers, hreplies, hacceptances, callers]

theorem Tallies.release (h : e.Tallies script released) (error : Option String) :
    (e.release error).Tallies script (released + e.desk.held.length) where
  scripted := h.scripted
  mindful := h.mindful
  bound := h.bound
  calls := h.calls
  held hscript := by
    have hbefore := h.held hscript
    change e.desk.calls.length = 0 + (released + e.desk.held.length)
    omega
  idle hscript := by
    obtain ⟨hnothing, rfl⟩ := h.idle hscript
    rw [hnothing]
    exact ⟨rfl, rfl⟩

end Serve

end Engine

/-! ### A node -/

namespace Node

/-- Where those are who have asked for an acceptance so far, in a node that has come
from another one. -/
structure Accounts (n₀ : Node) (script : PayoutScript) (asked : List Nat) (released : Nat)
    (n : Node) : Prop where
  tallies : n.engine.Tallies script released
  asked : asked.Perm
    (n.queue.filterMap Request.caller? ++ n.refusals.map Prod.fst ++ n.engine.callers)
  refusals : n₀.refusals <+: n.refusals
  replies : n₀.engine.replies <+: n.engine.replies
  callers : n₀.engine.callers ⊆ n.engine.callers

theorem handleNext_refusals {n : Node} {r : Request} {rest : List Request}
    (hqueue : n.queue = r :: rest) (stamps : Nat → Stamp) :
    (n.handleNext stamps).1.refusals =
      n.refusals ++ (refusal? r (n.engine.serve (stamps n.handled) r).2).toList := by
  unfold handleNext
  rw [hqueue, serve_eq_finish, finish, flush_eq]
  rfl

/-- A request changes of the payouts what it changes of them in the engine. -/
theorem handleNext_payouts {n : Node} {r : Request} {rest : List Request}
    (hqueue : n.queue = r :: rest) (stamps : Nat → Stamp) :
    let e := (n.engine.serve (stamps n.handled) r).1
    (n.handleNext stamps).1.engine.replies = e.replies ∧
      (n.handleNext stamps).1.engine.acceptances = e.acceptances ∧
      (n.handleNext stamps).1.engine.tickets = e.tickets ∧
      (n.handleNext stamps).1.engine.desk = e.desk := by
  have hforget := handleNext_engine hqueue stamps
  exact ⟨(congrArg Engine.replies hforget :), (congrArg Engine.acceptances hforget :),
    (congrArg Engine.tickets hforget :), (congrArg Engine.desk hforget :)⟩

theorem callers_cons (r : Request) (rest : List Request) :
    (r :: rest).filterMap Request.caller? =
      r.caller?.toList ++ rest.filterMap Request.caller? := by
  cases hr : r.caller? with
  | none => exact List.filterMap_cons_none hr
  | some c => exact List.filterMap_cons_some hr

theorem callers_of_none {rs : List Request} (h : ∀ r ∈ rs, r.caller? = none) :
    rs.filterMap Request.caller? = [] := List.filterMap_eq_nil_iff.mpr h

namespace Accounts
variable {n₀ n n' : Node} {script : PayoutScript} {asked : List Nat} {released released' : Nat}

theorem restart (h : Accounts n₀ script asked released n) : Accounts n script asked released n where
  tallies := h.tallies
  asked := h.asked
  refusals := List.prefix_refl _
  replies := List.prefix_refl _
  callers := List.Subset.refl _

/-- No caller comes into the queue, and what is kept of acceptances is left alone. -/
theorem keep (h : Accounts n₀ script asked released n)
    (htallies : n'.engine.Tallies script released')
    (hreplies : n'.engine.replies = n.engine.replies)
    (hacceptances : n'.engine.acceptances = n.engine.acceptances)
    (hrefusals : n'.refusals = n.refusals) {rs : List Request} (hqueue : n'.queue = n.queue ++ rs)
    (hrs : ∀ r ∈ rs, r.caller? = none) : Accounts n₀ script asked released' n' := by
  have hcallers : n'.engine.callers = n.engine.callers := by
    rw [Engine.callers, hreplies, hacceptances, Engine.callers]
  refine ⟨htallies, ?_, ?_, ?_, ?_⟩
  · rw [hqueue, List.filterMap_append, callers_of_none hrs, List.append_nil, hrefusals, hcallers]
    exact h.asked
  · rw [hrefusals]
    exact h.refusals
  · rw [hreplies]
    exact h.replies
  · rw [hcallers]
    exact h.callers

theorem send (h : Accounts n₀ script asked released n) (r : Request) :
    Accounts n₀ script (asked ++ r.caller?.toList) released (n.send r) := by
  refine ⟨h.tallies, ?_, h.refusals, h.replies, h.callers⟩
  refine List.perm_iff_count.mpr fun i => ?_
  have hcount := h.asked.count_eq i
  simp only [Node.send, List.filterMap_append, callers_cons, List.filterMap_nil, List.append_nil,
    List.count_append] at *
  omega

theorem handleNext (h : Accounts n₀ script asked released n) (stamps : Nat → Stamp) :
    Accounts n₀ script asked released (n.handleNext stamps).1 := by
  cases hqueue : n.queue with
  | nil =>
    have hsame : (n.handleNext stamps).1 = n := by
      simp only [Node.handleNext, hqueue]
    rw [hsame]
    exact h
  | cons r rest =>
    obtain ⟨hreplies, hacceptances, htickets, hdesk⟩ := handleNext_payouts hqueue stamps
    have hcallers : (n.handleNext stamps).1.engine.callers =
        (n.engine.serve (stamps n.handled) r).1.callers := by
      rw [Engine.callers, hreplies, hacceptances, Engine.callers]
    have hserved := Engine.callers_serve h.tallies (stamps n.handled) r
    refine ⟨?_, ?_, ?_, ?_, ?_⟩
    · refine (h.tallies.serve (stamps n.handled) r).of_desk hdesk htickets ?_ (by rw [hcallers])
      intro k p hp
      rw [hacceptances] at hp
      exact hp
    · -- the caller goes from the queue to the refused ones or to those of the engine
      refine List.perm_iff_count.mpr fun i => ?_
      have hcount := h.asked.count_eq i
      have hmoved := hserved.count_eq i
      rw [hqueue, callers_cons] at hcount
      rw [Node.handleNext_queue hqueue, handleNext_refusals hqueue, hcallers, List.filterMap_append,
        callers_of_none (List.forall_mem_map.mpr fun o _ => rfl)]
      simp only [List.map_append, List.count_append, List.append_nil] at *
      omega
    · rw [handleNext_refusals hqueue]
      exact h.refusals.trans (List.prefix_append _ _)
    · rw [hreplies]
      exact h.replies.trans (Engine.replies_serve _ _ _)
    · rw [hcallers]
      exact fun i hi => Engine.callers_subset_serve h.tallies _ _ (h.callers hi)

theorem handleMany (h : Accounts n₀ script asked released n) (stamps : Nat → Stamp) (k : Nat) :
    Accounts n₀ script asked released (n.handleMany stamps k).1 := by
  induction k generalizing n with
  | zero => exact h
  | succ k ih =>
    rw [Node.handleMany_succ]
    exact ih (h.handleNext stamps)

theorem request (h : Accounts n₀ script asked released n) (stamps : Nat → Stamp) (r : Request) :
    Accounts n₀ script (asked ++ r.caller?.toList) released (n.request stamps r).1 :=
  (h.send r).handleMany stamps _

theorem sync (h : Accounts n₀ script asked released n) (stamps : Nat → Stamp) :
    Accounts n₀ script asked released (n.sync stamps) := by
  have hrequest := h.request stamps .barrier
  have hnone : Request.barrier.caller? = none := rfl
  rw [hnone, Option.toList_none, List.append_nil] at hrequest
  exact hrequest

theorem advance (h : Accounts n₀ script asked released n) (elapsed : Nat) :
    Accounts n₀ script asked released (n.advance elapsed).1 := by
  refine h.keep (h.tallies.of_desk rfl rfl (fun _ _ hp => hp) (List.Perm.refl _)) rfl rfl rfl rfl ?_
  exact List.forall_mem_map.mpr fun t _ => rfl

theorem release (h : Accounts n₀ script asked released n) (error : Option String) :
    Accounts n₀ script asked (released + n.engine.desk.held.length) (n.release error) := by
  have hreleased := h.tallies.release error
  refine h.keep (hreleased.of_desk rfl rfl (fun _ _ hp => hp) (List.Perm.refl _)) rfl rfl rfl rfl ?_
  exact List.forall_mem_map.mpr fun o _ => rfl

end Accounts

end Node

/-! ### The steps of a replay -/

/-- The numbers of the accept steps. -/
def acceptSteps : Nat → List ScenarioStep → List Nat
  | _, [] => []
  | index, s :: rest => (s.caller? index).toList ++ acceptSteps (index + 1) rest

theorem acceptSteps_concat (steps : List ScenarioStep) (s : ScenarioStep) (index : Nat) :
    acceptSteps index (steps ++ [s]) =
      acceptSteps index steps ++ (s.caller? (index + steps.length)).toList := by
  induction steps generalizing index with
  | nil => exact List.append_nil _
  | cons t steps ih =>
    rw [List.cons_append, acceptSteps, acceptSteps, ih, List.append_assoc, List.length_cons,
      Nat.add_right_comm, Nat.add_assoc]

theorem eq_of_caller? {s : ScenarioStep} {index i : Nat} (h : s.caller? index = some i) :
    i = index := by
  cases s with
  | accept id =>
    cases h
    rfl
  | _ => cases h

theorem bounds_of_mem_acceptSteps {steps : List ScenarioStep} {index i : Nat}
    (h : i ∈ acceptSteps index steps) : index ≤ i ∧ i < index + steps.length := by
  induction steps generalizing index with
  | nil => cases h
  | cons s steps ih =>
    rw [List.length_cons]
    rcases List.mem_append.mp h with hnow | hlater
    · obtain rfl := eq_of_caller? (Option.mem_toList.mp hnow)
      omega
    · have hbounds := ih hlater
      omega

theorem nodup_acceptSteps (steps : List ScenarioStep) (index : Nat) :
    (acceptSteps index steps).Nodup := by
  induction steps generalizing index with
  | nil => exact List.nodup_nil
  | cons s steps ih =>
    have hone : (s.caller? index).toList.Nodup := by
      cases s.caller? index with
      | none => exact List.nodup_nil
      | some i => exact List.nodup_singleton i
    refine List.nodup_append'.mpr ⟨hone, ih (index + 1), ?_⟩
    intro i hnow hlater
    obtain rfl := eq_of_caller? (Option.mem_toList.mp hnow)
    have hbounds := bounds_of_mem_acceptSteps hlater
    omega

/-- How many payouts a step has released. -/
def StepOutcome.payouts : StepOutcome → Nat
  | .released count => count
  | _ => 0

namespace Node.Accounts
variable {n₀ n : Node} {script : PayoutScript} {asked : List Nat} {released : Nat}

theorem runStep (h : Accounts n₀ script asked released n) (stamps : Nat → Stamp) (index : Nat)
    (s : ScenarioStep) :
    Accounts n₀ script (asked ++ (s.caller? index).toList)
      (released + (runStep stamps index n s).2.payouts) (runStep stamps index n s).1 := by
  have hask : ∀ r : Request, r.caller? = none →
      Accounts n₀ script (asked ++ []) (released + (runStep.ask stamps n r).2.payouts)
        (runStep.ask stamps n r).1 := by
    intro r hr
    have hrequest := h.request stamps r
    rw [hr] at hrequest
    have hnone : ∀ a : Answer, a.outcome.payouts = 0 := fun a => by cases a <;> rfl
    have hsame : (runStep.ask stamps n r).2.payouts = 0 := hnone _
    rw [hsame]
    exact hrequest
  cases s with
  | deliver message => exact h.send (.event (.support message))
  | advance millis =>
    have hadvance := h.advance millis.toNat
    rw [← List.append_nil asked] at hadvance
    exact hadvance
  | accept id => exact h.send (.accept id index)
  | releasePayout error =>
    have hrelease := h.release error
    rw [← List.append_nil asked] at hrelease
    exact hrelease
  | openDispute dispute => exact hask _ rfl
  | reject id => exact hask _ rfl
  | cleanup => exact hask _ rfl
  | setPhase id phase => exact hask _ rfl
  | setPayoutTx id txid => exact hask _ rfl
  | setPeerSignature id signature => exact hask _ rfl

theorem takeStep (h : Accounts n₀ script asked released n) (stamps : Nat → Stamp) (index : Nat)
    (log : ReplayLog) (s : ScenarioStep) :
    Accounts n₀ script (asked ++ (s.caller? index).toList)
      (released + (Mediation.runStep stamps index n s).2.payouts)
      (Mediation.takeStep stamps index n log s).1 :=
  ((h.runStep stamps index s).sync stamps).sync stamps

end Node.Accounts

/-- Nobody has asked for an acceptance yet. -/
theorem Scenario.accounts_start (s : Scenario) :
    Node.Accounts (.start s.engine none) s.payout [] 0 (.start s.engine none) where
  tallies :=
    { scripted := rfl
      mindful := rfl
      bound := fun _ _ hp => by cases hp
      calls := rfl
      held := fun _ => rfl
      idle := fun _ => ⟨rfl, rfl⟩ }
  asked := List.Perm.refl _
  refusals := List.prefix_refl _
  replies := List.prefix_refl _
  callers := List.Subset.refl _

end Mediation
