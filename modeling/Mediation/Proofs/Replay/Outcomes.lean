import Mathlib.Data.List.Induction
import Mediation.Proofs.Replay.Log
import Mediation.Proofs.Replay.Texts

/-!
# The outcomes of a replay account for its acceptances

The accept steps of a report are those that were refused, those that were answered
and those that are pending. The payout exchange was called for the last two; what
it has released is what it has held of them and holds no longer.
-/

namespace Mediation

/-! ### What a step comes to at once -/

/-- An accept step is pending at first, only a release says what it has released, and what
else a step comes to is an answer or a number of timers. -/
inductive ScenarioStep.Yields : ScenarioStep → StepOutcome → Prop where
  | accept (id : TradeId) : Yields (.accept id) .pending
  | releasePayout (error : Option String) (count : Nat) :
      Yields (.releasePayout error) (.released count)
  | advance (millis : UInt64) (count : Nat) : Yields (.advance millis) (.fired count)
  | answer (s : ScenarioStep) (a : Answer) (haccept : s.action ≠ "accept")
      (hrelease : s.action ≠ "release_payout") : Yields s a.outcome

theorem runStep_yields (stamps : Nat → Stamp) (index : Nat) (n : Node) (s : ScenarioStep) :
    s.Yields (runStep stamps index n s).2 := by
  cases s with
  | accept id => exact .accept id
  | releasePayout error => exact .releasePayout error _
  | advance millis => exact .advance millis _
  | deliver message =>
    exact .answer _ .done (by simp [ScenarioStep.action]) (by simp [ScenarioStep.action])
  | _ => exact .answer _ _ (by simp [ScenarioStep.action]) (by simp [ScenarioStep.action])

theorem Scenario.yields_taken (s : Scenario) (stamps : Nat → Stamp) (k : Nat) :
    ∀ t ∈ s.taken stamps k, t.1.Yields t.2 := by
  induction k with
  | zero => exact List.forall_mem_nil _
  | succ k ih =>
    refine List.forall_mem_append.mpr ⟨ih, fun t ht => ?_⟩
    obtain ⟨step, -, rfl⟩ := Option.map_eq_some_iff.mp (Option.mem_toList.mp ht)
    exact runStep_yields stamps k _ step

namespace ScenarioStep.Yields
variable {s : ScenarioStep} {o : StepOutcome}

theorem ne_pending (h : s.Yields o) (haction : s.action ≠ "accept") : o ≠ .pending := by
  cases h with
  | accept id => exact absurd rfl haction
  | answer _ a => cases a <;> exact fun heq => nomatch heq
  | _ => exact fun heq => nomatch heq

theorem ne_abandoned (h : s.Yields o) : o ≠ .error abandoned := by
  cases h with
  | answer _ a =>
    intro heq
    cases a with
    | refused e => exact e.message_ne_abandoned (StepOutcome.error.inj heq)
    | _ => cases heq
  | _ => exact fun heq => nomatch heq

theorem released_iff (h : s.Yields o) :
    s.action = "release_payout" ↔ ∃ count, o = .released count := by
  cases h with
  | releasePayout error count => exact ⟨fun _ => ⟨count, rfl⟩, fun _ => rfl⟩
  | answer _ a _ hrelease =>
    refine iff_of_false hrelease ?_
    rintro ⟨count, heq⟩
    cases a <;> cases heq
  | _ =>
    refine iff_of_false (by simp [ScenarioStep.action]) ?_
    rintro ⟨count, heq⟩
    cases heq

end ScenarioStep.Yields

/-! ### What a caller is told -/

/-- The outcome of an accept step as its caller finds it. -/
def Node.told (n : Node) (caller : Nat) : StepOutcome := (n.receive caller).outcome?.getD .pending

/-- A caller finds that it still waits, or a reply. -/
theorem Node.told_cases {n : Node} {i : Nat} (h : n.receive i ≠ .closed) :
    n.told i = .pending ∨ ∃ reply : AcceptanceReply, n.told i = reply.outcome := by
  unfold told
  cases hreceive : n.receive i with
  | answered reply => exact .inr ⟨reply, rfl⟩
  | empty => exact .inl rfl
  | closed => exact absurd hreceive h

/-! ### Reports -/

section Reports
variable {n : Node} {taken : List (ScenarioStep × StepOutcome)} {t : ScenarioStep × StepOutcome}

theorem ScenarioStep.Yields.report (h : t.1.Yields t.2) (n : Node) (i : Nat) :
    (t.1.action = "accept" ∧ t.1.caller? i = some i ∧
        (reportStep n i t).outcome = (n.told i).text) ∨
      (t.1.action ≠ "accept" ∧ t.1.caller? i = none ∧
        (reportStep n i t).outcome = t.2.text) := by
  obtain ⟨s, o⟩ := t
  cases s with
  | accept id =>
    cases h with
    | accept => exact .inl ⟨rfl, rfl, rfl⟩
    | answer _ _ haccept => exact absurd rfl haccept
  | _ => exact .inr ⟨by simp [ScenarioStep.action], rfl, rfl⟩

/-- Counting accept steps by their reports is counting the callers by what they are told. -/
theorem countP_reports (htaken : ∀ t ∈ taken, t.1.Yields t.2) (n : Node)
    (q : Nat → String → Bool) :
    (taken.mapIdx (reportStep n)).countP (fun r => r.action = "accept" && q r.index r.outcome) =
      (acceptSteps 0 (taken.map Prod.fst)).countP fun i => q i (n.told i).text := by
  induction taken using List.reverseRecOn with
  | nil => rfl
  | append_singleton taken t ih =>
    obtain ⟨hbefore, hlast⟩ := List.forall_mem_append.mp htaken
    have ht : t.1.Yields t.2 := hlast t List.mem_cons_self
    rw [List.mapIdx_concat, List.map_append, List.map_singleton, acceptSteps_concat,
      List.countP_append, List.countP_append, ih hbefore, Nat.zero_add, List.length_map,
      List.countP_singleton]
    have haction : (reportStep n taken.length t).action = t.1.action := rfl
    have hindex : (reportStep n taken.length t).index = taken.length := rfl
    rcases ht.report n taken.length with ⟨haccept, hcaller, houtcome⟩ | ⟨hother, hcaller, houtcome⟩
    · rw [hcaller, haction, hindex, houtcome, haccept, Option.toList_some, List.countP_singleton]
      rfl
    · rw [hcaller, haction, decide_eq_false hother]
      rfl

/-- The release steps say together how much was released. -/
theorem released_reports (htaken : ∀ t ∈ taken, t.1.Yields t.2) (n : Node) :
    ∃ counts : List Nat,
      ((taken.mapIdx (reportStep n)).filter fun r => r.action = "release_payout").map
          StepReport.outcome = counts.map (fun count => toString count ++ " released") ∧
        counts.sum = (taken.map fun t => t.2.payouts).sum := by
  induction taken using List.reverseRecOn with
  | nil => exact ⟨[], rfl, rfl⟩
  | append_singleton taken t ih =>
    obtain ⟨hbefore, hlast⟩ := List.forall_mem_append.mp htaken
    obtain ⟨counts, hcounts, hsum⟩ := ih hbefore
    have ht : t.1.Yields t.2 := hlast t List.mem_cons_self
    obtain ⟨s, o⟩ := t
    have hother : s.action ≠ "release_payout" → o.payouts = 0 →
        ∃ counts : List Nat,
          (((taken ++ [(s, o)]).mapIdx (reportStep n)).filter fun r =>
              r.action = "release_payout").map StepReport.outcome =
            counts.map (fun count => toString count ++ " released") ∧
          counts.sum = ((taken ++ [(s, o)]).map fun t => t.2.payouts).sum := by
      intro haction hnothing
      refine ⟨counts, ?_, ?_⟩
      · rw [List.mapIdx_concat, List.filter_append, List.map_append, hcounts]
        have hskip : (reportStep n taken.length (s, o)).action ≠ "release_payout" := haction
        rw [List.filter_singleton, decide_eq_false hskip]
        exact List.append_nil _
      · rw [hsum, List.map_append, List.sum_append, List.map_singleton, List.sum_singleton,
          hnothing, Nat.add_zero]
    cases ht with
    | releasePayout error count =>
      refine ⟨counts ++ [count], ?_, ?_⟩
      · rw [List.mapIdx_concat, List.filter_append, List.map_append, hcounts, List.map_append]
        rfl
      · rw [List.sum_append, hsum, List.map_append, List.sum_append]
        rfl
    | accept id => exact hother (by simp [ScenarioStep.action]) rfl
    | advance millis count => exact hother (by simp [ScenarioStep.action]) rfl
    | answer _ a _ hrelease => exact hother hrelease (by cases a <;> rfl)

end Reports

namespace Node.Accounts
variable {n₀ n : Node} {script : PayoutScript} {asked : List Nat} {released : Nat}

/-- With nothing in the queue, those who have asked were refused, or answered, or wait. -/
theorem countP (h : Accounts n₀ script asked released n) (hqueue : n.queue = [])
    (q : Nat → Bool) :
    asked.countP q = (n.refusals.map Prod.fst).countP q +
      ((n.engine.replies.map Reply.caller).countP q +
        (n.engine.acceptances.values.map PendingAcceptance.caller).countP q) := by
  rw [h.asked.countP_eq, hqueue, Engine.callers, List.countP_append, List.countP_append,
    List.countP_append, List.filterMap_nil, List.countP_nil, Nat.zero_add]

theorem told_of_refused {i : Nat} (hi : i ∈ n.refusals.map Prod.fst) :
    ∃ e, n.told i = (AcceptanceReply.refused e).outcome := by
  obtain ⟨e, he⟩ := receive_of_refused hi
  exact ⟨e, by rw [told, he]; rfl⟩

theorem told_of_replied (h : Accounts n₀ script asked released n) (hasked : asked.Nodup) {i : Nat}
    (hi : i ∈ n.engine.replies.map Reply.caller) :
    ∃ error : Option String, n.told i = (error.elim AcceptanceReply.paid .failed).outcome := by
  obtain ⟨error, he⟩ := receive_of_replied (h.not_refused hasked (List.mem_append_left _ hi)) hi
  exact ⟨error, by rw [told, he]; rfl⟩

theorem told_of_waiting (h : Accounts n₀ script asked released n) (hasked : asked.Nodup) {i : Nat}
    (hi : i ∈ n.engine.acceptances.values.map PendingAcceptance.caller) : n.told i = .pending := by
  have hrefused := h.not_refused hasked (List.mem_append_right _ hi)
  rw [told, receive_of_waiting hrefused (h.not_replied hasked hi) (.inr hi)]
  rfl

theorem told_ne_pending (h : Accounts n₀ script asked released n) (hasked : asked.Nodup) {i : Nat}
    (hi : i ∈ n.refusals.map Prod.fst ∨ i ∈ n.engine.replies.map Reply.caller) :
    (n.told i).text ≠ "pending" := by
  have hreply : ∃ reply : AcceptanceReply, n.told i = reply.outcome := by
    rcases hi with hrefused | hreplied
    · obtain ⟨e, he⟩ := told_of_refused hrefused
      exact ⟨_, he⟩
    · obtain ⟨error, he⟩ := h.told_of_replied hasked hreplied
      exact ⟨_, he⟩
  obtain ⟨reply, heq⟩ := hreply
  rw [heq]
  exact fun hpending => reply.outcome_ne_pending (StepOutcome.eq_pending_of_text hpending)

theorem countP_pending (h : Accounts n₀ script asked released n) (hasked : asked.Nodup)
    (hqueue : n.queue = []) :
    (asked.countP fun i => (n.told i).text = "pending") = n.engine.acceptances.size := by
  have hrefused : ((n.refusals.map Prod.fst).countP fun i => (n.told i).text = "pending") = 0 :=
    List.countP_eq_zero.mpr fun i hi hpending =>
      h.told_ne_pending hasked (.inl hi) (of_decide_eq_true hpending)
  have hreplied :
      ((n.engine.replies.map Reply.caller).countP fun i => (n.told i).text = "pending") = 0 :=
    List.countP_eq_zero.mpr fun i hi hpending =>
      h.told_ne_pending hasked (.inr hi) (of_decide_eq_true hpending)
  have hwaiting := List.countP_eq_length (p := fun i => (n.told i).text = "pending")
    (l := n.engine.acceptances.values.map PendingAcceptance.caller)
  rw [h.countP hqueue, hrefused, hreplied, Nat.zero_add, Nat.zero_add, hwaiting.mpr]
  · rw [List.length_map, Table.values, List.length_map]
    rfl
  · intro i hi
    rw [h.told_of_waiting hasked hi]
    rfl

theorem countP_called (h : Accounts n₀ script asked released n) (hasked : asked.Nodup)
    (hqueue : n.queue = []) :
    (asked.countP fun i => payoutCalled (n.told i).text) = n.engine.desk.calls.length := by
  have hrefused : ((n.refusals.map Prod.fst).countP fun i => payoutCalled (n.told i).text) = 0 := by
    refine List.countP_eq_zero.mpr fun i hi hcalled => ?_
    obtain ⟨e, he⟩ := told_of_refused hi
    rw [he, payoutCalled_refused] at hcalled
    cases hcalled
  have hcallers : (n.engine.callers.countP fun i => payoutCalled (n.told i).text) =
      n.engine.callers.length := by
    refine List.countP_eq_length.mpr fun i hi => ?_
    rcases List.mem_append.mp hi with hreplied | hwaiting
    · obtain ⟨error, he⟩ := h.told_of_replied hasked hreplied
      rw [he, payoutCalled_replied]
    · rw [h.told_of_waiting hasked hwaiting]
      rfl
  rw [h.countP hqueue, hrefused, Nat.zero_add, ← List.countP_append, h.tallies.calls]
  exact hcallers

end Node.Accounts

/-! ### Held payouts -/

/-- The payout that a caller waits for is held by the exchange. -/
def Node.holds (n : Node) (caller : Nat) : Bool :=
  n.engine.desk.held.any fun c =>
    (n.engine.acceptances.get? c.ticket).any fun p => p.caller = caller

/-- The payout of an accept step was held at the end of some step. -/
def Scenario.wasHeld (s : Scenario) (stamps : Nat → Stamp) (index : Nat) : Bool :=
  (List.range (s.steps.length + 1)).any fun k => (s.after stamps k).1.holds index

namespace Node
variable {n₀ n : Node} {script : PayoutScript} {asked : List Nat} {released i : Nat}

theorem waiting_of_holds (h : n.holds i = true) :
    i ∈ n.engine.acceptances.values.map PendingAcceptance.caller := by
  obtain ⟨c, -, hc⟩ := List.any_eq_true.mp h
  cases hp : n.engine.acceptances.get? c.ticket with
  | none =>
    rw [hp] at hc
    cases hc
  | some p =>
    rw [hp, Option.any_some] at hc
    exact List.mem_map.mpr ⟨p, (Table.mem_values _ p).mpr ⟨_, hp⟩, of_decide_eq_true hc⟩

theorem holds_of_waiting
    (hrest : n.engine.acceptances.keys.Perm (n.engine.desk.held.map Completion.ticket))
    (hi : i ∈ n.engine.acceptances.values.map PendingAcceptance.caller) : n.holds i = true := by
  obtain ⟨p, hp, hcaller⟩ := List.mem_map.mp hi
  obtain ⟨ticket, hticket⟩ := (Table.mem_values _ p).mp hp
  have hkey : ticket ∈ n.engine.acceptances.keys := (Table.mem_keys _ _).mpr ⟨p, hticket⟩
  obtain ⟨c, hc, rfl⟩ := List.mem_map.mp (hrest.mem_iff.mp hkey)
  refine List.any_eq_true.mpr ⟨c, hc, ?_⟩
  rw [hticket, Option.any_some]
  exact decide_eq_true hcaller

/-- An exchange that holds its completions has released those that were answered. -/
theorem Accounts.length_replies (h : Accounts n₀ .hold asked released n)
    (hrest : n.engine.acceptances.keys.Perm (n.engine.desk.held.map Completion.ticket)) :
    n.engine.replies.length = released := by
  have hcalls := h.tallies.calls
  have hheld := h.tallies.held rfl
  have hkeys := hrest.length_eq
  rw [Engine.callers, List.length_append, List.length_map, List.length_map, Table.values,
    List.length_map] at hcalls
  rw [Table.keys, List.length_map, List.length_map] at hkeys
  omega

end Node

namespace Scenario
variable {s : Scenario} {stamps : Nat → Stamp} {i : Nat}

theorem callers_after : ∀ k ≤ s.steps.length, ∀ j ≤ k,
    (s.after stamps j).1.engine.callers ⊆ (s.after stamps k).1.engine.callers := by
  refine s.induction_after (fun j hj => ?_) fun k step hstep hk ih j hj => ?_
  · obtain rfl := Nat.le_zero.mp hj
    exact List.Subset.refl _
  · rcases Nat.le_succ_iff.mp hj with hle | rfl
    · have hnext := s.accounts_step stamps hstep (s.accounts_after stamps k hk).restart
      exact List.Subset.trans (ih j hle) hnext.callers
    · exact List.Subset.refl _

/-- A caller that an exchange with held completions was called for had its payout held:
at the end of its step it waits, because nothing is released in an accept step. -/
theorem held_of_caller (hscript : s.payout = .hold) : ∀ k ≤ s.steps.length,
    ∀ i ∈ (s.after stamps k).1.engine.callers, ∃ j ≤ k, (s.after stamps j).1.holds i = true := by
  refine s.induction_after (fun i hi => by cases hi) fun k step hstep hk ih i hi => ?_
  by_cases hknown : i ∈ (s.after stamps k).1.engine.callers
  · obtain ⟨j, hj, hheld⟩ := ih i hknown
    exact ⟨j, Nat.le_succ_of_le hj, hheld⟩
  have hbefore := s.accounts_after stamps k hk
  rw [hscript] at hbefore
  have hnext := s.accounts_step stamps hstep hbefore.restart
  obtain ⟨hlt, -⟩ := List.getElem?_eq_some_iff.mp hstep
  obtain ⟨hqueue, hrest⟩ := s.rest_after stamps hk
  have hrest' := (s.rest_after stamps hlt).2
  have hasked := hnext.asked.mem_iff.mpr (List.mem_append_right _ hi)
  rw [s.acceptSteps_succ hstep, List.mem_append, Option.mem_toList] at hasked
  rcases hasked with hearlier | hnow
  · -- it asked in an earlier step and was refused, and still is
    have hplace := hbefore.asked.mem_iff.mp hearlier
    rw [hqueue, List.filterMap_nil, List.nil_append, List.mem_append] at hplace
    have hrefused := hplace.resolve_right hknown
    have hmoved : i ∈ (s.after stamps (k + 1)).1.refusals.map Prod.fst :=
      (hnext.refusals.map Prod.fst).subset hrefused
    exact absurd hmoved (hnext.not_refused (nodup_acceptSteps _ _) hi)
  · rcases List.mem_append.mp hi with hreplied | hwaiting
    · have hnothing : (s.outcomeOf stamps k step).payouts = 0 := by
        cases step with
        | accept id => rfl
        | _ => cases hnow
      have hlength := hnext.length_replies hrest'
      rw [hnothing, ← hbefore.length_replies hrest, Nat.add_zero] at hlength
      have hsame := hnext.replies.eq_of_length hlength.symm
      rw [← hsame] at hreplied
      exact absurd (List.mem_append_left _ hreplied) hknown
    · exact ⟨k + 1, Nat.le_refl _, Node.holds_of_waiting hrest' hwaiting⟩

theorem wasHeld_iff :
    s.wasHeld stamps i = true ↔ ∃ k ≤ s.steps.length, (s.after stamps k).1.holds i = true := by
  rw [wasHeld, List.any_eq_true]
  simp only [List.mem_range, Nat.lt_succ_iff]

/-- Those whose payout was held are callers of the engine from then on. -/
theorem caller_of_wasHeld (h : s.wasHeld stamps i = true) :
    i ∈ (s.after stamps s.steps.length).1.engine.callers := by
  obtain ⟨k, hk, hholds⟩ := wasHeld_iff.mp h
  exact callers_after _ (Nat.le_refl _) k hk
    (List.mem_append_right _ (Node.waiting_of_holds hholds))

/-- An exchange that does not hold its completions has never held any. -/
theorem not_wasHeld (hscript : s.payout ≠ .hold) : s.wasHeld stamps i = false := by
  refine Bool.eq_false_iff.mpr fun h => ?_
  obtain ⟨k, hk, hholds⟩ := wasHeld_iff.mp h
  rw [Node.holds, ((s.accounts_after stamps k hk).tallies.idle hscript).1] at hholds
  cases hholds

/-- What was released are the payouts that were held and are no longer pending. -/
theorem countP_held (s : Scenario) (stamps : Nat → Stamp) :
    ((acceptSteps 0 s.steps).countP fun i => s.wasHeld stamps i &&
        ((s.after stamps s.steps.length).1.told i).text ≠ "pending") =
      ((s.taken stamps s.steps.length).map fun t => t.2.payouts).sum := by
  have haccounts := s.accounts_after stamps _ (Nat.le_refl _)
  rw [List.take_length] at haccounts
  have hasked := nodup_acceptSteps s.steps 0
  obtain ⟨hqueue, hrest⟩ := s.rest_after stamps (Nat.le_refl _)
  by_cases hscript : s.payout = .hold
  · rw [hscript] at haccounts
    have hrefused : (((s.after stamps s.steps.length).1.refusals.map Prod.fst).countP fun i =>
        s.wasHeld stamps i && ((s.after stamps s.steps.length).1.told i).text ≠ "pending") = 0 := by
      refine List.countP_eq_zero.mpr fun i hi hheld => ?_
      have hcaller := caller_of_wasHeld (Bool.and_eq_true_iff.mp hheld).1
      exact haccounts.not_refused hasked hcaller hi
    have hwaiting : ((s.after stamps s.steps.length).1.engine.acceptances.values.map
        PendingAcceptance.caller).countP (fun i => s.wasHeld stamps i &&
          ((s.after stamps s.steps.length).1.told i).text ≠ "pending") = 0 := by
      refine List.countP_eq_zero.mpr fun i hi hheld => ?_
      have htold := of_decide_eq_true (Bool.and_eq_true_iff.mp hheld).2
      rw [haccounts.told_of_waiting hasked hi] at htold
      exact htold rfl
    rw [haccounts.countP hqueue, hrefused, hwaiting, ← haccounts.length_replies hrest,
      Nat.zero_add, Nat.add_zero, ← List.length_map Reply.caller, List.countP_eq_length]
    intro i hi
    obtain ⟨j, hj, hheld⟩ := held_of_caller hscript _ (Nat.le_refl _) i (List.mem_append_left _ hi)
    rw [wasHeld_iff.mpr ⟨j, hj, hheld⟩, decide_eq_true (haccounts.told_ne_pending hasked (.inr hi))]
    rfl
  · rw [(haccounts.tallies.idle hscript).2]
    refine List.countP_eq_zero.mpr fun i hi hheld => ?_
    rw [not_wasHeld hscript] at hheld
    cases hheld

theorem replay_steps (s : Scenario) (stamps : Nat → Stamp) :
    (s.replay stamps).steps =
      (s.taken stamps s.steps.length).mapIdx (reportStep (s.after stamps s.steps.length).1) := by
  have hagrees := s.agrees_after stamps _ (Nat.le_refl _)
  rw [← hagrees.reports, after, List.take_length]
  rfl

theorem replay_pendingAcceptances (s : Scenario) (stamps : Nat → Stamp) :
    (s.replay stamps).pendingAcceptances =
      (s.after stamps s.steps.length).1.engine.acceptances.size := by
  rw [after, List.take_length]
  rfl

theorem replay_payoutCalls (s : Scenario) (stamps : Nat → Stamp) :
    (s.replay stamps).payoutCalls = (s.after stamps s.steps.length).1.engine.desk.calls := by
  rw [after, List.take_length]
  rfl

theorem replay_indices (s : Scenario) (stamps : Nat → Stamp) :
    (s.replay stamps).steps.map StepReport.index = List.range s.steps.length := by
  rw [replay_steps]
  refine List.ext_getElem ?_ fun i hi hi' => ?_
  · rw [List.length_map, List.length_mapIdx, List.length_range,
      s.length_taken stamps (Nat.le_refl _)]
  · rw [List.getElem_map, List.getElem_mapIdx, List.getElem_range, reportStep]

theorem replay_actions (s : Scenario) (stamps : Nat → Stamp) :
    (s.replay stamps).steps.map StepReport.action = s.steps.map ScenarioStep.action := by
  have hactions : (s.replay stamps).steps.map StepReport.action =
      ((s.taken stamps s.steps.length).map Prod.fst).map ScenarioStep.action := by
    rw [replay_steps]
    refine List.ext_getElem ?_ fun i hi hi' => ?_
    · rw [List.length_map, List.length_mapIdx, List.length_map, List.length_map]
    · rw [List.getElem_map, List.getElem_mapIdx, List.getElem_map, List.getElem_map, reportStep]
  rw [hactions, s.taken_steps stamps, List.take_length]

/-- An accept step is pending or has the outcome of a reply; another step has what it came
to at once. -/
theorem mem_replay_steps {r : StepReport} (hr : r ∈ (s.replay stamps).steps) :
    (r.action = "accept" ∧ (r.outcome = StepOutcome.pending.text ∨
      ∃ reply : AcceptanceReply, r.outcome = reply.outcome.text)) ∨
    ∃ (step : ScenarioStep) (o : StepOutcome), step.Yields o ∧ step.action ≠ "accept" ∧
      r.action = step.action ∧ r.outcome = o.text := by
  rw [replay_steps] at hr
  obtain ⟨i, hi, rfl⟩ := List.mem_mapIdx.mp hr
  have ht := s.yields_taken stamps _ _ (List.getElem_mem hi)
  rcases ht.report (s.after stamps s.steps.length).1 i with
    ⟨haction, hcaller, houtcome⟩ | ⟨haction, -, houtcome⟩
  · refine .inl ⟨haction, ?_⟩
    have hasked : i ∈ acceptSteps 0 (s.steps.take s.steps.length) := by
      rw [← s.taken_steps stamps]
      refine (mem_acceptSteps_zero _ _).mpr ⟨_, ?_, hcaller⟩
      rw [List.getElem?_map, List.getElem?_eq_getElem hi, Option.map_some]
    have haccounts := s.accounts_after stamps _ (Nat.le_refl _)
    rw [houtcome]
    rcases Node.told_cases (haccounts.receive_ne_closed hasked) with hpending | ⟨reply, hreply⟩
    · exact .inl (congrArg StepOutcome.text hpending)
    · exact .inr ⟨reply, congrArg StepOutcome.text hreply⟩
  · exact .inr ⟨_, _, ht, haction, rfl, houtcome⟩

theorem accept_of_pending {r : StepReport} (hr : r ∈ (s.replay stamps).steps)
    (hpending : r.outcome = "pending") : r.action = "accept" := by
  rcases mem_replay_steps hr with ⟨haction, -⟩ | ⟨step, o, hyields, haction, -, houtcome⟩
  · exact haction
  · rw [houtcome] at hpending
    exact absurd (StepOutcome.eq_pending_of_text hpending) (hyields.ne_pending haction)

theorem not_abandoned {r : StepReport} (hr : r ∈ (s.replay stamps).steps) :
    r.outcome ≠ "error: abandoned" := by
  have htext : "error: abandoned" = "error: " ++ abandoned := rfl
  rw [htext]
  intro heq
  rcases mem_replay_steps hr with
    ⟨-, hpending | ⟨reply, hreply⟩⟩ | ⟨step, o, hyields, -, -, houtcome⟩
  · rw [hpending] at heq
    cases StepOutcome.eq_error_of_text heq
  · rw [hreply] at heq
    exact reply.outcome_ne_abandoned (StepOutcome.eq_error_of_text heq)
  · rw [houtcome] at heq
    exact hyields.ne_abandoned (StepOutcome.eq_error_of_text heq)

theorem release_iff {r : StepReport} (hr : r ∈ (s.replay stamps).steps) :
    r.action = "release_payout" ↔ ∃ count : Nat, r.outcome = toString count ++ " released" := by
  rcases mem_replay_steps hr with ⟨haction, htold⟩ | ⟨step, o, hyields, -, haction, houtcome⟩
  · rw [haction]
    refine iff_of_false (by decide) ?_
    rintro ⟨count, heq⟩
    rcases htold with hpending | ⟨reply, hreply⟩
    · rw [hpending] at heq
      obtain ⟨c, hc⟩ := StepOutcome.eq_released_of_text heq
      cases hc
    · rw [hreply] at heq
      obtain ⟨c, hc⟩ := StepOutcome.eq_released_of_text heq
      exact reply.outcome_ne_released c hc
  · rw [haction, hyields.released_iff, houtcome]
    refine ⟨?_, fun ⟨count, heq⟩ => StepOutcome.eq_released_of_text heq⟩
    rintro ⟨count, rfl⟩
    exact ⟨count, rfl⟩

/-- The report of a replay has one entry for each step. The pending ones are accept steps,
as many as there are pending acceptances; the payout exchange was called once for each
accept step that is paid, pending, or has a payout that failed; no caller is abandoned; and
the releases say together how many of the payouts that were held are no longer pending. -/
theorem replay_accounts_for_acceptances (s : Scenario) (stamps : Nat → Stamp) :
    (s.replay stamps).steps.map StepReport.index = List.range s.steps.length ∧
    (s.replay stamps).steps.map StepReport.action = s.steps.map ScenarioStep.action ∧
    (∀ r ∈ (s.replay stamps).steps, r.outcome = "pending" → r.action = "accept") ∧
    ((s.replay stamps).steps.countP fun r => r.outcome = "pending") =
      (s.replay stamps).pendingAcceptances ∧
    (s.replay stamps).payoutCalls.length =
      ((s.replay stamps).steps.countP fun r => r.action = "accept" && payoutCalled r.outcome) ∧
    (∀ r ∈ (s.replay stamps).steps, r.outcome ≠ "error: abandoned") ∧
    (∀ r ∈ (s.replay stamps).steps,
      r.action = "release_payout" ↔ ∃ count : Nat, r.outcome = toString count ++ " released") ∧
    ∃ counts : List Nat,
      ((s.replay stamps).steps.filter fun r => r.action = "release_payout").map
          StepReport.outcome = counts.map (fun count => toString count ++ " released") ∧
        counts.sum = (s.replay stamps).steps.countP fun r =>
          r.action = "accept" && (s.wasHeld stamps r.index && r.outcome ≠ "pending") := by
  have htaken := s.yields_taken stamps s.steps.length
  have haccounts := s.accounts_after stamps _ (Nat.le_refl _)
  rw [List.take_length] at haccounts
  have hasked := nodup_acceptSteps s.steps 0
  have hqueue := (s.rest_after stamps (Nat.le_refl _)).1
  have hsteps : (s.taken stamps s.steps.length).map Prod.fst = s.steps := by
    rw [s.taken_steps stamps, List.take_length]
  have hcount := countP_reports htaken (s.after stamps s.steps.length).1
  rw [hsteps, ← s.replay_steps stamps] at hcount
  refine ⟨s.replay_indices stamps, s.replay_actions stamps, fun r => accept_of_pending, ?_, ?_,
    fun r => not_abandoned, fun r => release_iff, ?_⟩
  · have haccept : ∀ r ∈ (s.replay stamps).steps, decide (r.outcome = "pending") = true ↔
        (r.action = "accept" && decide (r.outcome = "pending")) = true := by
      intro r hr
      rw [Bool.and_eq_true, decide_eq_true_iff, decide_eq_true_iff]
      exact ⟨fun h => ⟨accept_of_pending hr h, h⟩, And.right⟩
    rw [List.countP_congr haccept, hcount fun _ o => o = "pending", replay_pendingAcceptances,
      haccounts.countP_pending hasked hqueue]
  · rw [hcount fun _ o => payoutCalled o, replay_payoutCalls,
      haccounts.countP_called hasked hqueue]
  · obtain ⟨counts, hcounts, hsum⟩ := released_reports htaken (s.after stamps s.steps.length).1
    rw [← s.replay_steps stamps] at hcounts
    refine ⟨counts, hcounts, ?_⟩
    rw [hsum, ← s.countP_held stamps]
    exact (hcount fun i o => s.wasHeld stamps i && o ≠ "pending").symm

end Scenario

namespace Sample

/-- The ruling is accepted, and the payout is held until a later step. -/
def holding : Scenario :=
  { accepting with
    payout := .hold
    steps := [.accept tradeId, .releasePayout (some "refused"), .accept tradeId] }

example : (holding.replay fun _ => stamp).steps.map StepReport.outcome =
    ["error: mediated payout failed: refused", "1 released", "pending"] := by decide +kernel

end Sample

end Mediation
