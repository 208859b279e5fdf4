import Mathlib.Algebra.Ring.Nat
import Mediation.Proofs.Replay.Callers

/-!
# The log of a replay

The log has a report for each step that was taken. The report of an accept step
is made over when its caller is answered, so at any time it says what the caller
finds in the node as it is then: an answer is never taken back, and nobody is left
without one who could still give it.
-/

namespace Mediation

/-! ### What a caller finds -/

namespace Node
variable {n₀ n : Node} {script : PayoutScript} {asked : List Nat} {released i : Nat}

theorem receive_eq_answered {reply : AcceptanceReply} :
    n.receive i = .answered reply ↔ n.replyTo? i = some reply := by
  unfold receive
  cases n.replyTo? i with
  | some r => simp only [Reception.answered.injEq, Option.some.injEq]
  | none =>
    simp only [reduceCtorEq, iff_false]
    split <;> exact fun h => by cases h

theorem find?_refusals_of_not_mem (h : i ∉ n.refusals.map Prod.fst) :
    (n.refusals.find? fun r => r.1 = i) = none := by
  refine List.find?_eq_none.mpr fun r hr heq => h ?_
  exact List.mem_map.mpr ⟨r, hr, of_decide_eq_true heq⟩

theorem receive_of_refused (h : i ∈ n.refusals.map Prod.fst) :
    ∃ e, n.receive i = .answered (.refused e) := by
  obtain ⟨r, hr, hi⟩ := List.mem_map.mp h
  cases hfind : n.refusals.find? fun r => r.1 = i with
  | none => exact absurd (decide_eq_true hi) (List.find?_eq_none.mp hfind r hr)
  | some q => exact ⟨q.2, receive_eq_answered.mpr (by simp only [replyTo?, hfind])⟩

theorem receive_of_replied (hrefused : i ∉ n.refusals.map Prod.fst)
    (h : i ∈ n.engine.replies.map Reply.caller) :
    ∃ error : Option String,
      n.receive i = .answered (error.elim .paid .failed) := by
  obtain ⟨r, hr, hi⟩ := List.mem_map.mp h
  cases hfind : n.engine.replies.find? fun r => r.caller = i with
  | none => exact absurd (decide_eq_true hi) (List.find?_eq_none.mp hfind r hr)
  | some q =>
    refine ⟨q.error, receive_eq_answered.mpr ?_⟩
    simp only [replyTo?, find?_refusals_of_not_mem hrefused, hfind, Option.map_some]
    cases q.error <;> rfl

theorem replyTo?_eq_none (hrefused : i ∉ n.refusals.map Prod.fst)
    (hreplied : i ∉ n.engine.replies.map Reply.caller) : n.replyTo? i = none := by
  have hfind : (n.engine.replies.find? fun r => r.caller = i) = none := by
    refine List.find?_eq_none.mpr fun r hr heq => hreplied ?_
    exact List.mem_map.mpr ⟨r, hr, of_decide_eq_true heq⟩
  simp only [replyTo?, find?_refusals_of_not_mem hrefused, hfind, Option.map_none]

theorem receive_of_waiting (hrefused : i ∉ n.refusals.map Prod.fst)
    (hreplied : i ∉ n.engine.replies.map Reply.caller)
    (h : i ∈ n.queue.filterMap Request.caller? ∨
      i ∈ n.engine.acceptances.values.map PendingAcceptance.caller) : n.receive i = .empty := by
  have hawaits : n.awaits i = true := by
    rw [awaits, Bool.or_eq_true, List.any_eq_true, List.any_eq_true]
    refine h.imp (fun hqueued => ?_) (fun hpending => ?_)
    · obtain ⟨r, hr, hcaller⟩ := List.mem_filterMap.mp hqueued
      exact ⟨r, hr, decide_eq_true hcaller⟩
    · obtain ⟨p, hp, hcaller⟩ := List.mem_map.mp hpending
      exact ⟨p, hp, decide_eq_true hcaller⟩
  rw [receive, replyTo?_eq_none hrefused hreplied]
  simp only [hawaits, if_true]

namespace Accounts

/-- Whoever has asked is in one place only. -/
theorem nodup (h : Accounts n₀ script asked released n) (hasked : asked.Nodup) :
    (n.queue.filterMap Request.caller? ++ n.refusals.map Prod.fst ++ n.engine.callers).Nodup :=
  h.asked.nodup_iff.mp hasked

theorem not_refused (h : Accounts n₀ script asked released n) (hasked : asked.Nodup)
    (hi : i ∈ n.engine.callers) : i ∉ n.refusals.map Prod.fst := fun hrefused =>
  (List.nodup_append'.mp (h.nodup hasked)).2.2 (List.mem_append_right _ hrefused) hi

theorem not_replied (h : Accounts n₀ script asked released n) (hasked : asked.Nodup)
    (hi : i ∈ n.engine.acceptances.values.map PendingAcceptance.caller) :
    i ∉ n.engine.replies.map Reply.caller := fun hreplied =>
  (List.nodup_append'.mp (List.nodup_append'.mp (h.nodup hasked)).2.1).2.2 hreplied hi

theorem receive_ne_closed (h : Accounts n₀ script asked released n) (hi : i ∈ asked) :
    n.receive i ≠ .closed := by
  intro hclosed
  by_cases hrefused : i ∈ n.refusals.map Prod.fst
  · obtain ⟨e, he⟩ := receive_of_refused hrefused
    rw [he] at hclosed
    cases hclosed
  by_cases hreplied : i ∈ n.engine.replies.map Reply.caller
  · obtain ⟨error, he⟩ := receive_of_replied hrefused hreplied
    rw [he] at hclosed
    cases hclosed
  have hplace := h.asked.mem_iff.mp hi
  rw [Engine.callers, List.mem_append, List.mem_append, List.mem_append] at hplace
  rw [receive_of_waiting hrefused hreplied (by tauto)] at hclosed
  cases hclosed

/-- An answer stays what it is. -/
theorem receive_stable (h : Accounts n₀ script asked released n) (hasked : asked.Nodup)
    {reply : AcceptanceReply} (hreply : n₀.receive i = .answered reply) :
    n.receive i = .answered reply := by
  rw [receive_eq_answered] at hreply ⊢
  unfold replyTo? at hreply
  split at hreply
  next r hfind =>
    simp only [replyTo?, h.refusals.find?_eq_some hfind]
    exact hreply
  next hfind =>
    obtain ⟨r, hr, hreply⟩ := Option.map_eq_some_iff.mp hreply
    have hfound := h.replies.find?_eq_some hr
    have hi : i ∈ n.engine.callers := by
      refine List.mem_append_left _ (List.mem_map.mpr ⟨r, List.mem_of_find?_eq_some hfound, ?_⟩)
      exact of_decide_eq_true (List.find?_some hr :)
    simp only [replyTo?, find?_refusals_of_not_mem (h.not_refused hasked hi), hfound,
      Option.map_some]
    exact congrArg some hreply

end Accounts

end Node

/-! ### The reports -/

/-- The report of a step whose caller, if it has one, looks into a node. -/
def reportStep (n : Node) (index : Nat) (s : ScenarioStep × StepOutcome) : StepReport where
  index := index
  action := s.1.action
  outcome := (((s.1.caller? index).bind fun i => (n.receive i).outcome?).getD s.2).text

theorem mem_acceptSteps {steps : List ScenarioStep} {index i : Nat} :
    index + i ∈ acceptSteps index steps ↔
      ∃ s, steps[i]? = some s ∧ s.caller? (index + i) = some (index + i) := by
  induction steps generalizing index i with
  | nil => simp [acceptSteps]
  | cons s steps ih =>
    rw [acceptSteps, List.mem_append, Option.mem_toList]
    cases i with
    | zero =>
      have hlater : index ∉ acceptSteps (index + 1) steps := fun hmem => by
        have hbounds := bounds_of_mem_acceptSteps hmem
        omega
      simp [hlater]
    | succ i =>
      have hnow : s.caller? index ≠ some (index + (i + 1)) := fun hcaller => by
        have hindex := eq_of_caller? hcaller
        omega
      have hindex : index + (i + 1) = index + 1 + i := by omega
      rw [or_iff_right hnow, hindex, ih]
      rfl

/-- An accept step is its own caller. -/
theorem mem_acceptSteps_zero (steps : List ScenarioStep) (i : Nat) :
    i ∈ acceptSteps 0 steps ↔ ∃ s, steps[i]? = some s ∧ s.caller? i = some i := by
  have hmem : 0 + i ∈ acceptSteps 0 steps ↔
      ∃ s, steps[i]? = some s ∧ s.caller? (0 + i) = some (0 + i) := mem_acceptSteps
  rw [Nat.zero_add] at hmem
  exact hmem

namespace ReplayLog
variable {n n' : Node} {log : ReplayLog} {taken : List (ScenarioStep × StepOutcome)}

/-- A report once its caller has looked. -/
def settled (n : Node) (index : Nat) (r : StepReport) : StepReport :=
  { r with outcome := ((n.receive index).outcome?.map StepOutcome.text).getD r.outcome }

theorem settled_settled (n : Node) (index : Nat) (r : StepReport) :
    settled n index (settled n index r) = settled n index r := by
  unfold settled
  cases (n.receive index).outcome? <;> rfl

theorem getElem?_patch (n : Node) (reports : List StepReport) (index i : Nat) :
    (patch n reports index)[i]? =
      reports[i]?.map fun r => if i = index then settled n i r else r := by
  unfold patch settled
  cases houtcome : (n.receive index).outcome? with
  | none =>
    have hsame : (fun r : StepReport => if i = index then
        { r with outcome := ((n.receive i).outcome?.map StepOutcome.text).getD r.outcome }
        else r) = id := by
      funext r
      split
      next heq => rw [heq, houtcome]; rfl
      next => rfl
    rw [hsame, Option.map_id]
    rfl
  | some o =>
    rw [List.getElem?_modify]
    refine congrArg (fun f => f <$> reports[i]?) (funext fun r => ?_)
    by_cases heq : i = index
    · rw [if_pos heq.symm, if_pos heq, heq, houtcome]
      rfl
    · rw [if_neg (Ne.symm heq), if_neg heq]

theorem getElem?_foldl_patch (n : Node) (l : List Nat) (reports : List StepReport) (i : Nat) :
    (l.foldl (patch n) reports)[i]? =
      reports[i]?.map fun r => if i ∈ l then settled n i r else r := by
  induction l generalizing reports with
  | nil => simp
  | cons index l ih =>
    rw [List.foldl_cons, ih, getElem?_patch, Option.map_map]
    refine congrArg (fun f => reports[i]?.map f) (funext fun r => ?_)
    by_cases hnow : i = index <;> by_cases hlater : i ∈ l <;>
      simp [hnow, hlater, settled_settled]

/-- The log has what the callers of some steps find in a node. -/
structure Agrees (n : Node) (taken : List (ScenarioStep × StepOutcome)) (log : ReplayLog) :
    Prop where
  reports : log.reports = taken.mapIdx (reportStep n)
  unsettled : ∀ i, i ∈ log.unsettled ↔
    i ∈ acceptSteps 0 (taken.map Prod.fst) ∧ (n.receive i).outcome? = none

theorem agrees_empty (n : Node) : Agrees n [] empty where
  reports := rfl
  unsettled i := by simp [empty, acceptSteps]

theorem mem_unsettled_record {index i : Nat} {s : ScenarioStep} {o : StepOutcome} :
    i ∈ (log.record index s o).unsettled ↔ i ∈ log.unsettled ∨ s.caller? index = some i := by
  rw [record, List.mem_append, Option.mem_toList]

section Step
variable (h : Agrees n taken log)
  (hstable : ∀ i ∈ acceptSteps 0 (taken.map Prod.fst), ∀ o,
    (n.receive i).outcome? = some o → (n'.receive i).outcome? = some o)
include h

theorem Agrees.lt_of_unsettled {i : Nat} (hi : i ∈ log.unsettled) : i < taken.length := by
  have hbounds := bounds_of_mem_acceptSteps ((h.unsettled i).mp hi).1
  rw [List.length_map] at hbounds
  omega

include hstable in
/-- The report of an earlier step has what its caller finds now. -/
theorem Agrees.settled_earlier {i : Nat} {t : ScenarioStep × StepOutcome}
    (ht : taken[i]? = some t) (s : ScenarioStep) (o : StepOutcome) :
    (if i ∈ (log.record taken.length s o).unsettled then settled n' i (reportStep n i t)
      else reportStep n i t) = reportStep n' i t := by
  obtain ⟨hlt, -⟩ := List.getElem?_eq_some_iff.mp ht
  have hrecord : i ∈ (log.record taken.length s o).unsettled ↔ i ∈ log.unsettled := by
    rw [mem_unsettled_record]
    refine or_iff_left fun hcaller => ?_
    have hindex := eq_of_caller? hcaller
    omega
  have hasked : i ∈ acceptSteps 0 (taken.map Prod.fst) ↔ t.1.caller? i = some i := by
    simp [mem_acceptSteps_zero, ht]
  rw [if_congr hrecord rfl rfl]
  unfold reportStep settled
  cases hcaller : t.1.caller? i with
  | none =>
    have hout : i ∉ log.unsettled := fun hmem => by
      have hsome := hasked.mp ((h.unsettled i).mp hmem).1
      rw [hcaller] at hsome
      cases hsome
    rw [if_neg hout]
    rfl
  | some j =>
    obtain rfl := eq_of_caller? hcaller
    have hmem := hasked.mpr hcaller
    cases hfound : (n.receive j).outcome? with
    | none =>
      rw [if_pos ((h.unsettled j).mpr ⟨hmem, hfound⟩)]
      simp only [Option.bind_some, hfound]
      cases (n'.receive j).outcome? <;> rfl
    | some x =>
      have hout : j ∉ log.unsettled := fun hunsettled => by
        have hnone := ((h.unsettled j).mp hunsettled).2
        rw [hfound] at hnone
        cases hnone
      rw [if_neg hout]
      simp only [Option.bind_some, hfound, hstable j hmem x hfound]

theorem Agrees.settled_last (s : ScenarioStep) (o : StepOutcome) :
    (if taken.length ∈ (log.record taken.length s o).unsettled then
        settled n' taken.length ⟨taken.length, s.action, o.text⟩
      else ⟨taken.length, s.action, o.text⟩) = reportStep n' taken.length (s, o) := by
  have hrecord : taken.length ∈ (log.record taken.length s o).unsettled ↔
      s.caller? taken.length = some taken.length := by
    rw [mem_unsettled_record]
    exact or_iff_right fun hmem => absurd (h.lt_of_unsettled hmem) (Nat.lt_irrefl _)
  rw [if_congr hrecord rfl rfl]
  unfold reportStep settled
  cases hcaller : s.caller? taken.length with
  | none => rfl
  | some j =>
    obtain rfl := eq_of_caller? hcaller
    rw [if_pos rfl, Option.bind_some]
    cases (n'.receive taken.length).outcome? <;> rfl

include hstable in
theorem Agrees.step (s : ScenarioStep) (o : StepOutcome) :
    Agrees n' (taken ++ [(s, o)]) ((log.record taken.length s o).settle n') where
  reports := by
    -- place by place: the steps before, the step itself, and nothing after it
    refine List.ext_getElem? fun i => ?_
    have hlength : log.reports.length = taken.length := by rw [h.reports, List.length_mapIdx]
    rw [settle, getElem?_foldl_patch, List.getElem?_mapIdx, record]
    rcases Nat.lt_trichotomy i taken.length with hlt | rfl | hgt
    · rw [List.getElem?_append_left (hlength ▸ hlt), List.getElem?_append_left hlt, h.reports,
        List.getElem?_mapIdx, Option.map_map, List.getElem?_eq_getElem hlt, Option.map_some,
        Option.map_some]
      exact congrArg some (h.settled_earlier hstable (List.getElem?_eq_getElem hlt) s o)
    · rw [List.getElem?_concat_length, ← hlength, List.getElem?_concat_length, hlength,
        Option.map_some, Option.map_some]
      exact congrArg some (h.settled_last s o)
    · rw [List.getElem?_eq_none (by rw [List.length_append, hlength]; exact hgt),
        List.getElem?_eq_none (by rw [List.length_append]; exact hgt)]
      rfl
  unsettled i := by
    rw [settle, List.mem_filter, mem_unsettled_record, h.unsettled, List.map_append,
      List.map_singleton, acceptSteps_concat, List.mem_append, Option.mem_toList, Nat.zero_add,
      List.length_map, Option.isNone_iff_eq_none]
    have hbefore : i ∈ acceptSteps 0 (taken.map Prod.fst) → (n'.receive i).outcome? = none →
        (n.receive i).outcome? = none := by
      intro hmem hnone
      cases hfound : (n.receive i).outcome? with
      | none => rfl
      | some o =>
        rw [hstable i hmem o hfound] at hnone
        cases hnone
    tauto

end Step

end ReplayLog

/-! ### A replay -/

namespace Scenario
variable (s : Scenario) (stamps : Nat → Stamp) {k : Nat} {step : ScenarioStep}

/-- The node and the log after the first steps. -/
def after (k : Nat) : Node × ReplayLog :=
  runSteps stamps 0 (.start s.engine none) .empty (s.steps.take k)

/-- What a step comes to at once, taken after those before it. -/
def outcomeOf (k : Nat) (step : ScenarioStep) : StepOutcome :=
  (runStep stamps k (s.after stamps k).1 step).2

/-- The first steps, each with what it came to at once. -/
def taken : Nat → List (ScenarioStep × StepOutcome)
  | 0 => []
  | k + 1 => taken k ++
      (s.steps[k]?.map fun step => (step, s.outcomeOf stamps k step)).toList

theorem after_succ (hstep : s.steps[k]? = some step) :
    s.after stamps (k + 1) =
      takeStep stamps k (s.after stamps k).1 (s.after stamps k).2 step := by
  obtain ⟨hk, rfl⟩ := List.getElem?_eq_some_iff.mp hstep
  rw [after, List.take_succ_eq_append_getElem hk, Replay.runSteps_concat,
    List.length_take_of_le (Nat.le_of_lt hk), Nat.zero_add]
  rfl

theorem acceptSteps_succ (hstep : s.steps[k]? = some step) :
    acceptSteps 0 (s.steps.take (k + 1)) =
      acceptSteps 0 (s.steps.take k) ++ (step.caller? k).toList := by
  obtain ⟨hk, rfl⟩ := List.getElem?_eq_some_iff.mp hstep
  rw [List.take_succ_eq_append_getElem hk, acceptSteps_concat,
    List.length_take_of_le (Nat.le_of_lt hk), Nat.zero_add]

theorem taken_succ (hstep : s.steps[k]? = some step) :
    s.taken stamps (k + 1) = s.taken stamps k ++ [(step, s.outcomeOf stamps k step)] := by
  rw [taken, hstep]
  rfl

/-- Each of the steps is taken after those before it. -/
theorem induction_after {P : Nat → Prop} (hzero : P 0)
    (hsucc : ∀ k step, s.steps[k]? = some step → k ≤ s.steps.length → P k → P (k + 1)) :
    ∀ k ≤ s.steps.length, P k := by
  intro k hk
  induction k with
  | zero => exact hzero
  | succ k ih =>
    have hle := Nat.le_of_succ_le hk
    exact hsucc k _ (List.getElem?_eq_getElem hk) hle (ih hle)

theorem taken_steps (k : Nat) : (s.taken stamps k).map Prod.fst = s.steps.take k := by
  induction k with
  | zero => rfl
  | succ k ih =>
    rw [taken, List.map_append, ih, List.take_add_one]
    cases s.steps[k]? <;> rfl

theorem length_taken (hk : k ≤ s.steps.length) : (s.taken stamps k).length = k := by
  have hlength := congrArg List.length (s.taken_steps stamps k)
  rw [List.length_map, List.length_take_of_le hk] at hlength
  exact hlength

/-- After a step nothing is in the queue, and the acceptances that are pending are
those whose completions are held. -/
theorem rest_after (hk : k ≤ s.steps.length) :
    (s.after stamps k).1.queue = [] ∧
      (s.after stamps k).1.engine.acceptances.keys.Perm
        ((s.after stamps k).1.engine.desk.held.map Completion.ticket) := by
  have hreached := Replay.reaches_runSteps s stamps hk
  exact ⟨(hreached.taken rfl).1, hreached.acceptances rfl⟩

theorem accounts_step {n₀ : Node} {script : PayoutScript} {released : Nat}
    (hstep : s.steps[k]? = some step)
    (h : Node.Accounts n₀ script (acceptSteps 0 (s.steps.take k)) released
      (s.after stamps k).1) :
    Node.Accounts n₀ script (acceptSteps 0 (s.steps.take (k + 1)))
      (released + (s.outcomeOf stamps k step).payouts) (s.after stamps (k + 1)).1 := by
  rw [s.after_succ stamps hstep, s.acceptSteps_succ hstep]
  exact h.takeStep stamps k _ step

theorem accounts_after : ∀ k ≤ s.steps.length,
    Node.Accounts (.start s.engine none) s.payout (acceptSteps 0 (s.steps.take k))
      ((s.taken stamps k).map fun t => t.2.payouts).sum (s.after stamps k).1 := by
  refine s.induction_after s.accounts_start fun k step hstep hk h => ?_
  rw [s.taken_succ stamps hstep, List.map_append, List.sum_append]
  exact s.accounts_step stamps hstep h

theorem agrees_after : ∀ k ≤ s.steps.length,
    (s.after stamps k).2.Agrees (s.after stamps k).1 (s.taken stamps k) := by
  refine s.induction_after (ReplayLog.agrees_empty _) fun k step hstep hk h => ?_
  have hbefore := s.accounts_after stamps k hk
  have hnext := s.accounts_step stamps hstep hbefore.restart
  have hstable : ∀ i ∈ acceptSteps 0 ((s.taken stamps k).map Prod.fst), ∀ o,
      ((s.after stamps k).1.receive i).outcome? = some o →
        ((s.after stamps (k + 1)).1.receive i).outcome? = some o := by
    intro i hi o ho
    rw [taken_steps] at hi
    cases hreceive : (s.after stamps k).1.receive i with
    | answered reply =>
      rw [hreceive] at ho
      rw [hnext.receive_stable (nodup_acceptSteps _ _) hreceive]
      exact ho
    | empty =>
      rw [hreceive] at ho
      cases ho
    | closed => exact absurd hreceive (hbefore.receive_ne_closed hi)
  have hagrees := h.step hstable step (s.outcomeOf stamps k step)
  rw [s.length_taken stamps hk, s.after_succ stamps hstep] at hagrees
  rw [s.taken_succ stamps hstep, s.after_succ stamps hstep]
  exact hagrees

end Scenario

end Mediation
