import Mediation.Proofs.Replay.Tasks

/-!
# Every schedule of a replay comes to the same

Only an acceptance raises an outcome, and a step has one at most. It comes to an
empty queue, so that at most barriers are between it and its outcome. The outcome
is in the queue before the first barrier is answered, and is handled before the
second is. Where the node is in the course of a step does not matter: what is in
its queue, and what is still to be sent, leads to the same engine.
-/

namespace Mediation

/-! ### What is left to be handled -/

/-- None of the requests is an acceptance, or only the first may be one and
nothing but barriers comes after it. -/
def Alone (rs : List Request) : Prop :=
  Quiet rs ∨ ∃ r bs, rs = r :: bs ∧ ∀ b ∈ bs, b = .barrier

theorem quiet_of_barriers {bs : List Request} (h : ∀ b ∈ bs, b = .barrier) : Quiet bs :=
  fun b hb => by
    rw [h b hb]
    rfl

theorem Alone.tail {r : Request} {rs : List Request} (h : Alone (r :: rs)) : Quiet rs := by
  rcases h with h | ⟨r', bs, heq, hbs⟩
  · exact h.tail
  · cases heq
    exact quiet_of_barriers hbs

theorem Alone.concat_barrier {rs : List Request} (h : Alone rs) : Alone (rs ++ [.barrier]) := by
  have hbarrier : ∀ b ∈ [Request.barrier], b = .barrier := List.forall_mem_singleton.mpr rfl
  rcases h with h | ⟨r, bs, rfl, hbs⟩
  · exact .inl (h.append (quiet_of_barriers hbarrier))
  · exact .inr ⟨r, bs ++ [.barrier], rfl, List.forall_mem_append.mpr ⟨hbs, hbarrier⟩⟩

theorem Engine.serveAll_barriers (stamp : Stamp) {bs : List Request} (h : ∀ b ∈ bs, b = .barrier)
    (e : Engine) : e.serveAll stamp bs = e := by
  induction bs with
  | nil => rfl
  | cons b bs ih =>
    obtain ⟨rfl, hbs⟩ := List.forall_mem_cons.mp h
    exact ih hbs

/-- The outcomes of a request may be handled behind what is in the queue. -/
theorem Engine.serveAll_next (stamp : Stamp) {e : Engine} (houtcomes : e.outcomes = [])
    {r : Request} {rest rs : List Request} (h : Alone (r :: (rest ++ rs))) :
    ((e.serve stamp r).1.takeOutcomes.1.serveAll stamp
        (rest ++ ((e.serve stamp r).1.takeOutcomes.2.map fun o => .event (.payoutCompleted o)) ++
          rs)).drain stamp =
      (e.serveAll stamp (r :: (rest ++ rs))).drain stamp := by
  cases hacceptance : r.isAcceptance with
  | false =>
    -- no outcome is raised, and the rest of the queue is handled as it was
    have hnone : (e.serve stamp r).1.outcomes = [] :=
      (e.serve_outcomes stamp hacceptance).trans houtcomes
    rw [takeOutcomes_of_nil hnone, List.map_nil, List.append_nil]
    rfl
  | true =>
    -- only barriers come between the acceptance and its outcome
    rcases h with hquiet | ⟨r', bs, heq, hbs⟩
    · rw [hquiet r (List.mem_cons_self ..)] at hacceptance
      cases hacceptance
    · cases heq
      obtain ⟨hrest, hrs⟩ := List.forall_mem_append.mp hbs
      have hserved : e.serveAll stamp (r :: (rest ++ rs)) = (e.serve stamp r).1 :=
        serveAll_barriers stamp hbs _
      rw [hserved, drain_eq _ (e.serve stamp r).1, serveAll_append, serveAll_append,
        serveAll_barriers stamp hrest, serveAll_barriers stamp hrs, drain_of_nil]
      exact serveAll_outcomes stamp (quiet_map (fun _ => rfl) _) _

section Quiet
variable {n : Node} {r : Request} {rest rs : List Request}

theorem Quiet.drop_append {m : Nat} (h : Quiet (rest.drop m)) (hrs : Quiet rs) :
    Quiet ((rest ++ rs).drop m) := by
  rw [List.drop_append]
  exact h.append fun b hb => hrs b (List.mem_of_mem_drop hb)

/-- In a quiet queue, each request that is handled leaves the rest of the queue. -/
theorem Quiet.handleNext_queue (h : Quiet n.queue) (stamp : Stamp) (hqueue : n.queue = r :: rest)
    (houtcomes : n.engine.outcomes = []) :
    (n.handleNext fun _ => stamp).1.queue = rest := by
  have hr : r.isAcceptance = false := h r (hqueue ▸ List.mem_cons_self ..)
  have hnone : (n.engine.serve stamp r).1.outcomes = [] :=
    (n.engine.serve_outcomes stamp hr).trans houtcomes
  rw [Node.handleNext_queue hqueue, Engine.takeOutcomes_of_nil hnone, List.map_nil,
    List.append_nil]

theorem Quiet.handleNext (h : Quiet n.queue) (stamp : Stamp) (hqueue : n.queue = r :: rest)
    (houtcomes : n.engine.outcomes = []) : Quiet (n.handleNext fun _ => stamp).1.queue := by
  rw [h.handleNext_queue stamp hqueue houtcomes]
  rw [hqueue] at h
  exact h.tail

end Quiet

namespace Replay

/-- What is in the queue of a node, and what the step will still put there,
leads to an engine. -/
structure Pending (stamp : Stamp) (goal : Engine) (n : Node) (rs : List Request) : Prop where
  outcomes : n.engine.outcomes = []
  alone : Alone (n.queue ++ rs)
  value : ((n.engine.serveAll stamp (n.queue ++ rs)).drain stamp).forget = goal.forget

section Pending
variable {stamp : Stamp} {goal : Engine} {n : Node} {r : Request} {rest rs : List Request}

theorem Pending.send (h : Pending stamp goal n (r :: rs)) : Pending stamp goal (n.send r) rs := by
  have hqueue : (n.send r).queue ++ rs = n.queue ++ r :: rs := by
    rw [Node.send, List.append_assoc]
    rfl
  refine ⟨h.outcomes, ?_, ?_⟩
  · rw [hqueue]
    exact h.alone
  · rw [hqueue]
    exact h.value

theorem Pending.barrier (h : Pending stamp goal n []) : Pending stamp goal n [.barrier] := by
  have halone := h.alone
  have hvalue := h.value
  rw [List.append_nil] at halone hvalue
  refine ⟨h.outcomes, halone.concat_barrier, ?_⟩
  rw [Engine.serveAll_append]
  exact hvalue

theorem forgets_settle (stamp : Stamp) (rs : List Request) :
    Engine.Forgets fun e => (e.serveAll stamp rs).drain stamp :=
  (Engine.forgets_drain stamp).comp (Engine.forgets_serveAll stamp rs)

/-- Handling a request leaves what the rest leads to. -/
theorem Pending.handle (h : Pending stamp goal n rs) (hqueue : n.queue = r :: rest) :
    Pending stamp goal (n.handleNext fun _ => stamp).1 rs := by
  have halone := h.alone
  have hvalue := h.value
  rw [hqueue] at halone hvalue
  refine ⟨Node.handleNext_outcomes hqueue _, ?_, ?_⟩
  · rw [Node.handleNext_queue hqueue]
    obtain ⟨hrest, hrs⟩ : Quiet rest ∧ Quiet rs := List.forall_mem_append.mp halone.tail
    exact .inl ((hrest.append (quiet_map (fun _ => rfl) _)).append hrs)
  · rw [(forgets_settle stamp _).congr (Node.handleNext_engine hqueue _),
      Node.handleNext_queue hqueue, Engine.serveAll_next stamp h.outcomes halone]
    exact hvalue

end Pending

/-! ### The stages of a step -/

/-- How far a step has come: what is left of it, and what may be in the queue then.
What comes into the queue behind the first barrier raises no outcomes, and
nothing comes behind the second. -/
inductive Stage (stamp : Stamp) (goal : Engine) (n : Node) : List Action → Prop where
  | advancing (millis : Nat) (hqueue : n.queue = [])
      (hpending : Pending stamp goal
        { n with engine := { n.engine with timers := n.engine.timers.advance millis } }
        ((n.engine.timers.dueAfter millis).map fun t => .event (.deferred t.task))) :
      Stage stamp goal n (.advance millis :: closing)
  | releasing (error : Option String) (hqueue : n.queue = [])
      (hpending : Pending stamp goal
        { n with engine := { n.engine with desk := n.engine.desk.release } }
        ((n.engine.desk.released error).map fun o => .event (.payoutCompleted o))) :
      Stage stamp goal n (.release error :: closing)
  | asking (r : Request) (hpending : Pending stamp goal n [r]) :
      Stage stamp goal n (.ask r :: closing)
  | awaiting (number : Nat) (hnumber : number < n.handled + n.queue.length)
      (hpending : Pending stamp goal n []) : Stage stamp goal n (.await number :: closing)
  | sending (rs : List Request) (todo : List Action) (htodo : todo = rs.map .send ++ closing)
      (hpending : Pending stamp goal n rs) : Stage stamp goal n todo
  | first (number : Nat) (hnumber : number < n.handled + n.queue.length)
      (hquiet : Quiet (n.queue.drop (number + 1 - n.handled)))
      (hpending : Pending stamp goal n []) :
      Stage stamp goal n [.await number, .ask .barrier, .report]
  | between (hquiet : Quiet n.queue) (hpending : Pending stamp goal n []) :
      Stage stamp goal n [.ask .barrier, .report]
  | last (number : Nat) (hnumber : n.handled + n.queue.length = number + 1)
      (hquiet : Quiet n.queue) (hpending : Pending stamp goal n []) :
      Stage stamp goal n [.await number, .report]
  | reporting (hqueue : n.queue = []) (hpending : Pending stamp goal n []) :
      Stage stamp goal n [.report]

section Stage
variable {stamp : Stamp} {goal : Engine} {n : Node} {r : Request} {rest : List Request}
  {todo : List Action}

theorem Stage.handle (h : Stage stamp goal n todo) (hqueue : n.queue = r :: rest) :
    Stage stamp goal (n.handleNext fun _ => stamp).1 todo := by
  have hlength : n.queue.length = rest.length + 1 := by rw [hqueue, List.length_cons]
  have hhandled := Node.handleNext_handled hqueue fun _ => stamp
  have hnext := Node.handleNext_queue hqueue fun _ => stamp
  cases h with
  | advancing millis hempty hpending =>
    rw [hempty] at hqueue
    cases hqueue
  | releasing error hempty hpending =>
    rw [hempty] at hqueue
    cases hqueue
  | asking r' hpending => exact .asking r' (hpending.handle hqueue)
  | awaiting number hnumber hpending =>
    refine .awaiting number ?_ (hpending.handle hqueue)
    rw [hhandled, hnext, List.length_append]
    omega
  | sending rs todo htodo hpending => exact .sending rs todo htodo (hpending.handle hqueue)
  | first number hnumber hquiet hpending =>
    refine .first number ?_ ?_ (hpending.handle hqueue)
    · rw [hhandled, hnext, List.length_append]
      omega
    · rw [hhandled]
      by_cases hbefore : number < n.handled
      · -- the barrier has been handled, and the whole queue is quiet
        have hdone : number + 1 - n.handled = 0 := by omega
        have hdone' : number + 1 - (n.handled + 1) = 0 := by omega
        rw [hdone, List.drop_zero] at hquiet
        rw [hdone', List.drop_zero]
        exact hquiet.handleNext stamp hqueue hpending.outcomes
      · have hahead : number + 1 - n.handled = number - n.handled + 1 := by omega
        have hahead' : number + 1 - (n.handled + 1) = number - n.handled := by omega
        rw [hahead, hqueue, List.drop_succ_cons] at hquiet
        rw [hahead', hnext]
        exact hquiet.drop_append (quiet_map (fun _ => rfl) _)
  | between hquiet hpending =>
    exact .between (hquiet.handleNext stamp hqueue hpending.outcomes) (hpending.handle hqueue)
  | last number hnumber hquiet hpending =>
    refine .last number ?_ (hquiet.handleNext stamp hqueue hpending.outcomes)
      (hpending.handle hqueue)
    rw [hhandled, hquiet.handleNext_queue stamp hqueue hpending.outcomes]
    omega
  | reporting hempty hpending =>
    rw [hempty] at hqueue
    cases hqueue

theorem forgets_of_queue_nil (hqueue : n.queue = []) (hpending : Pending stamp goal n []) :
    n.engine.forget = goal.forget := by
  have hvalue := hpending.value
  rw [hqueue, List.append_nil] at hvalue
  rw [← hvalue]
  exact congrArg Engine.forget (Engine.drain_of_nil hpending.outcomes stamp).symm

theorem Pending.single (hqueue : n.queue = []) (houtcomes : n.engine.outcomes = [])
    (hvalue : ((n.engine.serve stamp r).1.drain stamp).forget = goal.forget) :
    Pending stamp goal n [r] := by
  refine ⟨houtcomes, ?_, ?_⟩
  · rw [hqueue]
    exact .inr ⟨r, [], rfl, List.forall_mem_nil _⟩
  · rw [hqueue]
    exact hvalue

/-- The first stage of a step. -/
theorem Stage.ofStep {index : Nat} {s : ScenarioStep} (hqueue : n.queue = [])
    (houtcomes : n.engine.outcomes = [])
    (hgoal : ((n.engine.perform stamp index s).drain stamp).forget = goal.forget) :
    Stage stamp goal n (.ofStep index s :: closing) := by
  cases s with
  | deliver message =>
    rw [Engine.perform, Engine.process_eq_serve] at hgoal
    exact .sending [_] _ rfl (.single hqueue houtcomes hgoal)
  | advance millis =>
    refine .advancing _ hqueue ⟨houtcomes, ?_, ?_⟩
    · rw [hqueue, List.nil_append]
      exact .inl (quiet_map (fun _ => rfl) _)
    · rw [Engine.perform, Engine.foldl_process, List.map_map] at hgoal
      rw [hqueue, List.nil_append]
      exact hgoal
  | openDispute dispute => exact .asking _ (.single hqueue houtcomes hgoal)
  | accept id =>
    rw [Engine.perform, ← Engine.serve_accept _ stamp] at hgoal
    exact .sending [_] _ rfl (.single hqueue houtcomes hgoal)
  | reject id =>
    rw [Engine.perform, ← Engine.serve_reject _ stamp] at hgoal
    exact .asking _ (.single hqueue houtcomes hgoal)
  | releasePayout error =>
    refine .releasing error hqueue ⟨houtcomes, ?_, ?_⟩
    · rw [hqueue, List.nil_append]
      exact .inl (quiet_map (fun _ => rfl) _)
    · rw [Engine.perform, Engine.drain_eq, Engine.takeOutcomes_release houtcomes] at hgoal
      rw [hqueue, List.nil_append, Engine.drain_of_nil]
      · exact hgoal
      · exact (Engine.serveAll_outcomes stamp (quiet_map (fun _ => rfl) _) _).trans houtcomes
  | cleanup => exact .asking _ (.single hqueue houtcomes hgoal)
  | setPhase id phase => exact .asking _ (.single hqueue houtcomes hgoal)
  | setPayoutTx id txid => exact .asking _ (.single hqueue houtcomes hgoal)
  | setPeerSignature id signature => exact .asking _ (.single hqueue houtcomes hgoal)

theorem Stage.ne_nil (h : Stage stamp goal n todo) : todo ≠ [] := by
  cases h with
  | sending rs todo htodo hpending =>
    rw [htodo]
    cases rs <;> exact List.cons_ne_nil _ _
  | _ => exact List.cons_ne_nil _ _

theorem Stage.send (h : Stage stamp goal n (.send r :: todo)) : Stage stamp goal (n.send r) todo := by
  cases h with
  | sending rs todo' htodo hpending =>
    cases rs with
    | nil => cases htodo
    | cons r' rs =>
      cases htodo
      exact .sending rs _ rfl hpending.send

theorem Stage.ask (h : Stage stamp goal n (.ask r :: todo)) :
    Stage stamp goal (n.send r) (.await (n.handled + n.queue.length) :: todo) := by
  have hlength : (n.send r).queue.length = n.queue.length + 1 := by
    rw [Node.send, List.length_append]
    rfl
  cases h with
  | asking r' hpending =>
    refine .awaiting _ ?_ hpending.send
    rw [hlength]
    exact Nat.lt_succ_self _
  | sending rs todo' htodo hpending =>
    cases rs with
    | nil =>
      cases htodo
      refine .first _ ?_ ?_ hpending.barrier.send
      · rw [hlength]
        exact Nat.lt_succ_self _
      · -- nothing is behind the barrier yet
        have hbehind : (n.send .barrier).queue.drop
            (n.handled + n.queue.length + 1 - (n.send .barrier).handled) = [] := by
          have hhandled : (n.send .barrier).handled = n.handled := rfl
          refine List.drop_eq_nil_of_le ?_
          rw [hlength, hhandled]
          omega
        rw [hbehind]
        exact List.forall_mem_nil _
    | cons r' rs => cases htodo
  | between hquiet hpending =>
    refine .last _ ?_ ?_ hpending.barrier.send
    · rw [hlength]
      rfl
    · exact hquiet.append (quiet_of_barriers fun _ => List.mem_singleton.mp)

theorem Stage.await {number : Nat} (h : Stage stamp goal n (.await number :: todo))
    (hnumber : number < n.handled) : Stage stamp goal n todo := by
  cases h with
  | awaiting number' hnumber' hpending => exact .sending [] _ rfl hpending
  | sending rs todo' htodo hpending => cases rs <;> cases htodo
  | first number' hnumber' hquiet hpending =>
    have hdone : number + 1 - n.handled = 0 := by omega
    rw [hdone, List.drop_zero] at hquiet
    exact .between hquiet hpending
  | last number' hnumber' hquiet hpending =>
    have hempty : n.queue.length = 0 := by omega
    exact .reporting (List.length_eq_zero_iff.mp hempty) hpending

theorem Stage.advance {millis : Nat} (h : Stage stamp goal n (.advance millis :: todo)) :
    Stage stamp goal
      { n with engine := { n.engine with timers := n.engine.timers.advance millis } }
      ((n.engine.timers.dueAfter millis).map (fun t => .send (.event (.deferred t.task))) ++
        todo) := by
  cases h with
  | advancing millis' hqueue hpending =>
    refine .sending _ _ ?_ hpending
    rw [List.map_map]
    rfl
  | sending rs todo' htodo hpending => cases rs <;> cases htodo

theorem Stage.release {error : Option String} (h : Stage stamp goal n (.release error :: todo)) :
    Stage stamp goal { n with engine := { n.engine with desk := n.engine.desk.release } }
      ((n.engine.desk.released error).map (fun o => .send (.event (.payoutCompleted o))) ++
        todo) := by
  cases h with
  | releasing error' hqueue hpending =>
    refine .sending _ _ ?_ hpending
    rw [List.map_map]
    rfl
  | sending rs todo' htodo hpending => cases rs <;> cases htodo

theorem Stage.report (h : Stage stamp goal n (.report :: todo)) :
    todo = [] ∧ n.queue = [] ∧ n.engine.outcomes = [] ∧ n.engine.forget = goal.forget := by
  cases h with
  | sending rs todo' htodo hpending => cases rs <;> cases htodo
  | reporting hqueue hpending =>
    exact ⟨rfl, hqueue, hpending.outcomes, forgets_of_queue_nil hqueue hpending⟩

/-- In the course of a step, one of the two tasks can take a turn. -/
theorem Stage.progress (h : Stage stamp goal n todo) (stamps : Nat → Stamp) (index : Nat)
    (rest : List ScenarioStep) : ∃ c, Turn stamps ⟨n, index, todo, rest⟩ c := by
  have hwait : ∀ number todo', number < n.handled + n.queue.length →
      ∃ c, Turn stamps ⟨n, index, .await number :: todo', rest⟩ c := by
    intro number todo' hnumber
    by_cases hqueue : n.queue = []
    · rw [hqueue, List.length_nil, Nat.add_zero] at hnumber
      exact ⟨_, .await n index number todo' rest hnumber⟩
    · exact ⟨_, .handle n index _ rest hqueue⟩
  cases h with
  | advancing millis hqueue hpending => exact ⟨_, .advance ..⟩
  | releasing error hqueue hpending => exact ⟨_, .release ..⟩
  | asking r hpending => exact ⟨_, .ask ..⟩
  | awaiting number hnumber hpending => exact hwait _ _ hnumber
  | sending rs todo htodo hpending =>
    rw [htodo]
    cases rs with
    | nil => exact ⟨_, .ask ..⟩
    | cons r rs => exact ⟨_, .send ..⟩
  | first number hnumber hquiet hpending => exact hwait _ _ hnumber
  | between hquiet hpending => exact ⟨_, .ask ..⟩
  | last number hnumber hquiet hpending => exact hwait _ _ (by omega)
  | reporting hqueue hpending => exact ⟨_, .report ..⟩

end Stage

/-! ### Schedules -/

/-- A replay between two steps, or in the course of one. -/
inductive Sound (stamps : Nat → Stamp) (s : Scenario) (c : State) : Prop where
  | resting (htodo : c.todo = []) (hrest : s.steps.drop c.index = c.rest)
      (hqueue : c.node.queue = []) (houtcomes : c.node.engine.outcomes = [])
      (hvalue : c.node.engine.forget =
        (s.engine.performAll stamps 0 (s.steps.take c.index)).forget)
  | working (step : ScenarioStep) (hrest : s.steps.drop c.index = step :: c.rest)
      (hstage : Stage (stamps c.index)
        (s.engine.performAll stamps 0 (s.steps.take (c.index + 1))) c.node c.todo)

section Sound
variable {stamps : Nat → Stamp} {s : Scenario} {c c' : State}

theorem performAll_take_succ {index : Nat} {step : ScenarioStep} {rest : List ScenarioStep}
    (h : s.steps.drop index = step :: rest) (e : Engine) :
    e.performAll stamps 0 (s.steps.take (index + 1)) =
      ((e.performAll stamps 0 (s.steps.take index)).perform (stamps index) index step).drain
        (stamps index) := by
  have hget : s.steps[index]? = some step := by
    rw [← List.head?_drop, h]
    rfl
  have hlength : (s.steps.take index).length = index := by
    have hlt := (List.getElem?_eq_some_iff.mp hget).1
    rw [List.length_take]
    omega
  rw [List.take_add_one, hget, Option.toList_some, Engine.performAll_concat, hlength,
    Nat.zero_add]

theorem sound_tasks (stamps : Nat → Stamp) (s : Scenario) :
    Sound stamps s ⟨.start s.engine none, 0, [], s.steps⟩ :=
  .resting rfl rfl rfl rfl rfl

theorem Turn.sound (ht : Turn stamps c c') (h : Sound stamps s c) : Sound stamps s c' := by
  cases ht with
  | begin n index step rest =>
    cases h with
    | resting htodo hrest hqueue houtcomes hvalue =>
      refine .working step hrest (.ofStep hqueue houtcomes ?_)
      rw [performAll_take_succ hrest]
      exact ((Engine.forgets_drain _).comp (Engine.forgets_perform _ index step)).congr hvalue
    | working step' hrest hstage => exact absurd rfl hstage.ne_nil
  | send n index r todo rest =>
    cases h with
    | resting htodo => cases htodo
    | working step hrest hstage => exact .working step hrest hstage.send
  | ask n index r todo rest =>
    cases h with
    | resting htodo => cases htodo
    | working step hrest hstage => exact .working step hrest hstage.ask
  | await n index number todo rest hnumber =>
    cases h with
    | resting htodo => cases htodo
    | working step hrest hstage => exact .working step hrest (hstage.await hnumber)
  | advance n index millis todo rest =>
    cases h with
    | resting htodo => cases htodo
    | working step hrest hstage => exact .working step hrest hstage.advance
  | release n index error todo rest =>
    cases h with
    | resting htodo => cases htodo
    | working step hrest hstage => exact .working step hrest hstage.release
  | report n index todo rest =>
    cases h with
    | resting htodo => cases htodo
    | working step hrest hstage =>
      obtain ⟨rfl, hqueue, houtcomes, hvalue⟩ := hstage.report
      refine .resting rfl ?_ hqueue houtcomes hvalue
      have hdrop := congrArg (List.drop 1) hrest
      rw [List.drop_drop] at hdrop
      exact hdrop
  | handle n index todo rest hnonempty =>
    cases h with
    | resting htodo hrest hqueue => exact absurd hqueue hnonempty
    | working step hrest hstage =>
      obtain ⟨r, queue, hqueue⟩ := List.exists_cons_of_ne_nil hnonempty
      exact .working step hrest (hstage.handle hqueue)

end Sound

end Replay

end Mediation
