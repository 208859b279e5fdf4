import Mediation.Proofs.Engine.Acceptances
import Mediation.Proofs.Engine.Bookkeeping
import Mediation.Replay.Basic

/-!
# Scenarios without a node

The steps of a scenario are applied to an engine one after the other, without a
queue: the retries that become due are handled in order, and after each step
the outcomes of payouts.
-/

namespace Mediation

def Request.isAcceptance : Request → Bool
  | .accept _ _ => true
  | _ => false

/-- None of the requests is an acceptance. -/
def Quiet (rs : List Request) : Prop := ∀ r ∈ rs, r.isAcceptance = false

theorem Quiet.append {rs rs' : List Request} (h : Quiet rs) (h' : Quiet rs') :
    Quiet (rs ++ rs') := List.forall_mem_append.mpr ⟨h, h'⟩

theorem Quiet.tail {r : Request} {rs : List Request} (h : Quiet (r :: rs)) : Quiet rs :=
  (List.forall_mem_cons.mp h).2

theorem quiet_map {α : Type} {f : α → Request} (h : ∀ a, (f a).isAcceptance = false)
    (l : List α) : Quiet (l.map f) := List.forall_mem_map.mpr fun a _ => h a

namespace Engine

/-- Handles an event; one that is refused changes nothing. -/
def process (stamp : Stamp) (e : Engine) (event : Event) : Engine :=
  (e.handle stamp event).toOption.getD e

/-- Applies a step; the number of the step is the caller of its acceptance. -/
def perform (stamp : Stamp) (index : Nat) (e : Engine) : ScenarioStep → Engine
  | .deliver message => e.process stamp (.support message)
  | .advance millis =>
    ((e.timers.dueAfter millis.toNat).map fun t => Event.deferred t.task).foldl (process stamp)
      { e with timers := e.timers.advance millis.toNat }
  | .openDispute dispute => (e.openDispute stamp dispute).1
  | .accept id => ((e.accept id index).toOption.map Prod.fst).getD e
  | .reject id => (e.reject id).toOption.getD e
  | .releasePayout error => e.release error
  | .cleanup => e.cleanup.1
  | .setPhase id phase => (e.change id (.phase phase)).1
  | .setPayoutTx id txid => (e.change id (.payoutTx txid)).1
  | .setPeerSignature id signature => (e.change id (.peerSignature signature)).1

/-- Handles the outcomes that wait. -/
def drain (stamp : Stamp) (e : Engine) : Engine :=
  (e.outcomes.map .payoutCompleted).foldl (process stamp) { e with outcomes := [] }

/-- Applies steps, with the outcomes that each of them leads to; the stamps are
those of the steps by their number. -/
def performAll (stamps : Nat → Stamp) : Nat → Engine → List ScenarioStep → Engine
  | _, e, [] => e
  | index, e, s :: rest =>
    performAll stamps (index + 1) ((e.perform (stamps index) index s).drain (stamps index)) rest

theorem performAll_concat (stamps : Nat → Stamp) (index : Nat) (e : Engine)
    (steps : List ScenarioStep) (s : ScenarioStep) :
    e.performAll stamps index (steps ++ [s]) =
      ((e.performAll stamps index steps).perform (stamps (index + steps.length))
        (index + steps.length) s).drain (stamps (index + steps.length)) := by
  induction steps generalizing index e with
  | nil => rfl
  | cons t steps ih =>
    rw [List.cons_append, performAll, ih, performAll, List.length_cons]
    have hindex : index + 1 + steps.length = index + (steps.length + 1) := by omega
    rw [hindex]

/-! ### As requests -/

/-- Serves requests one after the other, with one stamp. -/
def serveAll (stamp : Stamp) (e : Engine) (rs : List Request) : Engine :=
  rs.foldl (fun e r => (e.serve stamp r).1) e

theorem serveAll_eq_run (stamp : Stamp) (e : Engine) (rs : List Request) :
    e.serveAll stamp rs = e.run (rs.map fun r => (stamp, r)) := by
  rw [run, List.foldl_map, serveAll]

theorem serveAll_append (stamp : Stamp) (e : Engine) (rs rs' : List Request) :
    e.serveAll stamp (rs ++ rs') = (e.serveAll stamp rs).serveAll stamp rs' := List.foldl_append

theorem process_eq_serve (stamp : Stamp) (e : Engine) (event : Event) :
    e.process stamp event = (e.serve stamp (.event event)).1 := by
  simp only [process, serve]
  cases e.handle stamp event <;> rfl

theorem foldl_process (stamp : Stamp) (e : Engine) (events : List Event) :
    events.foldl (process stamp) e = e.serveAll stamp (events.map .event) := by
  induction events generalizing e with
  | nil => rfl
  | cons event events ih =>
    rw [List.foldl_cons, ih, process_eq_serve]
    rfl

theorem drain_eq (stamp : Stamp) (e : Engine) :
    e.drain stamp = e.takeOutcomes.1.serveAll stamp
      (e.takeOutcomes.2.map fun o => .event (.payoutCompleted o)) := by
  rw [drain, foldl_process, List.map_map]
  rfl

theorem serve_outcomes (e : Engine) (stamp : Stamp) {r : Request} (hr : r.isAcceptance = false) :
    (e.serve stamp r).1.outcomes = e.outcomes := by
  rcases (e.served stamp r).payouts with
    ⟨o, p, -, hp, heq⟩ | ⟨id, caller, ticket, rfl, -⟩ | ⟨-, -, -, -, hsame, -⟩
  · rw [heq, receiveOutcome_of_pending hp]
  · cases hr
  · exact hsame

theorem serveAll_outcomes (stamp : Stamp) {rs : List Request} (h : Quiet rs) (e : Engine) :
    (e.serveAll stamp rs).outcomes = e.outcomes := by
  induction rs generalizing e with
  | nil => rfl
  | cons r rs ih =>
    have hrest := ih h.tail (e.serve stamp r).1
    exact hrest.trans (e.serve_outcomes stamp (h r (List.mem_cons_self ..)))

theorem drain_outcomes (stamp : Stamp) (e : Engine) : (e.drain stamp).outcomes = [] := by
  rw [drain_eq]
  exact serveAll_outcomes stamp (quiet_map (fun _ => rfl) _) e.takeOutcomes.1

theorem performAll_outcomes (stamps : Nat → Stamp) (steps : List ScenarioStep) (index : Nat)
    {e : Engine} (h : e.outcomes = []) : (e.performAll stamps index steps).outcomes = [] := by
  induction steps generalizing index e with
  | nil => exact h
  | cons s steps ih => exact ih (index + 1) (drain_outcomes _ _)

theorem takeOutcomes_of_nil {e : Engine} (h : e.outcomes = []) : e.takeOutcomes = (e, []) := by
  have hsame : ({ e with outcomes := [] } : Engine) = e := by rw [← h]
  rw [takeOutcomes, hsame, h]

theorem drain_of_nil {e : Engine} (h : e.outcomes = []) (stamp : Stamp) : e.drain stamp = e := by
  rw [drain_eq, takeOutcomes_of_nil h]
  rfl

/-- A release raises the outcomes of what was held. -/
theorem takeOutcomes_release {e : Engine} (h : e.outcomes = []) (error : Option String) :
    (e.release error).takeOutcomes =
      ({ e with desk := e.desk.release }, e.desk.released error) := by
  have hengine : ({ e.release error with outcomes := [] } : Engine) =
      { e with desk := e.desk.release } := by
    rw [← h]
    rfl
  have hraised : (e.release error).outcomes = e.desk.released error := by
    rw [release, h, List.nil_append]
  rw [takeOutcomes, hengine, hraised]

/-! ### What is to be stored does not matter -/

theorem forgets_serveAll (stamp : Stamp) (rs : List Request) :
    Forgets fun e => e.serveAll stamp rs := by
  induction rs with
  | nil => exact fun _ => rfl
  | cons r rs ih => exact ih.comp (forgets_serve stamp r)

theorem forgets_drain (stamp : Stamp) : Forgets fun e => e.drain stamp := fun e => by
  simp only [drain_eq]
  exact forgets_serveAll stamp _ e.takeOutcomes.1

theorem forgets_perform (stamp : Stamp) (index : Nat) (s : ScenarioStep) :
    Forgets fun e => e.perform stamp index s := by
  cases s with
  | deliver message =>
    simp only [perform, process_eq_serve]
    exact forgets_serve stamp _
  | advance millis =>
    simp only [perform, foldl_process]
    exact fun e => forgets_serveAll stamp _ { e with timers := e.timers.advance millis.toNat }
  | openDispute dispute => exact forgets_openDispute stamp dispute
  | accept id => exact forgets_accept id index
  | reject id => exact forgets_reject id
  | releasePayout error => exact fun _ => rfl
  | cleanup => exact forgets_cleanup
  | setPhase id phase => exact forgets_change id _
  | setPayoutTx id txid => exact forgets_change id _
  | setPeerSignature id signature => exact forgets_change id _

end Engine

/-! ### As runs of a world -/

namespace World

theorem run_settles (stamp : Stamp) (os : List PayoutOutcome) (e : Engine)
    (fired : List (Timer ResultMessage)) :
    (⟨e, fired, os⟩ : World).run (os.map fun o => (stamp, .settle o)) =
      ⟨e.serveAll stamp (os.map fun o => .event (.payoutCompleted o)), fired, []⟩ := by
  induction os generalizing e with
  | nil => rfl
  | cons o os ih =>
    have hafter : (⟨e, fired, o :: os⟩ : World).after (stamp, .settle o) =
        ⟨(e.serve stamp (.event (.payoutCompleted o))).1, fired, os⟩ := by
      simp only [after, serving, request?, List.mem_cons_self, if_true, List.erase_cons_head]
    rw [List.map_cons, run, List.foldl_cons, hafter]
    exact ih _

theorem run_drain (stamp : Stamp) (e : Engine) :
    (start e).run ((stamp, .take) :: e.outcomes.map fun o => (stamp, .settle o)) =
      start (e.drain stamp) := by
  rw [Engine.drain_eq]
  exact run_settles stamp e.takeOutcomes.2 e.takeOutcomes.1 []

/-- An act other than an outcome handed in from outside. -/
abbrev Inner (a : Stamp × Act) : Prop := ∀ o, a.2 ≠ .ask (.event (.payoutCompleted o))

/-- What a step does is done by acts. -/
theorem exists_run_perform (stamp : Stamp) (index : Nat) (e : Engine) (s : ScenarioStep) :
    ∃ as, (∀ a ∈ as, Inner a) ∧ (start e).run as = start (e.perform stamp index s) := by
  have hask : ∀ r : Request, (∀ o, r ≠ .event (.payoutCompleted o)) →
      ∃ as, (∀ a ∈ as, Inner a) ∧ (start e).run as = start (e.serve stamp r).1 := by
    intro r hr
    refine ⟨[(stamp, .ask r)], fun a ha o heq => ?_, rfl⟩
    rw [List.mem_singleton.mp ha] at heq
    cases heq
    exact hr o rfl
  cases s with
  | deliver message =>
    simp only [Engine.perform, Engine.process_eq_serve]
    exact hask _ fun _ h => by cases h
  | advance millis =>
    have hfired : (start e).run ((stamp, .elapse millis.toNat) ::
        (e.timers.dueAfter millis.toNat).map fun t => (stamp, .retry t)) =
        start (e.perform stamp index (.advance millis)) := by
      simp only [Engine.perform, Engine.foldl_process, List.map_map, Engine.serveAll_eq_run]
      exact (run_retries { e with timers := e.timers.advance millis.toNat }
        (e.timers.dueAfter millis.toNat) [] stamp).1
    refine ⟨_, fun a ha o heq => ?_, hfired⟩
    rcases List.mem_cons.mp ha with rfl | ha
    · cases heq
    · obtain ⟨t, -, rfl⟩ := List.mem_map.mp ha
      cases heq
  | openDispute dispute => exact hask (.openDispute dispute) fun _ h => by cases h
  | accept id =>
    have haccepted := hask (.accept id index) fun _ h => by cases h
    rw [Engine.serve_accept] at haccepted
    exact haccepted
  | reject id =>
    have hrejected := hask (.reject id) fun _ h => by cases h
    rw [Engine.serve_reject] at hrejected
    exact hrejected
  | releasePayout error =>
    refine ⟨[(stamp, .release error)], fun a ha o heq => ?_, rfl⟩
    rw [List.mem_singleton.mp ha] at heq
    cases heq
  | cleanup => exact hask .cleanup fun _ h => by cases h
  | setPhase id phase => exact hask (.update id (.phase phase)) fun _ h => by cases h
  | setPayoutTx id txid => exact hask (.update id (.payoutTx txid)) fun _ h => by cases h
  | setPeerSignature id signature =>
    exact hask (.update id (.peerSignature signature)) fun _ h => by cases h

/-- Applying the steps of a scenario is a run of a world, at the end of which
nothing is on its way. -/
theorem exists_run_performAll (stamps : Nat → Stamp) (steps : List ScenarioStep) (index : Nat)
    (e : Engine) :
    ∃ as, (∀ a ∈ as, Inner a) ∧ (start e).run as = start (e.performAll stamps index steps) := by
  induction steps generalizing index e with
  | nil => exact ⟨[], List.forall_mem_nil _, rfl⟩
  | cons s steps ih =>
    obtain ⟨as, has, hperform⟩ := exists_run_perform (stamps index) index e s
    obtain ⟨bs, hbs, hrest⟩ :=
      ih (index + 1) ((e.perform (stamps index) index s).drain (stamps index))
    refine ⟨as ++ ((stamps index, .take) :: (e.perform (stamps index) index s).outcomes.map
      fun o => (stamps index, .settle o)) ++ bs, fun a ha => ?_, ?_⟩
    · rcases List.mem_append.mp ha with ha | ha
      · rcases List.mem_append.mp ha with ha | ha
        · exact has a ha
        · intro o heq
          rcases List.mem_cons.mp ha with rfl | ha
          · cases heq
          · obtain ⟨p, -, rfl⟩ := List.mem_map.mp ha
            cases heq
      · exact hbs a ha
    · rw [run_append, run_append, hperform, run_drain, hrest]
      rfl

end World

/-- After the steps of a scenario, no outcome waits, and the acceptances that
are pending are those whose completions are held. -/
theorem Scenario.settled_performAll (s : Scenario) (stamps : Nat → Stamp)
    (steps : List ScenarioStep) :
    (s.engine.performAll stamps 0 steps).outcomes = [] ∧
      (s.engine.performAll stamps 0 steps).acceptances.keys.Perm
        ((s.engine.performAll stamps 0 steps).desk.held.map Completion.ticket) := by
  refine ⟨Engine.performAll_outcomes stamps steps 0 rfl, ?_⟩
  obtain ⟨as, has, hrun⟩ := World.exists_run_performAll stamps steps 0 s.engine
  have hfits := Ledger.fits_run (e := s.engine) rfl rfl rfl as has
  rw [hrun] at hfits
  have hkeys := hfits.keys
  have hqueued : (World.start (s.engine.performAll stamps 0 steps)).queued = [] := by
    rw [World.queued, World.start, Engine.performAll_outcomes stamps steps 0 rfl]
    rfl
  rwa [hqueued, List.map_nil, List.append_nil] at hkeys

end Mediation
