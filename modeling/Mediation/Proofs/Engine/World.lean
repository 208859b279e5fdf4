import Mediation.Proofs.Engine.Serving

/-!
# An engine and what is on its way to it

Timers fire and payouts are resolved at any time, but the engine handles one
thing after the other. A world is an engine with the timers that have fired and
the payout outcomes that have left its queue, none of them handled yet; each is
handled at any later moment, in any order.
-/

namespace Mediation

structure World where
  engine : Engine
  fired : List (Timer ResultMessage)
  taken : List PayoutOutcome

inductive Act where
  | ask (r : Request)
  | elapse (millis : Nat)
  | retry (t : Timer ResultMessage)
  | release (error : Option String)
  | take
  | settle (o : PayoutOutcome)

namespace World

def start (e : Engine) : World := ⟨e, [], []⟩

/-- The request that an act has the engine serve; only what is on its way is handled. -/
def request? (w : World) : Act → Option Request
  | .ask r => some r
  | .retry t => if t ∈ w.fired then some (.event (.deferred t.task)) else none
  | .settle o => if o ∈ w.taken then some (.event (.payoutCompleted o)) else none
  | .elapse _ | .release _ | .take => none

def serving (w : World) (a : Stamp × Act) : Engine :=
  match w.request? a.2 with
  | none => w.engine
  | some r => (w.engine.serve a.1 r).1

def after (w : World) (a : Stamp × Act) : World :=
  match a.2 with
  | .ask _ => { w with engine := w.serving a }
  | .elapse millis =>
    { w with
      engine := { w.engine with timers := w.engine.timers.advance millis }
      fired := w.fired ++ w.engine.timers.dueAfter millis }
  | .retry t => { w with engine := w.serving a, fired := w.fired.erase t }
  | .release error => { w with engine := w.engine.release error }
  | .take =>
    { w with
      engine := w.engine.takeOutcomes.1
      taken := w.taken ++ w.engine.takeOutcomes.2 }
  | .settle o => { w with engine := w.serving a, taken := w.taken.erase o }

def run (w : World) (as : List (Stamp × Act)) : World := as.foldl after w

/-- The acts of a run, each with the world in which it was done. -/
def trace : World → List (Stamp × Act) → List (World × Act)
  | _, [] => []
  | w, a :: as => (w, a.2) :: trace (w.after a) as

/-- The requests that the acts of a trace had served, each with the engine that served it. -/
def servings (h : List (World × Act)) : List (Engine × Request) :=
  h.filterMap fun x => (x.1.request? x.2).map fun r => (x.1.engine, r)

theorem servings_append (h k : List (World × Act)) : servings (h ++ k) = servings h ++ servings k :=
  List.filterMap_append

section Servings
variable {w : World} {a : Act}

theorem servings_singleton_of_none (h : w.request? a = none) : servings [(w, a)] = [] := by
  simp only [servings, List.filterMap_cons, h, Option.map_none, List.filterMap_nil]

theorem servings_singleton_of_some {r : Request} (h : w.request? a = some r) :
    servings [(w, a)] = [(w.engine, r)] := by
  simp only [servings, List.filterMap_cons, h, Option.map_some, List.filterMap_nil]

end Servings

theorem trace_append (w : World) (as bs : List (Stamp × Act)) :
    w.trace (as ++ bs) = w.trace as ++ (w.run as).trace bs := by
  induction as generalizing w with
  | nil => rfl
  | cons a as ih => exact congrArg ((w, a.2) :: ·) (ih (w.after a))

theorem run_append (w : World) (as bs : List (Stamp × Act)) :
    w.run (as ++ bs) = (w.run as).run bs := List.foldl_append

theorem run_concat (w : World) (as : List (Stamp × Act)) (a : Stamp × Act) :
    w.run (as ++ [a]) = (w.run as).after a := run_append w as [a]

theorem request?_retry {w : World} {t : Timer ResultMessage} {r : Request}
    (h : w.request? (.retry t) = some r) : r = .event (.deferred t.task) := by
  simp only [request?] at h
  split at h
  · exact (Option.some.inj h).symm
  · cases h

theorem request?_settle {w : World} {o : PayoutOutcome} {r : Request}
    (h : w.request? (.settle o) = some r) : r = .event (.payoutCompleted o) := by
  simp only [request?] at h
  split at h
  · exact (Option.some.inj h).symm
  · cases h

theorem serving_of_none {w : World} {a : Stamp × Act} (h : w.request? a.2 = none) :
    w.serving a = w.engine := by
  simp only [serving, h]

theorem serving_of_some {w : World} {a : Stamp × Act} {r : Request}
    (h : w.request? a.2 = some r) : w.serving a = (w.engine.serve a.1 r).1 := by
  simp only [serving, h]

theorem serving_cases (w : World) (a : Stamp × Act) :
    (w.request? a.2 = none ∧ w.serving a = w.engine) ∨
      ∃ r, w.request? a.2 = some r ∧ Engine.Served w.engine r (w.serving a) := by
  cases hr : w.request? a.2 with
  | none => exact Or.inl ⟨rfl, serving_of_none hr⟩
  | some r =>
    rw [serving_of_some hr]
    exact Or.inr ⟨r, rfl, Engine.served w.engine a.1 r⟩

/-- An act has the engine serve a request, or changes no more than its timers
and what is held or queued of its payouts. -/
theorem after_engine (w : World) (a : Stamp × Act) :
    (∃ r, w.request? a.2 = some r ∧ Engine.Served w.engine r (w.after a).engine) ∨
      (w.request? a.2 = none ∧ (w.after a).engine =
        { w.engine with
          timers := (w.after a).engine.timers
          desk := (w.after a).engine.desk
          outcomes := (w.after a).engine.outcomes }) := by
  rcases w.serving_cases a with ⟨hr, hserving⟩ | ⟨r, hr, hserved⟩
  · refine Or.inr ⟨hr, ?_⟩
    obtain ⟨stamp, a⟩ := a
    cases a with
    | ask r' => cases hr
    | retry t => simp only [after, hserving]
    | settle o => simp only [after, hserving]
    | elapse millis => rfl
    | release error => rfl
    | take => rfl
  · refine Or.inl ⟨r, hr, ?_⟩
    obtain ⟨stamp, a⟩ := a
    cases a with
    | ask r' => exact hserved
    | retry t => exact hserved
    | settle o => exact hserved
    | elapse millis => cases hr
    | release error => cases hr
    | take => cases hr

theorem after_config (w : World) (a : Stamp × Act) :
    (w.after a).engine.config = w.engine.config := by
  rcases w.after_engine a with ⟨r, -, hserved⟩ | ⟨-, hsame⟩
  · exact hserved.config
  · rw [hsame]

/-- A property of the trace and the world holds after every run if each act keeps it. -/
theorem run_trace_induction {R : List (World × Act) → World → Prop} {Q : Act → Prop}
    (hafter : ∀ h w stamp a, Q a → R h w → R (h ++ [(w, a)]) (w.after (stamp, a)))
    (as : List (Stamp × Act)) (has : ∀ a ∈ as, Q a.2) (h : List (World × Act)) (w : World)
    (hR : R h w) : R (h ++ w.trace as) (w.run as) := by
  induction as generalizing h w with
  | nil =>
    rw [trace, List.append_nil]
    exact hR
  | cons a as ih =>
    have ha : Q a.2 := has a (List.mem_cons_self ..)
    have hrest : ∀ b ∈ as, Q b.2 := fun b hb => has b (List.mem_cons_of_mem _ hb)
    have hnext := ih hrest (h ++ [(w, a.2)]) (w.after a) (hafter h w a.1 a.2 ha hR)
    rw [List.append_assoc] at hnext
    exact hnext

theorem run_induction {P : World → Prop} {Q : Act → Prop}
    (hafter : ∀ w stamp a, Q a → P w → P (w.after (stamp, a)))
    (as : List (Stamp × Act)) (has : ∀ a ∈ as, Q a.2) (w : World) (hP : P w) : P (w.run as) :=
  run_trace_induction (R := fun _ w => P w) (fun _ w stamp a => hafter w stamp a) as has [] w hP

end World

end Mediation
