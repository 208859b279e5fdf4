import Mediation.Proofs.Engine.Attachment
import Mediation.Proofs.Engine.World

/-!
# Everything that is done to an engine

A result message need not come as an event: it may be handed to the engine
directly, past the gate that support messages have to pass. An operation is an
act or such a message; each of them changes the engine as some request does,
or changes no more than its timers and what it keeps of payouts.
-/

namespace Mediation

inductive Operation where
  | act (stamp : Stamp) (a : Act)
  | hand (m : ResultMessage)

namespace Engine

/-- The engine once a result message has been handed to it past the gate. -/
def handed (e : Engine) (m : ResultMessage) : Engine :=
  (e.receiveResult m .delivery).toOption.getD e

/-- A message handed to an engine does what some request does that nobody waits for. -/
theorem served_handed (e : Engine) (m : ResultMessage) :
    ∃ r, r.caller? = none ∧ Served e r (e.handed m) := by
  unfold handed
  rcases e.receiveResult_cases m .delivery with
    ⟨-, hsame⟩ | ⟨hclosing, hmissing, hmissed⟩ | ⟨hstored, closing, acks, hclosing, hruled⟩
  · rw [hsame]
    exact ⟨.barrier, rfl, .idle e.acks⟩
  · rw [hmissed]
    exact ⟨.event (.support (.disputeResult m)), rfl,
      .missed m .delivery rfl hclosing hmissing⟩
  · -- as a retry does it, which passes no gate either
    rw [hruled]
    exact ⟨.event (.deferred m), rfl, .ruled m .retry closing acks rfl rfl hclosing hstored⟩

/-- The disputes do not tell a message handed to the engine from a fired retry. -/
theorem handed_disputes (e : Engine) (m : ResultMessage) (stamp : Stamp) :
    (e.handed m).disputes = (e.serve stamp (.event (.deferred m))).1.disputes := by
  rw [serve_attempt (a := .retry) rfl rfl]
  unfold handed receiveResult
  split
  next => rfl
  next closing hclosing =>
    split
    next =>
      change (e.missDispute m .delivery).disputes = (e.missDispute m .retry).disputes
      rw [missDispute_eq e m .delivery]
      rfl
    next d hd => rfl

end Engine

namespace World

def perform (w : World) : Operation → World
  | .act stamp a => w.after (stamp, a)
  | .hand m => { w with engine := w.engine.handed m }

def operate (w : World) (os : List Operation) : World := os.foldl perform w

theorem operate_append (w : World) (os ps : List Operation) :
    w.operate (os ++ ps) = (w.operate os).operate ps := List.foldl_append

/-- A run of acts is one of operations. -/
theorem operate_acts (w : World) (as : List (Stamp × Act)) :
    w.operate (as.map fun a => .act a.1 a.2) = w.run as := List.foldl_map

theorem operate_concat (w : World) (os : List Operation) (o : Operation) :
    w.operate (os ++ [o]) = (w.operate os).perform o := operate_append w os [o]

theorem perform_engine (w : World) (o : Operation) :
    (∃ r, Engine.Served w.engine r (w.perform o).engine) ∨
      (w.perform o).engine =
        { w.engine with
          timers := (w.perform o).engine.timers
          desk := (w.perform o).engine.desk
          outcomes := (w.perform o).engine.outcomes } := by
  cases o with
  | act stamp a =>
    rcases w.after_engine (stamp, a) with ⟨r, -, hserved⟩ | ⟨-, hsame⟩
    · exact Or.inl ⟨r, hserved⟩
    · exact Or.inr hsame
  | hand m =>
    obtain ⟨r, -, hserved⟩ := w.engine.served_handed m
    exact Or.inl ⟨r, hserved⟩

theorem operate_induction {P : World → Prop} (hperform : ∀ w o, P w → P (w.perform o))
    (os : List Operation) (w : World) (hP : P w) : P (w.operate os) := by
  induction os generalizing w with
  | nil => exact hP
  | cons o os ih => exact ih (w.perform o) (hperform w o hP)

theorem perform_config (w : World) (o : Operation) :
    (w.perform o).engine.config = w.engine.config := by
  cases o with
  | act stamp a => exact w.after_config (stamp, a)
  | hand m =>
    obtain ⟨r, -, hserved⟩ := w.engine.served_handed m
    exact hserved.config

theorem operate_config (w : World) (os : List Operation) :
    (w.operate os).engine.config = w.engine.config :=
  operate_induction (P := fun v => v.engine.config = w.engine.config)
    (fun v o hv => (v.perform_config o).trans hv) os w rfl

theorem run_config (w : World) (as : List (Stamp × Act)) :
    (w.run as).engine.config = w.engine.config := by
  rw [← operate_acts, operate_config]

end World

end Mediation
