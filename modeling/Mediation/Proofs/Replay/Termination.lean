import Mediation.Proofs.Replay.Tasks

/-!
# Every schedule of a replay ends

A replay cannot go on for ever, in whatever order its tasks take their turns:
the steps become fewer, or the actions that are to be replaced by others, or
what is to be sent, awaited and handled. An acceptance weighs as much as the
outcome that it may raise, and one more.
-/

namespace Mediation.Replay

def total {α : Type} (f : α → Nat) : List α → Nat
  | [] => 0
  | a :: l => f a + total f l

theorem total_append {α : Type} (f : α → Nat) (l l' : List α) :
    total f (l ++ l') = total f l + total f l' := by
  induction l with
  | nil => exact (Nat.zero_add _).symm
  | cons a l ih => rw [List.cons_append, total, total, ih, Nat.add_assoc]

def weight (r : Request) : Nat := if r.isAcceptance then 2 else 1

theorem one_le_weight (r : Request) : 1 ≤ weight r := by
  unfold weight
  split <;> omega

def Action.weight : Action → Nat
  | .send r => Replay.weight r + 1
  | .ask r => Replay.weight r + 2
  | .await _ | .report => 1
  | .advance _ | .release _ => 0

/-- Whether an action is replaced by others, as many as it finds to be due. -/
def Action.spreads : Action → Nat
  | .advance _ | .release _ => 1
  | _ => 0

/-- The steps that are left, the actions of the step that are to be replaced,
and the weight of all that is to be done and to be handled. -/
def State.size (c : State) : Nat × Nat × Nat :=
  (c.rest.length, total Action.spreads c.todo,
    total Action.weight c.todo + total weight c.node.queue + c.node.engine.outcomes.length)

theorem length_outcomes_serve (e : Engine) (stamp : Stamp) (r : Request) :
    (e.serve stamp r).1.outcomes.length + 1 ≤ e.outcomes.length + weight r := by
  cases hr : r.isAcceptance with
  | false =>
    rw [e.serve_outcomes stamp hr]
    exact Nat.add_le_add_left (one_le_weight r) _
  | true =>
    have hweight : weight r = 2 := by rw [weight, if_pos hr]
    rcases (e.served stamp r).payouts with
      ⟨o, p, rfl, -⟩ | ⟨id, caller, ticket, -, hok⟩ | ⟨-, -, -, -, hsame, -⟩
    · cases hr
    · obtain ⟨-, -, -, -, -, houtcomes⟩ := Engine.accept_payouts hok
      have hone : ∀ o : Option PayoutOutcome, o.toList.length ≤ 1 := fun o => by
        cases o with
        | none => exact Nat.zero_le 1
        | some o => exact Nat.le_refl 1
      rw [houtcomes, List.length_append, hweight]
      have hraised := hone (e.desk.resolution?.map fun r => Completion.resolve ⟨ticket, id⟩ r.error)
      omega
    · rw [hsame, hweight]
      omega

theorem total_spreads_sends {α : Type} (f : α → Request) (l : List α) :
    total Action.spreads (l.map fun a => .send (f a)) = 0 := by
  induction l with
  | nil => rfl
  | cons a l ih =>
    rw [List.map_cons, total, ih]
    rfl

theorem total_weight_send (n : Node) (r : Request) :
    total weight (n.send r).queue = total weight n.queue + weight r := by
  rw [Node.send, total_append]
  rfl

theorem total_weight_payouts (os : List PayoutOutcome) :
    total weight (os.map fun o => .event (.payoutCompleted o)) = os.length := by
  induction os with
  | nil => rfl
  | cons o os ih =>
    rw [List.map_cons, total, ih, List.length_cons, Nat.add_comm]
    rfl

/-! ### Every turn makes the rest smaller -/

abbrev Smaller : Nat × Nat × Nat → Nat × Nat × Nat → Prop :=
  Prod.Lex (· < ·) (Prod.Lex (· < ·) (· < ·))

section Turn
variable {n n' : Node} {index index' : Nat} {a : Action} {todo : List Action}
  {rest : List ScenarioStep}

theorem smaller_of_le_of_lt {x y y' z z' : Nat} (hy : y' ≤ y) (hz : z' < z) :
    Smaller (x, y', z') (x, y, z) := by
  rcases Nat.lt_or_eq_of_le hy with hy | rfl
  · exact .right _ (.left _ _ hy)
  · exact .right _ (.right _ hz)

/-- An action gives way to what weighs less. -/
theorem smaller_of_weight (done : List Action) (hspreads : total Action.spreads done = 0)
    (hengine : n'.engine = n.engine)
    (hweight : total Action.weight done + total weight n'.queue <
      a.weight + total weight n.queue) :
    Smaller (State.size ⟨n', index', done ++ todo, rest⟩)
      (State.size ⟨n, index, a :: todo, rest⟩) := by
  refine smaller_of_le_of_lt ?_ ?_
  · rw [total_append, hspreads, Nat.zero_add, total]
    exact Nat.le_add_left _ _
  · dsimp only
    rw [total_append, total, hengine]
    omega

/-- An action gives way to what it finds to be sent. -/
theorem smaller_of_spreads {α : Type} (f : α → Request) (l : List α) (ha : a.spreads = 1) :
    Smaller (State.size ⟨n', index', (l.map fun x => .send (f x)) ++ todo, rest⟩)
      (State.size ⟨n, index, a :: todo, rest⟩) := by
  refine .right _ (.left _ _ ?_)
  rw [total_append, total_spreads_sends, total, ha]
  omega

theorem Turn.smaller {stamps : Nat → Stamp} {c c' : State} (h : Turn stamps c c') :
    Smaller c'.size c.size := by
  cases h with
  | begin n index s rest => exact .left _ _ (Nat.lt_succ_self _)
  | send n index r todo rest =>
    refine smaller_of_weight [] rfl rfl ?_
    rw [total_weight_send, total, Action.weight]
    omega
  | ask n index r todo rest =>
    refine smaller_of_weight [.await _] rfl rfl ?_
    rw [total_weight_send, total, total, Action.weight, Action.weight]
    omega
  | await n index number todo rest hnumber =>
    exact smaller_of_weight [] rfl rfl (Nat.add_lt_add_right Nat.zero_lt_one _)
  | advance n index millis todo rest => exact smaller_of_spreads _ _ rfl
  | release n index error todo rest => exact smaller_of_spreads _ _ rfl
  | report n index todo rest =>
    exact smaller_of_weight [] rfl rfl (Nat.add_lt_add_right Nat.zero_lt_one _)
  | handle n index todo rest hnonempty =>
    obtain ⟨r, queue, hqueue⟩ := List.exists_cons_of_ne_nil hnonempty
    refine smaller_of_le_of_lt (Nat.le_refl _) ?_
    have houtcomes := length_outcomes_serve n.engine (stamps index) r
    simp only [Node.handleNext_outcomes hqueue, Node.handleNext_queue hqueue, hqueue,
      Engine.takeOutcomes, total_append, total_weight_payouts, total, List.length_nil]
    omega

end Turn

theorem wellFounded_turn (stamps : Nat → Stamp) :
    WellFounded fun c' c => Turn stamps c c' :=
  Subrelation.wf Turn.smaller
    (InvImage.wf State.size (Prod.lex ⟨_, Nat.lt_wfRel.wf⟩
      (Prod.lex ⟨_, Nat.lt_wfRel.wf⟩ ⟨_, Nat.lt_wfRel.wf⟩)).wf)

end Mediation.Replay
