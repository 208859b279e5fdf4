import Mediation.Proofs.Engine.Acceptances
import Mediation.Proofs.Engine.Amounts

/-!
# The verdict while a payout is under way

A verdict is given by accepting the result of a trade or by rejecting it, and
the last decision stands, also for a trade that is closed by then. A rejection
does not ask whether a payout is under way: it turns the verdict of an accepted
result, and the trade is closed with it once the payout has succeeded.
-/

namespace Mediation

/-! ### Decisions -/

namespace Case

def verdict? (k : Case) : Option Verdict := k.trade?.map Trade.verdict

theorem Step.verdict?_eq {c : MediationConfig} {r : Request} {id : TradeId} {k l : Case}
    (haccepts : ∀ caller, r ≠ .accept id caller) (hrejects : r ≠ .reject id)
    (h : Step c r id k l) : l.verdict? = k.verdict? := by
  cases h with
  | @opened live closed d stamp sender text hr hd =>
    cases live with
    | none => rfl
    | some t =>
      rcases (Kept.enter? r id t (r.entry? c)).verdict with hsame | ⟨hrejected, -⟩
      · exact congrArg some hsame
      · exact absurd hrejected hrejects
  | said d m hr hm => rfl
  | @ruled live closed d m hr hm =>
    cases live with
    | none => rfl
    | some t =>
      have hsame : (t.applyResult m.result.buyerPayout m.result.sellerPayout).verdict =
          t.verdict := by
        unfold Trade.applyResult
        split <;> rfl
      exact congrArg some hsame
  | accepted d t res hr hres =>
    obtain ⟨caller, hr⟩ := hr
    exact absurd hr (haccepts caller)
  | rejected t hr => exact absurd hr hrejects
  | moved t phase hr => rfl
  | signed t signature hr => rfl
  | paid t tx hr => rfl
  | settled t hpaid hstate => rfl

theorem Steps.verdict?_eq {c : MediationConfig} {r : Request} {id : TradeId} {k l : Case}
    (haccepts : ∀ caller, r ≠ .accept id caller) (hrejects : r ≠ .reject id)
    (h : Steps c r id k l) : l.verdict? = k.verdict? := by
  induction h with
  | refl => rfl
  | tail _ hstep ih => rw [hstep.verdict?_eq haccepts hrejects, ih]

end Case

namespace Engine

/-- The decision on the result of a trade that a request takes; none if it is refused. -/
def decided? (e : Engine) (id : TradeId) : Request → Option Verdict
  | .accept j caller => if j = id && (e.accept j caller).isOk then some .accepted else none
  | .reject j => if j = id && (e.reject j).isOk then some .rejected else none
  | _ => none

def verdict? (e : Engine) (id : TradeId) : Option Verdict :=
  (e.registry.book.findTrade? id).map Trade.verdict

section Serve
variable {e : Engine} {id : TradeId}

theorem verdict?_of_live {t : Trade} (ht : e.registry.book.live.get? id = some t) :
    e.verdict? id = some t.verdict := by
  rw [verdict?, Book.findTrade?, ht]
  rfl

theorem verdict?_accept {e' : Engine} {caller ticket : Nat}
    (hok : e.accept id caller = .ok (e', ticket)) : e'.verdict? id = some .accepted := by
  obtain ⟨d, res, t, step, hd, hres, ht, -, rfl⟩ := accept_ok hok
  have hlive : (e.accepting id caller res).registry.book.live.get? id =
      some (acceptedTrade t res) := by
    change (e.registry.book.update id _).live.get? id = _
    rw [Book.update_live, if_pos rfl, ht, Option.map_some]
  have hfound : (e.accepting id caller res).registry.book.findTrade? id =
      some (acceptedTrade t res) := by
    rw [Book.findTrade?, hlive, Option.some_or]
  rcases findTrade?_askPayout step (acceptedTrade t res) ⟨ticket, id⟩ hfound with
    hsame | ⟨-, -, hpaid⟩
  · rw [verdict?, hsame]
    rfl
  · rw [verdict?, hpaid]
    rfl

theorem verdict?_reject {e' : Engine} (hok : e.reject id = .ok e') :
    e'.verdict? id = some .rejected := by
  unfold reject at hok
  split at hok
  next => cases hok
  next t ht =>
    cases hok
    have hlive : (e.registry.book.update id fun t => { t with verdict := .rejected }).live.get? id =
        some { t with verdict := .rejected } := by
      rw [Book.update_live, if_pos rfl, ht, Option.map_some]
    rw [verdict?, Book.findTrade?]
    change (Option.or ((e.registry.book.update id _).live.get? id) _).map Trade.verdict = _
    rw [hlive]
    rfl

/-- A request that decides on a trade gives its verdict; any other leaves it. -/
theorem verdict?_serve (e : Engine) (stamp : Stamp) (r : Request) (id : TradeId) :
    (e.serve stamp r).1.verdict? id = (e.decided? id r).or (e.verdict? id) := by
  by_cases haccepts : ∃ caller, r = .accept id caller
  · obtain ⟨caller, rfl⟩ := haccepts
    cases hok : e.accept id caller with
    | ok p =>
      simp only [serve, hok, decided?]
      exact verdict?_accept hok
    | error err => simp [serve, hok, decided?, Except.isOk, Except.toBool]
  · by_cases hrejects : r = .reject id
    · subst hrejects
      cases hok : e.reject id with
      | ok e' =>
        simp only [serve, hok, decided?]
        exact verdict?_reject hok
      | error err => simp [serve, hok, decided?, Except.isOk, Except.toBool]
    · have hnone : e.decided? id r = none := by
        unfold decided?
        split
        next j caller =>
          have hj : j ≠ id := fun hj => haccepts ⟨caller, by rw [hj]⟩
          simp [hj]
        next j =>
          have hj : j ≠ id := fun hj => hrejects (by rw [hj])
          simp [hj]
        next => rfl
      rw [hnone, Option.none_or]
      exact (serve_steps e stamp r id).verdict?_eq (fun caller hr => haccepts ⟨caller, hr⟩) hrejects

/-- An acceptance that is pending was pending before, or the request has accepted the result. -/
theorem pending_serve {k : Nat} {p : PendingAcceptance} {stamp : Stamp} {r : Request}
    (hp : (e.serve stamp r).1.acceptances.get? k = some p) :
    e.acceptances.get? k = some p ∨ e.decided? p.tradeId r = some .accepted := by
  rcases (served e stamp r).payouts with
    ⟨o, q, -, hq, heq⟩ | ⟨j, caller, ticket, rfl, hok⟩ | ⟨hsame, -⟩
  · rw [heq, receiveOutcome_of_pending hq, Table.get?_erase] at hp
    split at hp
    · cases hp
    · exact Or.inl hp
  · obtain ⟨-, -, -, hacceptances, -⟩ := accept_payouts hok
    rw [hacceptances, Table.get?_insert] at hp
    split at hp
    · cases hp
      refine Or.inr ?_
      simp [decided?, hok, Except.isOk, Except.toBool]
    · exact Or.inl hp
  · rw [hsame] at hp
    exact Or.inl hp

/-- A trade that an outcome closes is the live one of a pending acceptance. -/
theorem closed_receiveOutcome {o : PayoutOutcome} {t : Trade}
    (hopen : e.registry.book.closed.get? id = none)
    (ht : (e.receiveOutcome o).registry.book.closed.get? id = some t) :
    ∃ p u, e.acceptances.get? o.ticket = some p ∧ p.tradeId = id ∧
      e.registry.book.live.get? id = some u ∧ t.verdict = u.verdict := by
  unfold receiveOutcome at ht
  split at ht
  next =>
    rw [hopen] at ht
    cases ht
  next p hp =>
    dsimp only at ht
    split at ht
    next =>
      rw [hopen] at ht
      cases ht
    next =>
      cases hclose : closePaidTrade?
          { e with acceptances := e.acceptances.erase o.ticket } p.tradeId with
      | none =>
        rw [hclose, Option.map_none, Option.getD_none, hopen] at ht
        cases ht
      | some e' =>
        rw [hclose, Option.map_some, Option.getD_some] at ht
        obtain ⟨u, hu, -, -, -, rfl⟩ := closePaidTrade?_some hclose
        change (e.registry.book.closed.insert p.tradeId _).get? id = some t at ht
        rw [Table.get?_insert] at ht
        split at ht
        next hid =>
          cases ht
          subst hid
          exact ⟨p, u, hp, rfl, hu, rfl⟩
        next =>
          rw [hopen] at ht
          cases ht

end Serve

end Engine

/-! ### Runs -/

namespace Verdict

/-- The verdict that decisions leave: the result was accepted, and is so unless it has been
rejected since. -/
def Stands (v : Verdict) (decisions : List Verdict) : Prop :=
  ∃ before after, decisions = before ++ .accepted :: after ∧ (∀ d ∈ after, d = .rejected) ∧
    v = if after = [] then .accepted else .rejected

theorem stands_of_getLast? {v : Verdict} {ds : List Verdict} (hds : .neutral ∉ ds)
    (haccepted : .accepted ∈ ds) (hlast : ds.getLast? = some v) : v.Stands ds := by
  obtain ⟨after, before, hreverse, hafter⟩ :=
    List.eq_append_cons_of_mem (List.mem_reverse.mpr haccepted)
  have hsplit : ds = before.reverse ++ .accepted :: after.reverse := by
    rw [← List.reverse_reverse ds, hreverse, List.reverse_append, List.reverse_cons,
      List.append_assoc]
    rfl
  have hrejected : ∀ d ∈ after.reverse, d = .rejected := by
    intro d hd
    cases d with
    | neutral =>
      rw [hsplit] at hds
      exact absurd (List.mem_append_right _ (List.mem_cons_of_mem _ hd)) hds
    | accepted => exact absurd (List.mem_reverse.mp hd) hafter
    | rejected => rfl
  refine ⟨before.reverse, after.reverse, hsplit, hrejected, ?_⟩
  rw [hsplit, List.getLast?_append, List.getLast?_cons, Option.some_or, Option.some.injEq] at hlast
  split
  next hnil =>
    rw [hnil] at hlast
    exact hlast.symm
  next hcons =>
    obtain ⟨d, hd⟩ := Option.isSome_iff_exists.mp (List.getLast?_isSome.mpr hcons)
    rw [hd, Option.getD_some] at hlast
    rw [← hlast]
    exact hrejected d (List.mem_of_getLast? hd)

end Verdict

namespace World

def decided? (id : TradeId) (x : World × Act) : Option Verdict :=
  (x.1.request? x.2).bind (x.1.engine.decided? id)

/-- The decisions on the result of a trade that were taken in a run. -/
def decisions (id : TradeId) (h : List (World × Act)) : List Verdict := h.filterMap (decided? id)

theorem neutral_not_mem_decisions (id : TradeId) (h : List (World × Act)) :
    .neutral ∉ decisions id h := by
  intro hmem
  obtain ⟨x, -, hx⟩ := List.mem_filterMap.mp hmem
  obtain ⟨r, -, hr⟩ := Option.bind_eq_some_iff.mp hx
  unfold Engine.decided? at hr
  split at hr
  · split at hr <;> cases hr
  · split at hr <;> cases hr
  · cases hr

theorem verdict?_after (w : World) (a : Stamp × Act) (id : TradeId) :
    (w.after a).engine.verdict? id =
      (decided? id (w, a.2)).or (w.engine.verdict? id) := by
  have hsame : (w.after a).engine.verdict? id = (w.serving a).verdict? id := by
    rw [Engine.verdict?, after_registry, Engine.verdict?]
  rw [hsame, decided?]
  cases hr : w.request? a.2 with
  | none => rw [serving_of_none hr, Option.bind_none, Option.none_or]
  | some r =>
    rw [serving_of_some hr, Option.bind_some]
    exact Engine.verdict?_serve w.engine a.1 r id

/-- The verdict on a trade is the last decision. -/
theorem verdict?_run (w : World) (as : List (Stamp × Act)) (id : TradeId) :
    (w.run as).engine.verdict? id =
      (decisions id (w.trace as)).getLast?.or (w.engine.verdict? id) := by
  refine run_trace_induction
    (R := fun h v => v.engine.verdict? id = (decisions id h).getLast?.or (w.engine.verdict? id))
    (Q := fun _ => True) ?_ as (fun _ _ => trivial) [] w rfl
  intro h v stamp a _ hv
  rw [verdict?_after, hv]
  simp only [decisions, List.filterMap_append]
  cases hdecided : decided? id (v, a) with
  | none =>
    rw [List.filterMap_cons_none hdecided, List.filterMap_nil, List.append_nil, Option.none_or]
  | some d =>
    rw [List.filterMap_cons_some hdecided, List.filterMap_nil, List.getLast?_concat,
      Option.some_or, Option.some_or]

theorem acceptances_after {w : World} {a : Stamp × Act} {k : Nat} {p : PendingAcceptance}
    (hp : (w.after a).engine.acceptances.get? k = some p) :
    w.engine.acceptances.get? k = some p ∨ decided? p.tradeId (w, a.2) = some .accepted := by
  have hsame : (w.after a).engine.acceptances = (w.serving a).acceptances := by
    obtain ⟨stamp, a⟩ := a
    cases a <;> rfl
  rw [hsame] at hp
  cases hr : w.request? a.2 with
  | none =>
    rw [serving_of_none hr] at hp
    exact Or.inl hp
  | some r =>
    rw [serving_of_some hr] at hp
    rw [decided?, hr, Option.bind_some]
    exact Engine.pending_serve hp

theorem accepted_of_pending {e : Engine} (hacceptances : e.acceptances = .empty)
    (as : List (Stamp × Act)) {k : Nat} {p : PendingAcceptance}
    (hp : ((start e).run as).engine.acceptances.get? k = some p) :
    .accepted ∈ decisions p.tradeId ((start e).trace as) := by
  refine run_trace_induction
    (R := fun h v => ∀ k p, v.engine.acceptances.get? k = some p →
      .accepted ∈ decisions p.tradeId h)
    (Q := fun _ => True) ?_ as (fun _ _ => trivial) [] (start e) ?_ k p hp
  · intro h v stamp a _ hv k p hp
    rw [decisions, List.filterMap_append, List.mem_append]
    rcases acceptances_after hp with hold | hdecided
    · exact Or.inl (hv k p hold)
    · rw [List.filterMap_cons_some hdecided]
      exact Or.inr (List.mem_cons_self ..)
  · intro k p hp
    rw [start, hacceptances, Table.get?_empty] at hp
    cases hp

theorem stands_of_pending {e : Engine} (hacceptances : e.acceptances = .empty)
    (as : List (Stamp × Act)) {k : Nat} {p : PendingAcceptance} {t : Trade}
    (hp : ((start e).run as).engine.acceptances.get? k = some p)
    (ht : ((start e).run as).engine.registry.book.live.get? p.tradeId = some t) :
    t.verdict.Stands (decisions p.tradeId ((start e).trace as)) := by
  have haccepted := accepted_of_pending hacceptances as hp
  have hverdict := verdict?_run (start e) as p.tradeId
  rw [Engine.verdict?_of_live ht] at hverdict
  cases hlast : (decisions p.tradeId ((start e).trace as)).getLast? with
  | none =>
    rw [List.getLast?_eq_none_iff.mp hlast] at haccepted
    cases haccepted
  | some v =>
    rw [hlast, Option.some_or] at hverdict
    cases hverdict
    exact Verdict.stands_of_getLast? (neutral_not_mem_decisions _ _) haccepted hlast

/-- While a payout is under way, the verdict is that of the acceptance, or of a rejection
that has come since; the trade is closed with that verdict when the payout has succeeded. -/
theorem run_verdict_stands {e : Engine} (hacceptances : e.acceptances = .empty)
    (as : List (Stamp × Act)) :
    let w := (start e).run as
    (∀ k p t, w.engine.acceptances.get? k = some p →
      w.engine.registry.book.live.get? p.tradeId = some t →
      t.verdict.Stands (decisions p.tradeId ((start e).trace as))) ∧
    ∀ a o id t, w.request? a.2 = some (.event (.payoutCompleted o)) →
      w.engine.registry.book.closed.get? id = none →
      (w.after a).engine.registry.book.closed.get? id = some t →
      t.verdict.Stands (decisions id ((start e).trace as)) := by
  intro w
  refine ⟨fun k p t hp ht => stands_of_pending hacceptances as hp ht, ?_⟩
  intro a o id t hr hopen ht
  rw [after_registry, serving_of_some hr] at ht
  obtain ⟨p, u, hp, rfl, hu, hverdict⟩ := Engine.closed_receiveOutcome hopen ht
  rw [hverdict]
  exact stands_of_pending hacceptances as hp hu

end World

namespace Sample

/-- The ruling is accepted and, while the payout is held, rejected. -/
def acceptedThenRejected : List (Stamp × Act) :=
  [(stamp, .ask (.event (.support (opening none)))),
    (stamp, .ask (.event (.support (.disputeResult forBuyer)))),
    (stamp, .ask (.accept tradeId 7)), (stamp, .ask (.reject tradeId))]

end Sample

namespace World

open Sample in
theorem run_verdict_stands_rejected :
    ∃ t, ((start Sample.engine).run acceptedThenRejected).engine.registry.book.live.get? tradeId =
        some t ∧
      t.verdict.Stands (decisions tradeId ((start Sample.engine).trace acceptedThenRejected)) := by
  have hpending : ((start Sample.engine).run acceptedThenRejected).engine.acceptances.get? 1 =
      some ⟨tradeId, 7⟩ := by decide +kernel
  have hlive : (((start Sample.engine).run acceptedThenRejected).engine.registry.book.live.get?
      tradeId).isSome = true := by decide +kernel
  obtain ⟨t, ht⟩ := Option.isSome_iff_exists.mp hlive
  exact ⟨t, ht, (run_verdict_stands (e := Sample.engine) rfl acceptedThenRejected).1 1 _ t
    hpending ht⟩

open Sample in
/-- A payout may be under way for a result that is rejected by now. -/
theorem not_verdict_accepted_of_pending :
    ¬ ∀ (e : Engine) (as : List (Stamp × Act)) (k : Nat) (p : PendingAcceptance) (t : Trade),
      e.acceptances = .empty → (∀ a ∈ as, ∀ r, a.2 = .ask r → r.IsOperation) →
      ((start e).run as).engine.acceptances.get? k = some p →
      ((start e).run as).engine.registry.book.live.get? p.tradeId = some t →
      t.verdict = .accepted := by
  intro h
  have hpending : ((start Sample.engine).run acceptedThenRejected).engine.acceptances.get? 1 =
      some ⟨tradeId, 7⟩ := by decide +kernel
  have hverdict : (((start Sample.engine).run acceptedThenRejected).engine.registry.book.live.get?
      tradeId).map Trade.verdict = some .rejected := by decide +kernel
  have hoperations : ∀ a ∈ acceptedThenRejected, ∀ r, a.2 = .ask r → r.IsOperation := by
    intro a ha r hr id u hu
    simp only [acceptedThenRejected, List.mem_cons, List.not_mem_nil, or_false] at ha
    subst hu
    rcases ha with rfl | rfl | rfl | rfl <;> cases hr
  obtain ⟨t, ht, hrejected⟩ := Option.map_eq_some_iff.mp hverdict
  have haccepted := h Sample.engine acceptedThenRejected 1 _ t rfl hoperations hpending ht
  rw [hrejected] at haccepted
  cases haccepted

end World

end Mediation
