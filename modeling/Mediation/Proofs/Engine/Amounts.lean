import Mediation.Proofs.Engine.Scope
import Mediation.Proofs.Engine.Runs

/-!
# The amounts of a payout

An operation of the engine changes of a trade only its dispute state, its
verdict and the two amounts of its payout. The amounts are written together, by
a result that reaches the trade while its mediation is open, or when a result
is accepted; the trade has those that were written last.
-/

namespace Mediation

/-- The amounts for buyer and seller. -/
def Trade.payouts (t : Trade) : Coin × Coin := (t.process.buyerPayout, t.process.sellerPayout)

def DisputeResult.payouts (r : DisputeResult) : Coin × Coin := (r.buyerPayout, r.sellerPayout)

/-- Whether a request asks for an operation; the others change a trade directly. -/
def Request.IsOperation (r : Request) : Prop := ∀ id u, r ≠ .update id u

theorem Trade.payouts_applyResult (t : Trade) (r : DisputeResult) :
    (t.applyResult r.buyerPayout r.sellerPayout).payouts =
      if t.disputeState.isMediationOpen then r.payouts else t.payouts := by
  unfold applyResult
  split <;> rfl

/-! ### Requests that write no amounts -/

namespace Case

def trade? (k : Case) : Option Trade := k.live.or k.closed

/-- A trade after a request that writes no amounts. -/
structure Kept (r : Request) (id : TradeId) (t t' : Trade) : Prop where
  id_eq : t'.id = t.id
  terms : t'.terms = t.terms
  payouts : t'.payouts = t.payouts
  verdict : t'.verdict = t.verdict ∨ (r = .reject id ∧ t'.verdict = .rejected)
  rest : r.IsOperation →
    t'.process.peer = t.process.peer ∧ t'.phase = t.phase ∧ t'.payoutTx = t.payoutTx

namespace Kept
variable {r : Request} {id : TradeId} {t t' t'' : Trade}

theorem refl (r : Request) (id : TradeId) (t : Trade) : Kept r id t t :=
  ⟨rfl, rfl, rfl, Or.inl rfl, fun _ => ⟨rfl, rfl, rfl⟩⟩

theorem trans (h : Kept r id t t') (h' : Kept r id t' t'') : Kept r id t t'' where
  id_eq := h'.id_eq.trans h.id_eq
  terms := h'.terms.trans h.terms
  payouts := h'.payouts.trans h.payouts
  verdict := by
    rcases h'.verdict with hsame | hrejected
    · rw [hsame]
      exact h.verdict
    · exact Or.inr hrejected
  rest hr := by
    obtain ⟨hpeer, hphase, htx⟩ := h.rest hr
    obtain ⟨hpeer', hphase', htx'⟩ := h'.rest hr
    exact ⟨hpeer'.trans hpeer, hphase'.trans hphase, htx'.trans htx⟩

theorem enter? (r : Request) (id : TradeId) (t : Trade) (s : Option DisputeState) :
    Kept r id t (t.enter? s) := by
  cases s with
  | none => exact refl r id t
  | some s =>
    simp only [Trade.enter?, Trade.enterDispute]
    split
    · exact ⟨rfl, rfl, rfl, Or.inl rfl, fun _ => ⟨rfl, rfl, rfl⟩⟩
    · exact refl r id t

end Kept

section Step
variable {c : MediationConfig} {r : Request} {id : TradeId} {k l : Case}

theorem Step.kept (hrules : r.result? = none) (haccepts : ∀ j caller, r ≠ .accept j caller)
    (h : Step c r id k l) {t : Trade} (ht : k.trade? = some t) :
    ∃ t', l.trade? = some t' ∧ Kept r id t t' := by
  cases h with
  | @opened live closed d stamp sender text hr hd =>
    cases live with
    | none => exact ⟨t, ht, .refl r id t⟩
    | some u =>
      obtain rfl : u = t := Option.some.inj ht
      exact ⟨u.enter? (r.entry? c), rfl, .enter? r id u _⟩
  | said d m hr hm => exact ⟨t, ht, .refl r id t⟩
  | ruled d m hr hm =>
    rw [hrules] at hr
    cases hr
  | accepted d u res hr hres =>
    obtain ⟨caller, rfl⟩ := hr
    exact absurd rfl (haccepts id caller)
  | rejected u hr =>
    cases ht
    exact ⟨_, rfl, rfl, rfl, rfl, Or.inr ⟨hr, rfl⟩, fun _ => ⟨rfl, rfl, rfl⟩⟩
  | moved u phase hr =>
    cases ht
    exact ⟨_, rfl, rfl, rfl, rfl, Or.inl rfl, fun hop => absurd hr (hop _ _)⟩
  | signed u signature hr =>
    cases ht
    exact ⟨_, rfl, rfl, rfl, rfl, Or.inl rfl, fun hop => absurd hr (hop _ _)⟩
  | paid u tx hr =>
    cases ht
    rcases hr with hr | ⟨j, caller, hr⟩
    · exact ⟨_, rfl, rfl, rfl, rfl, Or.inl rfl, fun hop => absurd hr (hop _ _)⟩
    · exact absurd hr (haccepts j caller)
  | settled u hpaid hstate =>
    cases ht
    exact ⟨_, rfl, rfl, rfl, rfl, Or.inl rfl, fun _ => ⟨rfl, rfl, rfl⟩⟩

theorem Steps.kept (hrules : r.result? = none) (haccepts : ∀ j caller, r ≠ .accept j caller)
    (h : Steps c r id k l) {t : Trade} (ht : k.trade? = some t) :
    ∃ t', l.trade? = some t' ∧ Kept r id t t' := by
  induction h with
  | refl => exact ⟨t, ht, .refl r id t⟩
  | tail _ hstep ih =>
    obtain ⟨u, hu, hkept⟩ := ih
    obtain ⟨v, hv, hkept'⟩ := hstep.kept hrules haccepts hu
    exact ⟨v, hv, hkept.trans hkept'⟩

/-- A closed trade stays as it is. -/
theorem Steps.closed_eq (h : Steps c r id k l) {t : Trade} (ht : k.closed = some t) :
    l.closed = some t := by
  induction h with
  | refl => exact ht
  | tail _ hstep ih =>
    cases hstep with
    | settled u hpaid hstate => cases ih
    | _ => exact ih

/-- A live trade of the case, if there is one, waits for no result and never will again. -/
def Spent (k : Case) : Prop :=
  ∀ t, k.live = some t → t.disputeState ≠ .noDispute ∧ t.disputeState.isMediationOpen = false

theorem Step.spent (h : Step c r id k l) (hk : k.Spent) : l.Spent := by
  intro t ht
  cases h with
  | opened d stamp sender text hr hd =>
    obtain ⟨u, hu, rfl⟩ := Option.map_eq_some_iff.mp ht
    have hstate := hk u hu
    have hsame : u.enter? (r.entry? c) = u := by
      cases r.entry? c with
      | none => rfl
      | some s => exact if_neg hstate.1
    rw [hsame]
    exact hstate
  | said d m hr hm => exact hk t ht
  | ruled d m hr hm =>
    obtain ⟨u, hu, rfl⟩ := Option.map_eq_some_iff.mp ht
    rw [Trade.applyResult_of_not_open _ _ (hk u hu).2]
    exact hk u hu
  | accepted d u res hr hres =>
    cases ht
    exact hk u rfl
  | rejected u hr =>
    cases ht
    exact hk u rfl
  | moved u phase hr =>
    cases ht
    exact hk u rfl
  | signed u signature hr =>
    cases ht
    exact hk u rfl
  | paid u tx hr =>
    cases ht
    exact hk u rfl
  | settled u hpaid hstate => cases ht

theorem Steps.spent (h : Steps c r id k l) (hk : k.Spent) : l.Spent := by
  induction h with
  | refl => exact hk
  | tail _ hstep ih => exact hstep.spent ih

end Step

end Case

/-! ### What a request writes -/

namespace Engine

/-- Whether the trade of an id is live and its mediation is open. -/
def isMediating (e : Engine) (id : TradeId) : Bool :=
  (e.registry.book.live.get? id).any fun t => t.disputeState.isMediationOpen

/-- The amounts that a request writes into the trade of an id as it applies a result to it. -/
def ruled? (e : Engine) (id : TradeId) (r : Request) : Option (Coin × Coin) :=
  ((e.applied? r).filter fun m => m.tradeId = id && e.isMediating id).map fun m => m.result.payouts

/-- The amounts that a request writes into the trade of an id as it starts the payout: those
of the result that is attached to the dispute then. -/
def accepted? (e : Engine) (id : TradeId) : Request → Option (Coin × Coin)
  | .accept j caller =>
    if j = id && (e.accept j caller).isOk then (e.attached id).map DisputeResult.payouts else none
  | _ => none

def written? (e : Engine) (id : TradeId) (r : Request) : Option (Coin × Coin) :=
  (e.ruled? id r).or (e.accepted? id r)

/-- Whether a request has the payout exchange publish the payout of the trade of an id. -/
def Publishes (e : Engine) (r : Request) (id : TradeId) : Prop :=
  e.publishesOnFinalize = true ∧
    ∃ j caller t, r = .accept j caller ∧ e.registry.book.live.get? j = some t ∧ t.id = id

/-- What serving a request makes of the trade of an id. -/
structure Amends (e : Engine) (r : Request) (id : TradeId) (t t' : Trade) : Prop where
  id_eq : t'.id = t.id
  terms : t'.terms = t.terms
  payouts : t'.payouts = (e.written? id r).getD t.payouts
  verdict : t'.verdict = t.verdict ∨ ((∃ caller, r = .accept id caller) ∧ t'.verdict = .accepted) ∨
    (r = .reject id ∧ t'.verdict = .rejected)
  peer : r.IsOperation → t'.process.peer = t.process.peer
  phase : r.IsOperation → (t'.phase = t.phase ∧ t'.payoutTx = t.payoutTx) ∨
    (e.Publishes r id ∧ t'.phase = .payoutPublished ∧ t'.payoutTx = some ⟨payoutTxid id⟩)

section Amends
variable {e : Engine} {r : Request} {id : TradeId} {t t' : Trade}

theorem Amends.of_kept (h : Case.Kept r id t t') (hwritten : e.written? id r = none) :
    Amends e r id t t' where
  id_eq := h.id_eq
  terms := h.terms
  payouts := by rw [hwritten, Option.getD_none, h.payouts]
  verdict := h.verdict.imp_right Or.inr
  peer hr := (h.rest hr).1
  phase hr := Or.inl (h.rest hr).2

theorem ruled?_of_result?_eq_none (h : r.result? = none) (id : TradeId) :
    e.ruled? id r = none := by
  rw [ruled?, applied?, h]
  rfl

theorem accepted?_of_result? {m : ResultMessage} (h : r.result? = some m) (id : TradeId) :
    e.accepted? id r = none := by
  unfold accepted?
  split
  next => cases h
  next => rfl

theorem applied?_eq_none {m : ResultMessage} (hr : r.result? = some m)
    (h : (e.takes r = false ∨ m.result.chatMessage = none) ∨
      e.disputes.find? m.tradeId = none) : e.applied? r = none := by
  rw [applied?, hr, Option.filter_some, if_neg]
  rcases h with (h | h) | h <;> simp [DisputeStore.contains, h]

theorem findTrade?_applyResult (b : Book) (id j : TradeId) (buyer seller : Coin) :
    (b.applyResult id buyer seller).findTrade? j =
      ((if j = id then (b.live.get? j).map fun t => t.applyResult buyer seller
        else b.live.get? j).or (b.closed.get? j)) := by
  rw [Book.findTrade?, Book.applyResult_live, Book.applyResult_closed]

theorem Amends.of_applyResult {m : ResultMessage}
    (hwritten : e.written? id r =
      if t.disputeState.isMediationOpen then some m.result.payouts else none) :
    Amends e r id t (t.applyResult m.result.buyerPayout m.result.sellerPayout) := by
  have hpayouts := t.payouts_applyResult m.result
  refine ⟨t.applyResult_id _ _, ?_, ?_, Or.inl ?_, fun _ => ?_, fun _ => Or.inl ?_⟩
  · unfold Trade.applyResult
    split <;> rfl
  · rw [hpayouts, hwritten]
    split <;> rfl
  · unfold Trade.applyResult
    split <;> rfl
  · unfold Trade.applyResult
    split <;> rfl
  · unfold Trade.applyResult
    split <;> exact ⟨rfl, rfl⟩

theorem Ruled.amends {e' : Engine} {m : ResultMessage} {closing : ChatMessage}
    (h : Ruled e m closing e') (hr : r.result? = some m) (happlied : e.applied? r = some m)
    (ht : e.registry.book.findTrade? id = some t) :
    ∃ t', e'.registry.book.findTrade? id = some t' ∧ Amends e r id t t' := by
  have hruled : e.ruled? id r = if m.tradeId = id && e.isMediating id then some m.result.payouts
      else none := by
    rw [ruled?, happlied, Option.filter_some]
    split <;> rfl
  have hwritten : e.written? id r = e.ruled? id r := by
    rw [written?, accepted?_of_result? hr, Option.or_none]
  have hfind := findTrade?_applyResult e.registry.book m.tradeId id m.result.buyerPayout
    m.result.sellerPayout
  rw [← h.book] at hfind
  cases hlive : e.registry.book.live.get? id with
  | none =>
    -- a closed trade is out of reach of the result
    have hsame : e'.registry.book.findTrade? id = some t := by
      rw [hfind, ← ht, Book.findTrade?, hlive, Option.map_none, ite_self]
    refine ⟨t, hsame, .of_kept (.refl r id t) ?_⟩
    rw [hwritten, hruled, isMediating, hlive, Option.any_none, Bool.and_false]
    rfl
  | some u =>
    obtain rfl : u = t := by
      rw [Book.findTrade?, hlive, Option.some_or] at ht
      exact Option.some.inj ht
    have hopen : e.isMediating id = u.disputeState.isMediationOpen := by
      rw [isMediating, hlive, Option.any_some]
    by_cases hid : id = m.tradeId
    · refine ⟨u.applyResult m.result.buyerPayout m.result.sellerPayout, ?_, .of_applyResult ?_⟩
      · rw [hfind, hlive, if_pos hid]
        rfl
      · rw [hwritten, hruled, hopen, decide_eq_true hid.symm, Bool.true_and]
    · have hsame : e'.registry.book.findTrade? id = some u := by
        rw [hfind, hlive, if_neg hid]
        rfl
      refine ⟨u, hsame, .of_kept (.refl r id u) ?_⟩
      rw [hwritten, hruled, decide_eq_false (Ne.symm hid), Bool.false_and]
      rfl

theorem result_amends {m : ResultMessage} (hr : r.result? = some m)
    (ht : e.registry.book.findTrade? id = some t) (stamp : Stamp) :
    ∃ t', (e.serve stamp r).1.registry.book.findTrade? id = some t' ∧ Amends e r id t t' := by
  have hidle : e.applied? r = none → Amends e r id t t := by
    intro happlied
    refine .of_kept (.refl r id t) ?_
    rw [written?, ruled?, happlied, accepted?_of_result? hr]
    rfl
  rcases serve_result_cases hr stamp with
    ⟨hdropped, hsame⟩ | ⟨hmissing, a, hmissed⟩ | ⟨htakes, hstored, closing, hclosing, hruled⟩
  · rw [hsame]
    exact ⟨t, ht, hidle (applied?_eq_none hr (Or.inl hdropped))⟩
  · rw [hmissed, missDispute_eq]
    exact ⟨t, ht, hidle (applied?_eq_none hr (Or.inr hmissing))⟩
  · obtain ⟨a, ha⟩ := Request.attempt?_of_result? hr
    exact hruled.amends hr (applied?_of_attempt? ha htakes hclosing hstored) ht

theorem findTrade?_askPayout {e : Engine} (step : PayoutStep) (u : Trade) (c : Completion)
    (ht : e.registry.book.findTrade? id = some t) :
    (e.askPayout step u c).registry.book.findTrade? id = some t ∨
      (e.publishesOnFinalize = true ∧ u.id = id ∧
        (e.askPayout step u c).registry.book.findTrade? id =
          some { t with payoutTx := some ⟨payoutTxid id⟩, phase := .payoutPublished }) := by
  simp only [askPayout]
  split
  next hpublishes =>
    have hfind : (e.registry.setPayoutTx u.id ⟨payoutTxid u.id⟩).book.findTrade? id =
        ((e.registry.setPayoutTx u.id ⟨payoutTxid u.id⟩).book.live.get? id).or
          (e.registry.book.closed.get? id) := rfl
    rw [setPayoutTx_live] at hfind
    by_cases hid : id = u.id
    · cases hlive : e.registry.book.live.get? id with
      | none =>
        left
        rw [hfind, ← ht, Book.findTrade?, hlive, Option.map_none, ite_self]
      | some v =>
        obtain rfl : v = t := by
          rw [Book.findTrade?, hlive, Option.some_or] at ht
          exact Option.some.inj ht
        simp only [Bool.and_eq_true] at hpublishes
        refine Or.inr ⟨hpublishes.1.1, hid.symm, ?_⟩
        rw [hfind, if_pos hid, hlive, ← hid]
        rfl
    · left
      rw [hfind, if_neg hid, ← ht]
      rfl
  next => exact Or.inl ht

theorem accept_amends {e' : Engine} {j : TradeId} {caller ticket : Nat}
    (hok : e.accept j caller = .ok (e', ticket)) (ht : e.registry.book.findTrade? id = some t) :
    ∃ t', e'.registry.book.findTrade? id = some t' ∧ Amends e (.accept j caller) id t t' := by
  obtain ⟨d, res, u, step, hd, hres, hu, -, rfl⟩ := accept_ok hok
  have hisOk : (e.accept j caller).isOk = true := by
    rw [hok]
    rfl
  have hwritten : e.written? id (.accept j caller) = if j = id then some res.payouts else none := by
    have hruled : e.ruled? id (.accept j caller) = none := ruled?_of_result?_eq_none rfl id
    rw [written?, hruled, Option.none_or, accepted?, hisOk, Bool.and_true]
    by_cases hj : j = id
    · subst hj
      rw [attached, hd, Option.bind_some, hres, if_pos (decide_eq_true rfl), if_pos rfl]
      rfl
    · rw [if_neg hj, if_neg (by simpa using hj)]
  -- the trade as it is when the exchange is asked, which may publish its payout then
  obtain ⟨v, hv, hamends⟩ : ∃ v, (e.accepting j caller res).registry.book.findTrade? id = some v ∧
      Amends e (.accept j caller) id t v ∧ v.phase = t.phase ∧ v.payoutTx = t.payoutTx := by
    have hfind : (e.accepting j caller res).registry.book.findTrade? id =
        ((e.registry.book.update j fun t => acceptedTrade t res).live.get? id).or
          (e.registry.book.closed.get? id) := rfl
    rw [Book.update_live] at hfind
    by_cases hid : id = j
    · subst hid
      obtain rfl : u = t := by
        rw [Book.findTrade?, hu, Option.some_or] at ht
        exact Option.some.inj ht
      refine ⟨acceptedTrade u res, ?_, ⟨rfl, rfl, ?_, Or.inr (Or.inl ⟨⟨caller, rfl⟩, rfl⟩),
        fun _ => rfl, fun _ => Or.inl ⟨rfl, rfl⟩⟩, rfl, rfl⟩
      · rw [hfind, if_pos rfl, hu]
        rfl
      · rw [hwritten, if_pos rfl]
        rfl
    · refine ⟨t, ?_, .of_kept (.refl _ id t) ?_, rfl, rfl⟩
      · rw [hfind, if_neg hid, ← ht]
        rfl
      · rw [hwritten, if_neg (Ne.symm hid)]
  obtain ⟨hamends, hphase, htx⟩ := hamends
  rcases findTrade?_askPayout step (acceptedTrade u res) ⟨e.tickets + 1, j⟩ hv with
    hsame | ⟨hpublishes, hid, hpaid⟩
  · exact ⟨v, hsame, hamends⟩
  · refine ⟨_, hpaid, hamends.id_eq, hamends.terms, hamends.payouts, hamends.verdict,
      hamends.peer, fun _ => Or.inr ⟨⟨hpublishes, j, caller, u, rfl, hu, hid⟩, rfl, rfl⟩⟩

/-- Whatever is asked for, a trade stays and is amended at most. -/
theorem serve_amends (ht : e.registry.book.findTrade? id = some t) (stamp : Stamp) (r : Request) :
    ∃ t', (e.serve stamp r).1.registry.book.findTrade? id = some t' ∧ Amends e r id t t' := by
  cases hrules : r.result? with
  | some m => exact result_amends hrules ht stamp
  | none =>
    have hruled : e.ruled? id r = none := ruled?_of_result?_eq_none hrules id
    by_cases haccepts : ∃ j caller, r = .accept j caller
    · obtain ⟨j, caller, rfl⟩ := haccepts
      cases hok : e.accept j caller with
      | ok p =>
        simp only [serve, hok]
        exact accept_amends hok ht
      | error err =>
        simp only [serve, hok]
        refine ⟨t, ht, .of_kept (.refl _ id t) ?_⟩
        rw [written?, hruled, Option.none_or, accepted?, hok]
        exact if_neg (by simp [Except.isOk, Except.toBool])
    · have haccepts' : ∀ j caller, r ≠ .accept j caller := fun j caller hr =>
        haccepts ⟨j, caller, hr⟩
      obtain ⟨t', ht', hkept⟩ := (serve_steps e stamp r id).kept hrules haccepts' ht
      refine ⟨t', ht', .of_kept hkept ?_⟩
      rw [written?, hruled, Option.none_or]
      unfold accepted?
      split
      next j caller => exact absurd rfl (haccepts' j caller)
      next => rfl

/-- A trade that a result has reached waits for no other. -/
theorem spent_of_ruled? {p : Coin × Coin} (h : e.ruled? id r = some p) (stamp : Stamp) :
    ¬ (e.caseOf id).Spent ∧ ((e.serve stamp r).1.caseOf id).Spent := by
  obtain ⟨m, hm, -⟩ := Option.map_eq_some_iff.mp h
  obtain ⟨happlied, hcond⟩ := Option.filter_eq_some_iff.mp hm
  simp only [Bool.and_eq_true, decide_eq_true_eq] at hcond
  obtain ⟨rfl, hmediating⟩ := hcond
  obtain ⟨t, ht, hopen⟩ := (Option.any_eq_true _ _).mp hmediating
  constructor
  · intro hspent
    rw [(hspent t ht).2] at hopen
    cases hopen
  · obtain ⟨hr, htakes, ⟨closing, hclosing⟩, hstored⟩ := applied?_some happlied
    have hruled := serve_result_of_stored hr htakes hclosing hstored stamp
    intro u hu
    have hlive : (e.serve stamp r).1.registry.book.live.get? m.tradeId = some u := hu
    rw [hruled.book, Book.applyResult_live, if_pos rfl, ht, Option.map_some] at hlive
    cases hlive
    rw [Trade.applyResult, if_pos hopen]
    refine ⟨?_, rfl⟩
    intro h
    cases h

end Amends

end Engine

/-! ### Runs -/

namespace World

/-- The amounts that an act writes into the trade of an id. -/
def written? (id : TradeId) (x : World × Act) : Option (Coin × Coin) :=
  (x.1.request? x.2).bind (x.1.engine.written? id)

/-- The amounts that an act writes into the trade of an id as it applies a result to it. -/
def ruled? (id : TradeId) (x : World × Act) : Option (Coin × Coin) :=
  (x.1.request? x.2).bind (x.1.engine.ruled? id)

theorem after_registry (w : World) (a : Stamp × Act) :
    (w.after a).engine.registry = (w.serving a).registry := by
  obtain ⟨stamp, a⟩ := a
  cases a <;> rfl

theorem after_payouts {w : World} {id : TradeId} {t : Trade}
    (ht : w.engine.registry.book.findTrade? id = some t) (a : Stamp × Act) :
    ∃ t', (w.after a).engine.registry.book.findTrade? id = some t' ∧
      t'.payouts = (written? id (w, a.2)).getD t.payouts := by
  rw [after_registry, written?]
  cases hr : w.request? a.2 with
  | none =>
    rw [serving_of_none hr]
    exact ⟨t, ht, rfl⟩
  | some r =>
    rw [serving_of_some hr]
    obtain ⟨t', ht', hamends⟩ := Engine.serve_amends ht a.1 r
    exact ⟨t', ht', hamends.payouts⟩

theorem after_spent {w : World} {id : TradeId} (h : (w.engine.caseOf id).Spent)
    (a : Stamp × Act) : ((w.after a).engine.caseOf id).Spent := by
  rcases w.after_engine a with ⟨r, -, hserved⟩ | ⟨-, hsame⟩
  · exact (hserved.steps id).spent h
  · rw [hsame]
    exact h

/-- A trade has the amounts that were written last. -/
theorem run_payouts {w : World} {id : TradeId} {t : Trade}
    (ht : w.engine.registry.book.findTrade? id = some t) (as : List (Stamp × Act)) :
    ∃ t', (w.run as).engine.registry.book.findTrade? id = some t' ∧
      t'.payouts = ((w.trace as).filterMap (written? id)).getLast?.getD t.payouts := by
  refine run_trace_induction
    (R := fun h w => ∃ t', w.engine.registry.book.findTrade? id = some t' ∧
      t'.payouts = (h.filterMap (written? id)).getLast?.getD t.payouts)
    (Q := fun _ => True) ?_ as (fun _ _ => trivial) [] w ⟨t, ht, rfl⟩
  rintro h w stamp a - ⟨u, hu, hpayouts⟩
  obtain ⟨u', hu', hpayouts'⟩ := after_payouts hu (stamp, a)
  refine ⟨u', hu', ?_⟩
  rw [hpayouts', List.filterMap_append]
  cases hw : written? id (w, a) with
  | none => rw [List.filterMap_cons_none hw, List.filterMap_nil, List.append_nil, Option.getD_none,
      hpayouts]
  | some p => rw [List.filterMap_cons_some hw, List.filterMap_nil, List.getLast?_concat]; rfl

/-- One result at most writes its amounts into a trade. -/
theorem run_ruled_once (w : World) (id : TradeId) (as : List (Stamp × Act)) :
    ((w.trace as).filterMap (ruled? id)).length ≤ 1 := by
  have hrun := run_trace_induction
    (R := fun h w => (h.filterMap (ruled? id)).length ≤ 1 ∧
      (h.filterMap (ruled? id) ≠ [] → (w.engine.caseOf id).Spent))
    (Q := fun _ => True) ?_ as (fun _ _ => trivial) [] w
    ⟨Nat.zero_le 1, fun hne => absurd rfl hne⟩
  · exact hrun.1
  · rintro h w stamp a - ⟨honce, hspent⟩
    rw [List.filterMap_append]
    cases hruled : ruled? id (w, a) with
    | none =>
      rw [List.filterMap_cons_none hruled, List.filterMap_nil, List.append_nil]
      exact ⟨honce, fun hne => after_spent (hspent hne) (stamp, a)⟩
    | some p =>
      obtain ⟨r, hr, hp⟩ := Option.bind_eq_some_iff.mp hruled
      obtain ⟨hbefore, hafter⟩ := Engine.spent_of_ruled? hp stamp
      have hnone : h.filterMap (ruled? id) = [] :=
        Decidable.byContradiction fun hne => hbefore (hspent hne)
      rw [hnone, List.filterMap_cons_some hruled, List.filterMap_nil, List.nil_append]
      refine ⟨Nat.le_refl 1, fun _ => ?_⟩
      have hserving : (w.serving (stamp, a)) = (w.engine.serve stamp r).1 :=
        serving_of_some (a := (stamp, a)) hr
      rw [← hserving] at hafter
      intro t ht
      refine hafter t ?_
      have hlive : (w.after (stamp, a)).engine.registry.book.live.get? id = some t := ht
      rw [after_registry] at hlive
      exact hlive

/-- An operation of the engine changes of a trade no more than its dispute state, the two
amounts of its payout and its verdict, apart from a payout that the exchange publishes. The
amounts are those that were written last, and one result at most has written any. -/
theorem trade_amended_by_results {w : World} {id : TradeId} {t : Trade}
    (ht : w.engine.registry.book.findTrade? id = some t) :
    (∀ stamp r, r.IsOperation →
      let book := (w.engine.serve stamp r).1.registry.book
      (∃ t', book.findTrade? id = some t' ∧
        t'.id = t.id ∧ t'.terms = t.terms ∧ t'.process.peer = t.process.peer ∧
        ((t'.phase = t.phase ∧ t'.payoutTx = t.payoutTx) ∨
          (w.engine.Publishes r id ∧ t'.phase = .payoutPublished ∧
            t'.payoutTx = some ⟨Engine.payoutTxid id⟩)) ∧
        (t'.process.buyerPayout, t'.process.sellerPayout) =
          (w.engine.written? id r).getD (t.process.buyerPayout, t.process.sellerPayout) ∧
        (t'.verdict = t.verdict ∨
          ((∃ caller, r = .accept id caller) ∧ t'.verdict = .accepted) ∨
          (r = .reject id ∧ t'.verdict = .rejected))) ∧
      ∀ c, w.engine.registry.book.closed.get? id = some c → book.closed.get? id = some c) ∧
    ∀ as,
      (∃ t', (w.run as).engine.registry.book.findTrade? id = some t' ∧
        (t'.process.buyerPayout, t'.process.sellerPayout) =
          ((w.trace as).filterMap (written? id)).getLast?.getD
            (t.process.buyerPayout, t.process.sellerPayout)) ∧
      ((w.trace as).filterMap (ruled? id)).length ≤ 1 := by
  refine ⟨fun stamp r hr => ⟨?_, ?_⟩, fun as => ⟨run_payouts ht as, run_ruled_once w id as⟩⟩
  · obtain ⟨t', ht', h⟩ := Engine.serve_amends ht stamp r
    exact ⟨t', ht', h.id_eq, h.terms, h.peer hr, h.phase hr, h.payouts, h.verdict⟩
  · intro c hc
    exact (Engine.serve_steps w.engine stamp r id).closed_eq hc

end World

namespace Sample

/-- After the ruling for the buyer comes one for the seller, and then the first again. -/
def ruledThrice : List (Stamp × Act) :=
  [(stamp, .ask (.event (.support (opening none)))),
    (stamp, .ask (.event (.support (.disputeResult forBuyer)))),
    (stamp, .ask (.event (.support (.disputeResult forSeller)))),
    (stamp, .ask (.event (.support (.disputeResult forBuyer))))]

end Sample

namespace World

open Sample in
theorem trade_amended_by_results_for_seller :
    ∃ t, ((start Sample.engine).run ruledThrice).engine.registry.book.findTrade? tradeId = some t ∧
      (t.process.buyerPayout, t.process.sellerPayout) = forBuyer.result.payouts ∧
      ∃ t', (((start Sample.engine).run (ruledThrice.take 3)).run
          [(stamp, .ask (.accept tradeId 7))]).engine.registry.book.findTrade? tradeId = some t' ∧
        (t'.process.buyerPayout, t'.process.sellerPayout) = forSeller.result.payouts := by
  have hstart : (start Sample.engine).engine.registry.book.findTrade? tradeId = some trade := rfl
  have hwritten : ((start Sample.engine).trace ruledThrice).filterMap (written? tradeId) =
      [forBuyer.result.payouts] := by decide +kernel
  have haccepted : ((start Sample.engine).trace (ruledThrice.take 3 ++
      [(stamp, .ask (.accept tradeId 7))])).filterMap (written? tradeId) =
        [forBuyer.result.payouts, forSeller.result.payouts] := by decide +kernel
  obtain ⟨t, ht, hpayouts⟩ := ((trade_amended_by_results hstart).2 ruledThrice).1
  obtain ⟨t', ht', hpayouts'⟩ := ((trade_amended_by_results hstart).2 (ruledThrice.take 3 ++
    [(stamp, .ask (.accept tradeId 7))])).1
  rw [hwritten] at hpayouts
  rw [haccepted] at hpayouts'
  rw [run_append] at ht'
  exact ⟨t, ht, hpayouts, t', ht', hpayouts'⟩

end World

end Mediation
