import Mathlib.Logic.Relation
import Mediation.Proofs.Engine.Serving

/-!
# The case of a trade

What an engine holds about one trade, and everything that can happen to it.
Whatever a request does, the case of each trade goes through steps of
`Case.Step`: an invariant of cases is shown once for each step.
-/

namespace Mediation

/-- The dispute about a trade, and the trade while it is live or once it is closed. -/
structure Case where
  dispute : Option Dispute
  live : Option Trade
  closed : Option Trade

def Engine.caseOf (e : Engine) (id : TradeId) : Case where
  dispute := e.disputes.find? id
  live := e.registry.book.live.get? id
  closed := e.registry.book.closed.get? id

def Trade.enter? (t : Trade) : Option DisputeState → Trade
  | none => t
  | some s => t.enterDispute s

/-- Whether a request brings a chat message: as such, or to close a dispute. -/
def Request.Brings (r : Request) (m : ChatMessage) : Prop :=
  r = .event (.support (.chat m)) ∨ ∃ n, r.result? = some n ∧ n.result.chatMessage = some m

namespace Case

/-- One thing that a request does to the case of a trade. -/
inductive Step (c : MediationConfig) (r : Request) (id : TradeId) : Case → Case → Prop where
  | opened {live closed : Option Trade} (d : Dispute) (stamp : Stamp) (sender : NodeAddress)
      (text : String) (hr : r.dispute? = some d) (hd : d.tradeId = id) :
      Step c r id ⟨none, live, closed⟩
        ⟨some (d.addMessage (.system stamp id c.supportType sender text)),
          live.map fun t => t.enter? (r.entry? c), closed⟩
  | said {live closed : Option Trade} (d : Dispute) (m : ChatMessage) (hr : r.Brings m)
      (hm : m.tradeId = id) :
      Step c r id ⟨some d, live, closed⟩ ⟨some (d.addMessage m), live, closed⟩
  | ruled {live closed : Option Trade} (d : Dispute) (m : ResultMessage)
      (hr : r.result? = some m) (hm : m.tradeId = id) :
      Step c r id ⟨some d, live, closed⟩
        ⟨some (d.close.attach m.result),
          live.map fun t => t.applyResult m.result.buyerPayout m.result.sellerPayout, closed⟩
  | accepted {closed : Option Trade} (d : Dispute) (t : Trade) (res : DisputeResult)
      (hr : ∃ caller, r = .accept id caller) (hres : d.result = some res) :
      Step c r id ⟨some d, some t, closed⟩ ⟨some d, some (Engine.acceptedTrade t res), closed⟩
  | rejected {dispute : Option Dispute} {closed : Option Trade} (t : Trade) (hr : r = .reject id) :
      Step c r id ⟨dispute, some t, closed⟩
        ⟨dispute, some { t with verdict := .rejected }, closed⟩
  | moved {dispute : Option Dispute} {closed : Option Trade} (t : Trade) (phase : TradePhase)
      (hr : r = .update id (.phase phase)) :
      Step c r id ⟨dispute, some t, closed⟩ ⟨dispute, some { t with phase := phase }, closed⟩
  | signed {dispute : Option Dispute} {closed : Option Trade} (t : Trade)
      (signature : List UInt8) (hr : r = .update id (.peerSignature signature)) :
      Step c r id ⟨dispute, some t, closed⟩
        ⟨dispute, some (t.setPeerSignature signature), closed⟩
  | paid {dispute : Option Dispute} {closed : Option Trade} (t : Trade) (tx : PayoutTx)
      (hr : r = .update id (.payoutTx tx.txid) ∨ ∃ j caller, r = .accept j caller) :
      Step c r id ⟨dispute, some t, closed⟩
        ⟨dispute, some { t with payoutTx := some tx, phase := .payoutPublished }, closed⟩
  | settled {dispute : Option Dispute} (t : Trade) (hpaid : t.isPayoutPublished = true)
      (hstate : t.disputeState = .mediationClosed ∨
        t.disputeState.canBecome .mediationClosed = true) :
      Step c r id ⟨dispute, some t, none⟩
        ⟨dispute, none, some { t with disputeState := .mediationClosed }⟩

def Steps (c : MediationConfig) (r : Request) (id : TradeId) : Case → Case → Prop :=
  Relation.ReflTransGen (Step c r id)

theorem Steps.refl (c : MediationConfig) (r : Request) (id : TradeId) (k : Case) :
    Steps c r id k k := Relation.ReflTransGen.refl

theorem Step.steps {c : MediationConfig} {r : Request} {id : TradeId} {k l : Case}
    (h : Step c r id k l) : Steps c r id k l := Relation.ReflTransGen.single h

end Case

namespace Engine

theorem caseOf_congr {e e' : Engine} {id : TradeId}
    (hd : e'.disputes.find? id = e.disputes.find? id) (hb : e'.registry.book = e.registry.book) :
    e'.caseOf id = e.caseOf id := by
  simp only [caseOf, hd, hb]

theorem caseOf_of_none {e : Engine} {id : TradeId} (h : e.disputes.find? id = none) :
    e.caseOf id = ⟨none, e.registry.book.live.get? id, e.registry.book.closed.get? id⟩ := by
  simp only [caseOf, h]

theorem caseOf_of_some {e : Engine} {id : TradeId} {d : Dispute}
    (h : e.disputes.find? id = some d) :
    e.caseOf id = ⟨some d, e.registry.book.live.get? id, e.registry.book.closed.get? id⟩ := by
  simp only [caseOf, h]

/-! ### Opening, chat and results -/

theorem addDispute_steps {e : Engine} {r : Request} {d : Dispute} (stamp : Stamp) (text : String)
    (hr : r.dispute? = some d) (hnone : e.disputes.find? d.tradeId = none) (id : TradeId) :
    Case.Steps e.config r id (e.caseOf id)
      ((e.addDispute stamp d text (r.entry? e.config)).caseOf id) := by
  have hfind := find?_addDispute hnone stamp text (r.entry? e.config)
  have hbook := addDispute_book e stamp d text (r.entry? e.config)
  by_cases hid : id = d.tradeId
  · subst hid
    have hafter : (e.addDispute stamp d text (r.entry? e.config)).caseOf d.tradeId =
        ⟨some (d.addMessage (.system stamp d.tradeId e.config.supportType e.address text)),
          (e.registry.book.live.get? d.tradeId).map fun t => t.enter? (r.entry? e.config),
          e.registry.book.closed.get? d.tradeId⟩ := by
      simp only [caseOf, hfind, hbook, if_true]
      cases r.entry? e.config with
      | none => simp only [Trade.enter?, Option.map_id']
      | some s =>
        simp only [Trade.enter?, Book.update_live, if_true]
        rfl
    rw [caseOf_of_none hnone, hafter]
    exact (Case.Step.opened d stamp e.address text hr rfl).steps
  · have hsame : (e.addDispute stamp d text (r.entry? e.config)).caseOf id = e.caseOf id := by
      simp only [caseOf, hfind, hbook, if_neg hid]
      cases r.entry? e.config with
      | none => rfl
      | some s =>
        simp only [Book.update_live, if_neg hid]
        rfl
    rw [hsame]
    exact Case.Steps.refl _ _ _ _

theorem append_steps {c : MediationConfig} {e e' : Engine} {r : Request} {id : TradeId}
    {m : ChatMessage}
    (hr : r.Brings m) (hd : e'.disputes.disputes = (e.disputes.append m).disputes)
    (hb : e'.registry.book = e.registry.book) :
    Case.Steps c r id (e.caseOf id) (e'.caseOf id) := by
  have hfind : e'.disputes.find? id = (e.disputes.append m).find? id := by
    simp only [DisputeStore.find?, hd]
  rw [DisputeStore.find?_append] at hfind
  by_cases hid : id = m.tradeId
  · rw [if_pos hid] at hfind
    cases hstored : e.disputes.find? id with
    | none =>
      rw [hstored, Option.map_none] at hfind
      rw [caseOf_congr (hfind.trans hstored.symm) hb]
      exact Case.Steps.refl _ _ _ _
    | some d =>
      rw [hstored, Option.map_some] at hfind
      rw [caseOf_of_some hstored, caseOf_of_some hfind, hb]
      exact (Case.Step.said d m hr hid.symm).steps
  · rw [if_neg hid] at hfind
    rw [caseOf_congr hfind hb]
    exact Case.Steps.refl _ _ _ _

theorem ruled_steps {c : MediationConfig} {e e' : Engine} {r : Request} {m : ResultMessage}
    {closing : ChatMessage} (hr : r.result? = some m)
    (hclosing : m.result.chatMessage = some closing)
    (hstored : e.disputes.contains m.tradeId = true) (h : Ruled e m closing e') (id : TradeId) :
    Case.Steps c r id (e.caseOf id) (e'.caseOf id) := by
  -- first the closing message is added to the chat it names, then the result is applied
  have hsaid : Case.Steps c r id (e.caseOf id)
      (caseOf { e with disputes := e.disputes.append closing } id) :=
    append_steps (Or.inr ⟨m, hr, hclosing⟩) rfl rfl
  refine hsaid.trans ?_
  have hfind := h.find? id
  have hlive := Book.applyResult_live e.registry.book m.tradeId id m.result.buyerPayout
    m.result.sellerPayout
  have hclosed := Book.applyResult_closed e.registry.book m.tradeId m.result.buyerPayout
    m.result.sellerPayout
  by_cases hid : id = m.tradeId
  · obtain ⟨d, hd⟩ : ∃ d, (e.disputes.append closing).find? id = some d := by
      rw [hid]
      rw [← DisputeStore.contains_append _ closing] at hstored
      exact Option.isSome_iff_exists.mp hstored
    rw [if_pos hid, hd, Option.map_some] at hfind
    rw [if_pos hid] at hlive
    rw [caseOf_of_some hfind, h.book, hlive, hclosed]
    rw [caseOf_of_some (e := { e with disputes := e.disputes.append closing }) hd]
    exact (Case.Step.ruled d m hr hid.symm).steps
  · rw [if_neg hid] at hfind hlive
    have hsame : e'.caseOf id = caseOf { e with disputes := e.disputes.append closing } id := by
      simp only [caseOf, hfind, h.book, hlive, hclosed]
    rw [hsame]

/-! ### Trades -/

theorem update_steps {c : MediationConfig} {e e' : Engine} {r : Request} {id j : TradeId}
    {f : Trade → Trade} (hd : e'.disputes = e.disputes)
    (hlive : ∀ i, e'.registry.book.live.get? i =
      if i = j then (e.registry.book.live.get? i).map f else e.registry.book.live.get? i)
    (hclosed : e'.registry.book.closed = e.registry.book.closed)
    (hstep : ∀ t, id = j → e.registry.book.live.get? id = some t →
      Case.Steps c r id (e.caseOf id)
        ⟨e.disputes.find? id, some (f t), e.registry.book.closed.get? id⟩) :
    Case.Steps c r id (e.caseOf id) (e'.caseOf id) := by
  by_cases hid : id = j
  · cases ht : e.registry.book.live.get? id with
    | none =>
      have hsame : e'.caseOf id = e.caseOf id := by
        simp only [caseOf, hd, hlive, hclosed, if_pos hid, ht, Option.map_none]
      rw [hsame]
      exact Case.Steps.refl _ _ _ _
    | some t =>
      have hafter : e'.caseOf id =
          ⟨e.disputes.find? id, some (f t), e.registry.book.closed.get? id⟩ := by
        simp only [caseOf, hd, hlive, hclosed, if_pos hid, ht, Option.map_some]
      rw [hafter]
      exact hstep t hid ht
  · have hsame : e'.caseOf id = e.caseOf id := by
      simp only [caseOf, hd, hlive, hclosed, if_neg hid]
    rw [hsame]
    exact Case.Steps.refl _ _ _ _

theorem caseOf_of_live {e : Engine} {id : TradeId} {t : Trade}
    (h : e.registry.book.live.get? id = some t) :
    e.caseOf id = ⟨e.disputes.find? id, some t, e.registry.book.closed.get? id⟩ := by
  simp only [caseOf, h]

theorem setPayoutTx_steps {c : MediationConfig} {e e' : Engine} {r : Request} {id j : TradeId}
    {tx : PayoutTx} (hr : r = .update j (.payoutTx tx.txid) ∨ ∃ i caller, r = .accept i caller)
    (hd : e'.disputes = e.disputes)
    (hb : e'.registry.book = (e.registry.setPayoutTx j tx).book) :
    Case.Steps c r id (e.caseOf id) (e'.caseOf id) := by
  refine update_steps (j := j)
    (f := fun t => { t with payoutTx := some tx, phase := .payoutPublished }) hd ?_ ?_ ?_
  · intro i
    rw [hb]
    exact setPayoutTx_live e.registry j i tx
  · rw [hb]
    rfl
  · intro t hid ht
    rw [caseOf_of_live ht]
    refine (Case.Step.paid t tx ?_).steps
    rw [hid]
    exact hr

theorem change_steps {c : MediationConfig} (e : Engine) (j : TradeId) (u : TradeUpdate)
    (id : TradeId) :
    Case.Steps c (.update j u) id (e.caseOf id) ((e.change j u).1.caseOf id) := by
  unfold change
  split
  next =>
    cases u with
    | phase phase =>
      refine update_steps (j := j) (f := fun t => { t with phase := phase }) rfl
        (fun i => Book.update_live _ j i _) rfl ?_
      intro t hid ht
      rw [caseOf_of_live ht]
      exact (Case.Step.moved t phase (by rw [hid])).steps
    | payoutTx txid =>
      have hr : Request.update j (.payoutTx txid) = .update j (.payoutTx (PayoutTx.mk txid).txid) :=
        rfl
      exact setPayoutTx_steps (Or.inl hr) rfl rfl
    | peerSignature signature =>
      refine update_steps (j := j) (f := fun t => t.setPeerSignature signature) rfl
        (fun i => Book.update_live _ j i _) rfl ?_
      intro t hid ht
      rw [caseOf_of_live ht]
      exact (Case.Step.signed t signature (by rw [hid])).steps
  next => exact Case.Steps.refl _ _ _ _

theorem reject_steps {c : MediationConfig} (e : Engine) (j id : TradeId) :
    Case.Steps c (.reject j) id (e.caseOf id)
      ((e.updateTrade j fun t => { t with verdict := .rejected }).storeTrades.caseOf id) := by
  refine update_steps (j := j) (f := fun t => { t with verdict := .rejected }) rfl
    (fun i => Book.update_live _ j i _) rfl ?_
  intro t hid ht
  rw [caseOf_of_live ht]
  exact (Case.Step.rejected t (by rw [hid])).steps

theorem accept_steps {c : MediationConfig} {e e' : Engine} {j : TradeId} {caller ticket : Nat}
    (h : e.accept j caller = .ok (e', ticket)) (id : TradeId) :
    Case.Steps c (.accept j caller) id (e.caseOf id) (e'.caseOf id) := by
  obtain ⟨d, r, t, step, hd, hr, ht, -, rfl⟩ := accept_ok h
  -- the result goes to the trade, and then the exchange may publish the payout
  have haccepted : Case.Steps c (.accept j caller) id (e.caseOf id)
      ((e.accepting j caller r).caseOf id) := by
    refine update_steps (j := j) (f := fun t => acceptedTrade t r) rfl
      (fun i => Book.update_live _ j i _) rfl ?_
    intro u hid hu
    rw [caseOf_of_live hu, hid, hd]
    exact (Case.Step.accepted d u r ⟨caller, rfl⟩ hr).steps
  refine haccepted.trans ?_
  rcases askPayout_registry (e.accepting j caller r) step (acceptedTrade t r) ⟨ticket, j⟩
    with hsame | hpaid
  · have hcase : ((e.accepting j caller r).askPayout step (acceptedTrade t r)
        ⟨ticket, j⟩).caseOf id = (e.accepting j caller r).caseOf id :=
      caseOf_congr rfl (congrArg Registry.book hsame)
    rw [hcase]
  · exact setPayoutTx_steps (Or.inr ⟨j, caller, rfl⟩) rfl (congrArg Registry.book hpaid)

/-! ### Closing trades -/

theorem closePaidTrade?_steps {e e' : Engine} {j : TradeId} (h : e.closePaidTrade? j = some e')
    (c : MediationConfig) (r : Request) (id : TradeId) :
    Case.Steps c r id (e.caseOf id) (e'.caseOf id) := by
  obtain ⟨t, ht, hclosed, hpaid, hstate, rfl⟩ := closePaidTrade?_some h
  by_cases hid : id = j
  · subst hid
    rw [caseOf_of_live ht, hclosed]
    simp only [caseOf, Registry.withBook, Table.get?_erase_self, Table.get?_insert_self]
    exact (Case.Step.settled t hpaid hstate).steps
  · simp only [caseOf, Registry.withBook, Table.get?_erase_of_ne _ hid,
      Table.get?_insert_of_ne _ _ hid]
    exact Case.Steps.refl _ _ _ _

theorem closePaidTrades_steps (c : MediationConfig) (r : Request) (id : TradeId)
    (ids : List TradeId) (e : Engine) :
    Case.Steps c r id (e.caseOf id) ((e.closePaidTrades ids).1.caseOf id) := by
  induction ids generalizing e with
  | nil => exact Case.Steps.refl _ _ _ _
  | cons j ids ih =>
    unfold closePaidTrades
    split
    next => exact ih e
    next e' h => exact (closePaidTrade?_steps h c r id).trans (ih e')

theorem cleanup_steps (c : MediationConfig) (r : Request) (id : TradeId) (e : Engine) :
    Case.Steps c r id (e.caseOf id) (e.cleanup.1.caseOf id) := by
  have h := closePaidTrades_steps c r id e.disputes.disputes.keys e
  simp only [cleanup]
  split
  · exact h
  · exact h

theorem receiveOutcome_steps (c : MediationConfig) (r : Request) (id : TradeId) (e : Engine)
    (o : PayoutOutcome) : Case.Steps c r id (e.caseOf id) ((e.receiveOutcome o).caseOf id) := by
  unfold receiveOutcome
  split
  next => exact Case.Steps.refl _ _ _ _
  next pending hp =>
    dsimp only
    split
    next => exact Case.Steps.refl _ _ _ _
    next =>
      cases hclose : closePaidTrade?
          { e with acceptances := e.acceptances.erase o.ticket } pending.tradeId with
      | none => exact Case.Steps.refl _ _ _ _
      | some e' => exact closePaidTrade?_steps hclose c r id

/-! ### Requests -/

theorem Served.steps {e e' : Engine} {r : Request} (h : Served e r e') (id : TradeId) :
    Case.Steps e.config r id (e.caseOf id) (e'.caseOf id) := by
  cases h with
  | idle acks => exact Case.Steps.refl _ _ _ _
  | opened stamp d acks hr hnew => exact addDispute_steps stamp _ hr hnew id
  | said m acks hr hstored => exact append_steps (Or.inl hr) rfl rfl
  | missed m a hr hclosing hmissing =>
    rw [missDispute_eq]
    exact Case.Steps.refl _ _ _ _
  | ruled m a closing acks hr htakes hclosing hstored =>
    have hresult := Request.result?_of_attempt? hr
    exact ruled_steps hresult hclosing hstored (ruled_ruling e m closing acks) id
  | answered o p hr hp => exact receiveOutcome_steps _ _ id e o
  | accepted j caller ticket e' hr hok =>
    subst hr
    exact accept_steps hok id
  | rejected j hr =>
    subst hr
    exact reject_steps e j id
  | swept hr => exact cleanup_steps _ _ id e
  | changed j u hr =>
    subst hr
    exact change_steps e j u id

/-- Whatever is asked for, the case of each trade goes through steps. -/
theorem serve_steps (e : Engine) (stamp : Stamp) (r : Request) (id : TradeId) :
    Case.Steps e.config r id (e.caseOf id) ((e.serve stamp r).1.caseOf id) :=
  (served e stamp r).steps id

end Engine

end Mediation
