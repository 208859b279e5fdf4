import Mediation.Engine.Basic
import Mediation.Proofs.Table

/-!
# What the parts of an operation change

The trade book and the disputes after each part of an operation, as functions
of the book and the disputes before it. Acknowledgements, requests to store
and the retries stand apart: they change neither.
-/

namespace Mediation

/-! ### Trades and the book -/

theorem Trade.advance_ok {t t' : Trade} {s : DisputeState} (h : t.advance s = .ok t') :
    t' = { t with disputeState := s } ∧
      (t.disputeState = s ∨ t.disputeState.canBecome s = true) := by
  unfold Trade.advance at h
  split at h
  next hs =>
    cases h
    exact ⟨by rw [← hs], Or.inl hs⟩
  next hs =>
    split at h
    next hc =>
      cases h
      exact ⟨rfl, Or.inr hc⟩
    next => cases h

theorem Trade.applyResult_of_not_open {t : Trade} (b s : Coin)
    (h : t.disputeState.isMediationOpen = false) : t.applyResult b s = t := by
  simp only [Trade.applyResult, h, Bool.false_eq_true, if_false]

theorem Trade.applyResult_applyResult (t : Trade) (b s b' s' : Coin) :
    (t.applyResult b s).applyResult b' s' = t.applyResult b s := by
  by_cases h : t.disputeState.isMediationOpen = true
  · apply Trade.applyResult_of_not_open
    rw [Trade.applyResult, if_pos h]
    rfl
  · have hf : t.disputeState.isMediationOpen = false := by simpa using h
    rw [Trade.applyResult_of_not_open b s hf, Trade.applyResult_of_not_open b' s' hf]

theorem OpenOffer.close_close {o o' : OpenOffer} (h : o.close = .ok o') : o'.close = .ok o' := by
  cases o with
  | mk id state => cases state <;> cases h <;> rfl

namespace Book

theorem update_live (b : Book) (id j : TradeId) (f : Trade → Trade) :
    (b.update id f).live.get? j =
      if j = id then (b.live.get? j).map f else b.live.get? j :=
  Table.get?_modify b.live id j f

theorem update_eq_self (b : Book) (id : TradeId) (f : Trade → Trade)
    (h : ∀ t, b.live.get? id = some t → f t = t) : b.update id f = b := by
  unfold update
  rw [Table.modify_eq_self b.live id f h]

theorem isSome_findTrade?_update (b : Book) (id : TradeId) (f : Trade → Trade) :
    ((b.update id f).findTrade? id).isSome = (b.findTrade? id).isSome := by
  simp only [findTrade?, update_live, if_true, Option.isSome_or, Option.isSome_map]
  rfl

theorem closeTrade?_some {b b' : Book} {id : TradeId} {s : DisputeState}
    (h : b.closeTrade? id s = some b') :
    ∃ t, b.live.get? id = some t ∧ b.closed.get? id = none ∧
      (t.disputeState = s ∨ t.disputeState.canBecome s = true) ∧
      b' = { b with
        live := b.live.erase id
        closed := b.closed.insert id { t with disputeState := s } } := by
  unfold closeTrade? at h
  split at h
  next => cases h
  next hclosed =>
    have hnone : b.closed.get? id = none := by
      simpa [isClosed, Table.contains] using hclosed
    split at h
    next => cases h
    next t ht =>
      split at h
      next t' hadv =>
        obtain ⟨rfl, hstate⟩ := Trade.advance_ok hadv
        cases h
        exact ⟨t, ht, hnone, hstate, rfl⟩
      next => cases h

theorem closeOffer?_some {b b' : Book} {id : TradeId} (h : b.closeOffer? id = some b') :
    ∃ o, b'.offers.get? id = some o ∧ o.close = .ok o ∧
      b' = { b with offers := b.offers.insert id o } := by
  unfold closeOffer? at h
  split at h
  next => cases h
  next o ho =>
    split at h
    next o' hclose =>
      cases h
      exact ⟨o', Table.get?_insert_self b.offers id o', OpenOffer.close_close hclose, rfl⟩
    next => cases h

/-- The book after a result: the amounts go to the live trade, and where the id
has no trade at all its offer is closed. -/
def applyResult (b : Book) (id : TradeId) (buyer seller : Coin) : Book :=
  match b.findTrade? id with
  | none => (b.closeOffer? id).getD b
  | some _ => b.update id fun t => t.applyResult buyer seller

theorem applyResult_of_none {b : Book} {id : TradeId} (h : b.findTrade? id = none)
    (buyer seller : Coin) : b.applyResult id buyer seller = (b.closeOffer? id).getD b := by
  simp only [applyResult, h]

theorem applyResult_of_some {b : Book} {id : TradeId} {t : Trade} (h : b.findTrade? id = some t)
    (buyer seller : Coin) :
    b.applyResult id buyer seller = b.update id fun t => t.applyResult buyer seller := by
  simp only [applyResult, h]

theorem applyResult_live (b : Book) (id j : TradeId) (buyer seller : Coin) :
    (b.applyResult id buyer seller).live.get? j =
      if j = id then (b.live.get? j).map fun t => t.applyResult buyer seller
      else b.live.get? j := by
  unfold applyResult
  split
  next hnone =>
    have hlive : b.live.get? id = none := (Option.or_eq_none_iff.mp hnone).1
    have hsame : ((b.closeOffer? id).getD b).live = b.live := by
      cases hb : b.closeOffer? id with
      | none => rfl
      | some b' =>
        obtain ⟨o, -, -, rfl⟩ := closeOffer?_some hb
        rfl
    rw [hsame]
    split
    next hj => rw [hj, hlive, Option.map_none]
    next => rfl
  next => exact update_live b id j _

theorem applyResult_closed (b : Book) (id : TradeId) (buyer seller : Coin) :
    (b.applyResult id buyer seller).closed = b.closed := by
  unfold applyResult
  split
  next =>
    cases hb : b.closeOffer? id with
    | none => rfl
    | some b' =>
      obtain ⟨o, -, -, rfl⟩ := closeOffer?_some hb
      rfl
  next => rfl

theorem applyResult_applyResult (b : Book) (id : TradeId) (buyer seller buyer' seller' : Coin) :
    (b.applyResult id buyer seller).applyResult id buyer' seller' =
      b.applyResult id buyer seller := by
  cases hfind : b.findTrade? id with
  | none =>
    rw [applyResult_of_none hfind]
    cases hb : b.closeOffer? id with
    | none => rw [Option.getD_none, applyResult_of_none hfind, hb, Option.getD_none]
    | some b' =>
      obtain ⟨o, hget, hclose, rfl⟩ := closeOffer?_some hb
      have hfind' : ({ b with offers := b.offers.insert id o } : Book).findTrade? id = none :=
        hfind
      have hsecond : ({ b with offers := b.offers.insert id o } : Book).closeOffer? id =
          some { b with offers := b.offers.insert id o } := by
        simp only [closeOffer?, hget, hclose, Table.insert_eq_self _ id o hget]
      rw [Option.getD_some, applyResult_of_none hfind', hsecond, Option.getD_some]
  | some t =>
    rw [applyResult_of_some hfind]
    have hsome : ((b.update id fun t => t.applyResult buyer seller).findTrade? id).isSome =
        true := by
      rw [isSome_findTrade?_update, hfind, Option.isSome_some]
    obtain ⟨u, hu⟩ := Option.isSome_iff_exists.mp hsome
    rw [applyResult_of_some hu]
    apply update_eq_self
    intro v hv
    rw [update_live, if_pos rfl] at hv
    obtain ⟨w, -, rfl⟩ := Option.map_eq_some_iff.mp hv
    exact Trade.applyResult_applyResult w buyer seller buyer' seller'

end Book

/-! ### Disputes -/

@[simp] theorem Dispute.addMessage_isClosed (d : Dispute) (m : ChatMessage) :
    (d.addMessage m).isClosed = d.isClosed := by
  unfold addMessage
  split <;> rfl

@[simp] theorem Dispute.addMessage_result (d : Dispute) (m : ChatMessage) :
    (d.addMessage m).result = d.result := by
  unfold addMessage
  split <;> rfl

theorem Dispute.mem_addMessage (d : Dispute) (m : ChatMessage) : m ∈ (d.addMessage m).chat := by
  have h := d.hasMessage_addMessage m
  rw [hasMessage, List.contains_iff_mem] at h
  exact h

namespace DisputeStore

theorem ext_find? {s t : DisputeStore} (h : ∀ id, s.find? id = t.find? id) :
    s.disputes = t.disputes := Table.ext_get? h

theorem contains_of_some {s : DisputeStore} {id : TradeId} {d : Dispute}
    (h : s.find? id = some d) : s.contains id = true := by
  rw [contains, h, Option.isSome_some]

theorem contains_of_none {s : DisputeStore} {id : TradeId} (h : s.find? id = none) :
    s.contains id = false := by
  rw [contains, h, Option.isSome_none]

theorem mem_keys_iff_contains (s : DisputeStore) (id : TradeId) :
    id ∈ s.disputes.keys ↔ s.contains id = true := by
  rw [Table.mem_keys, contains, Option.isSome_iff_exists]
  rfl

theorem update_eq_self {s : DisputeStore} {id : TradeId} {f : Dispute → Dispute}
    (h : ∀ d, s.find? id = some d → f d = d) : s.update id f = s := by
  rw [update, Table.modify_eq_self s.disputes id f h]

theorem find?_update (s : DisputeStore) (id j : TradeId) (f : Dispute → Dispute) :
    (s.update id f).find? j = if j = id then (s.find? j).map f else s.find? j :=
  Table.get?_modify s.disputes id j f

theorem find?_append (s : DisputeStore) (m : ChatMessage) (j : TradeId) :
    (s.append m).find? j =
      if j = m.tradeId then (s.find? j).map fun d => d.addMessage m else s.find? j :=
  find?_update s m.tradeId j _

theorem contains_append (s : DisputeStore) (m : ChatMessage) (j : TradeId) :
    (s.append m).contains j = s.contains j := by
  rw [contains, contains, find?_append]
  split
  · rw [Option.isSome_map]
  · rfl

theorem find?_add_of_none {s : DisputeStore} {d : Dispute} (h : s.find? d.tradeId = none)
    (j : TradeId) : (s.add d).find? j = if j = d.tradeId then some d else s.find? j := by
  split
  next hj =>
    subst hj
    rw [find?_add_self, h, Option.getD_none]
  next hj => exact find?_add_of_ne s d hj

/-- The store after a result: its closing message is in the chat it names, and
the dispute it is about is closed and has it attached. -/
def rule (s : DisputeStore) (m : ResultMessage) (closing : ChatMessage) : DisputeStore :=
  ((s.append closing).close m.tradeId).attach m.result

theorem find?_rule (s : DisputeStore) (m : ResultMessage) (closing : ChatMessage) (j : TradeId) :
    (s.rule m closing).find? j =
      if j = m.tradeId then ((s.append closing).find? j).map fun d => d.close.attach m.result
      else (s.append closing).find? j := by
  have hid : m.result.tradeId = m.tradeId := rfl
  simp only [rule, attach, close, find?_update, hid]
  split
  · rw [Option.map_map]
    rfl
  · rfl

theorem rule_congr {s t : DisputeStore} (h : s.disputes = t.disputes) (m : ResultMessage)
    (closing : ChatMessage) : (s.rule m closing).disputes = (t.rule m closing).disputes := by
  simp only [rule, attach, close, append, update, h]

theorem rule_append (s : DisputeStore) (m : ResultMessage) (closing : ChatMessage) :
    ((s.rule m closing).append closing).disputes = (s.rule m closing).disputes := by
  apply ext_find?
  intro j
  rw [find?_append]
  split
  next hj =>
    rw [find?_rule, find?_append, if_pos hj]
    cases s.find? j with
    | none => split <;> rfl
    | some d =>
      have hchat : (d.addMessage closing).hasMessage closing = true :=
        d.hasMessage_addMessage closing
      split
      · have hruled : ((d.addMessage closing).close.attach m.result).hasMessage closing = true :=
          hchat
        simp only [Option.map_some, Dispute.addMessage_of_hasMessage hruled]
      · simp only [Option.map_some, Dispute.addMessage_of_hasMessage hchat]
  next => rfl

theorem rule_rule (s : DisputeStore) (m : ResultMessage) (closing : ChatMessage) :
    ((s.rule m closing).rule m closing).disputes = (s.rule m closing).disputes := by
  apply ext_find?
  intro j
  have hsame : ((s.rule m closing).append closing).find? j = (s.rule m closing).find? j := by
    simp only [find?, rule_append]
  rw [find?_rule (s.rule m closing), hsame]
  split
  next hj =>
    rw [find?_rule, if_pos hj, Option.map_map]
    rfl
  next => rfl

end DisputeStore

/-! ### Parts of an operation -/

namespace Engine

theorem enterDispute_eq (e : Engine) (id : TradeId) (s : DisputeState) :
    e.enterDispute id s = { e with registry := (e.enterDispute id s).registry } := by
  unfold enterDispute
  split
  · rfl
  · split <;> rfl

theorem changes_enterDispute (e : Engine) (id : TradeId) (s : DisputeState) :
    (e.enterDispute id s).registry.changes = e.registry.changes := by
  unfold enterDispute
  split
  · rfl
  · split <;> rfl

theorem enterDispute_book (e : Engine) (id : TradeId) (s : DisputeState) :
    (e.enterDispute id s).registry.book =
      e.registry.book.update id fun t => t.enterDispute s := by
  unfold enterDispute
  split
  next hlive =>
    refine (Book.update_eq_self _ id _ ?_).symm
    intro t ht
    simp [hlive] at ht
  next t hlive =>
    split
    next => rfl
    next hstate =>
      refine (Book.update_eq_self _ id _ ?_).symm
      intro u hu
      have htu : u = t := Option.some.inj (hu.symm.trans hlive)
      subst htu
      simp only [Trade.enterDispute, hstate, if_false]

theorem applyToTrade_eq (e : Engine) (id : TradeId) (buyer seller : Coin) :
    e.applyToTrade id buyer seller =
      { e with registry := (e.applyToTrade id buyer seller).registry } := by
  unfold applyToTrade
  split
  · split <;> rfl
  · split
    · rfl
    · split <;> rfl

theorem changes_applyToTrade (e : Engine) (id : TradeId) (buyer seller : Coin) :
    (e.applyToTrade id buyer seller).registry.changes = e.registry.changes := by
  unfold applyToTrade
  split
  · split <;> rfl
  · split
    · rfl
    · split <;> rfl

theorem applyToTrade_book (e : Engine) (id : TradeId) (buyer seller : Coin) :
    (e.applyToTrade id buyer seller).registry.book =
      e.registry.book.applyResult id buyer seller := by
  unfold applyToTrade
  split
  next hfind =>
    rw [Book.applyResult_of_none hfind]
    split
    next hclose => rw [hclose, Option.getD_none]
    next b hclose =>
      rw [hclose, Option.getD_some]
      rfl
  next t hfind =>
    rw [Book.applyResult_of_some hfind]
    split
    next hlive =>
      refine (Book.update_eq_self _ id _ ?_).symm
      intro u hu
      simp [hlive] at hu
    next u hlive =>
      split
      next => rfl
      next hstate =>
        refine (Book.update_eq_self _ id _ ?_).symm
        intro v hv
        have huv : v = u := Option.some.inj (hv.symm.trans hlive)
        subst huv
        exact Trade.applyResult_of_not_open buyer seller (by simpa using hstate)

/-- A trade that is closed was live, paid, and one step before the end of its mediation at most. -/
theorem closePaidTrade?_some {e e' : Engine} {id : TradeId} (h : e.closePaidTrade? id = some e') :
    ∃ t, e.registry.book.live.get? id = some t ∧ e.registry.book.closed.get? id = none ∧
      t.isPayoutPublished = true ∧
      (t.disputeState = .mediationClosed ∨ t.disputeState.canBecome .mediationClosed = true) ∧
      e' = { e with registry := e.registry.withBook { e.registry.book with
        live := e.registry.book.live.erase id
        closed := e.registry.book.closed.insert id
          { t with disputeState := .mediationClosed } } } := by
  unfold closePaidTrade? at h
  split at h
  next => cases h
  next t hfind =>
    split at h
    next hpaid =>
      obtain ⟨b, hclose, rfl⟩ := Option.map_eq_some_iff.mp h
      obtain ⟨u, hlive, hclosed, hstate, rfl⟩ := Book.closeTrade?_some hclose
      have htu : t = u := by
        simp only [Book.findTrade?, hlive, Option.some_or, Option.some.injEq] at hfind
        exact hfind.symm
      subst htu
      exact ⟨t, hlive, hclosed, hpaid, hstate, rfl⟩
    next => cases h

theorem setPayoutTx_live (r : Registry) (id j : TradeId) (tx : PayoutTx) :
    (r.setPayoutTx id tx).book.live.get? j =
      if j = id then (r.book.live.get? j).map fun t =>
        { t with payoutTx := some tx, phase := .payoutPublished }
      else r.book.live.get? j := by
  simp only [Registry.setPayoutTx, Registry.setPhase, Registry.withBook, Book.setPhase,
    Book.setPayoutTx, Book.update_live]
  split
  · rw [Option.map_map]
    rfl
  · rfl

theorem addDispute_disputes (e : Engine) (stamp : Stamp) (d : Dispute) (text : String)
    (state : Option DisputeState) :
    (e.addDispute stamp d text state).disputes =
      ((e.disputes.add d).append
        (.system stamp d.tradeId e.config.supportType e.address text)).requestStore := by
  cases state with
  | none => rfl
  | some s =>
    simp only [addDispute, storeDisputes]
    rw [enterDispute_eq]
    rfl

theorem find?_addDispute {e : Engine} {d : Dispute} (hnew : e.disputes.find? d.tradeId = none)
    (stamp : Stamp) (text : String) (state : Option DisputeState) (j : TradeId) :
    (e.addDispute stamp d text state).disputes.find? j =
      if j = d.tradeId then
        some (d.addMessage (.system stamp d.tradeId e.config.supportType e.address text))
      else e.disputes.find? j := by
  rw [addDispute_disputes, DisputeStore.find?_requestStore, DisputeStore.find?_append,
    DisputeStore.find?_add_of_none hnew]
  have hsystem : (ChatMessage.system stamp d.tradeId e.config.supportType e.address text).tradeId =
      d.tradeId := rfl
  rw [hsystem]
  split <;> rfl

theorem addDispute_book (e : Engine) (stamp : Stamp) (d : Dispute) (text : String)
    (state : Option DisputeState) :
    (e.addDispute stamp d text state).registry.book =
      match state with
      | none => e.registry.book
      | some s => e.registry.book.update d.tradeId fun t => t.enterDispute s := by
  cases state with
  | none => rfl
  | some s => exact enterDispute_book _ _ _

theorem addDispute_eq (e : Engine) (stamp : Stamp) (d : Dispute) (text : String)
    (state : Option DisputeState) :
    e.addDispute stamp d text state =
      { e with
        disputes := (e.addDispute stamp d text state).disputes
        registry := (e.addDispute stamp d text state).registry } := by
  cases state with
  | none => rfl
  | some s =>
    simp only [addDispute]
    rw [enterDispute_eq]
    rfl

/-- The engine once a result has been applied to a stored dispute. -/
structure Ruled (e : Engine) (m : ResultMessage) (closing : ChatMessage) (e' : Engine) : Prop where
  disputes : e'.disputes.disputes = (e.disputes.rule m closing).disputes
  book : e'.registry.book =
    e.registry.book.applyResult m.tradeId m.result.buyerPayout m.result.sellerPayout
  retries : e'.retries = e.retries.erase m.uid
  timers : e'.timers = e.timers
  config : e'.config = e.config

theorem Ruled.find? {e e' : Engine} {m : ResultMessage} {closing : ChatMessage}
    (h : Ruled e m closing e') (j : TradeId) :
    e'.disputes.find? j =
      if j = m.tradeId then
        ((e.disputes.append closing).find? j).map fun d => d.close.attach m.result
      else (e.disputes.append closing).find? j := by
  rw [← DisputeStore.find?_rule]
  simp only [DisputeStore.find?, h.disputes]

theorem receiveResult_of_missing {e : Engine} {m : ResultMessage} {closing : ChatMessage}
    (hclosing : m.result.chatMessage = some closing)
    (hd : e.disputes.find? m.tradeId = none) (a : Attempt) :
    e.receiveResult m a = .ok (e.missDispute m a) := by
  simp only [receiveResult, hclosing, hd]

theorem missDispute_eq (e : Engine) (m : ResultMessage) (a : Attempt) :
    e.missDispute m a =
      { e with
        timers := (e.missDispute m a).timers
        retries := (e.missDispute m a).retries } := by
  cases a with
  | delivery =>
    by_cases h : e.retries.contains m.uid = true
    · simp only [missDispute, h, if_true]
    · simp only [missDispute, h, Bool.false_eq_true, if_false]
  | retry => rfl

/-- The engine just before the payout exchange is asked for the payout of an accepted result. -/
def accepting (e : Engine) (id : TradeId) (caller : Nat) (r : DisputeResult) : Engine :=
  { (e.updateTrade id fun t => acceptedTrade t r).storeTrades with
    tickets := e.tickets + 1
    acceptances := e.acceptances.insert (e.tickets + 1) ⟨id, caller⟩ }

/-- A result is accepted by asking the exchange for the step that the trade is ready for. -/
theorem accept_eq_askPayout {e e' : Engine} {id : TradeId} {caller ticket : Nat}
    (h : e.accept id caller = .ok (e', ticket)) :
    ∃ d r t, e.disputes.find? id = some d ∧ d.result = some r ∧
      e.registry.book.live.get? id = some t ∧ ticket = e.tickets + 1 ∧
      e' = (e.accepting id caller r).askPayout
        (if t.hasPeerSignature then .finalizeWithPeerSignature else .acceptAndSendSignature)
        (acceptedTrade t r) ⟨ticket, id⟩ := by
  unfold accept at h
  split at h
  next => cases h
  next r hr =>
    obtain ⟨d, hd, hres⟩ := Option.bind_eq_some_iff.mp hr
    split at h
    next => cases h
    next t ht =>
      cases h
      exact ⟨d, r, t, hd, hres, ht, rfl, rfl⟩

theorem accept_ok {e e' : Engine} {id : TradeId} {caller ticket : Nat}
    (h : e.accept id caller = .ok (e', ticket)) :
    ∃ d r t step, e.disputes.find? id = some d ∧ d.result = some r ∧
      e.registry.book.live.get? id = some t ∧ ticket = e.tickets + 1 ∧
      e' = (e.accepting id caller r).askPayout step (acceptedTrade t r) ⟨ticket, id⟩ := by
  obtain ⟨d, r, t, hd, hres, ht, hticket, hasked⟩ := accept_eq_askPayout h
  exact ⟨d, r, t, _, hd, hres, ht, hticket, hasked⟩

theorem askPayout_registry (e : Engine) (step : PayoutStep) (t : Trade) (c : Completion) :
    (e.askPayout step t c).registry = e.registry ∨
      (e.askPayout step t c).registry = e.registry.setPayoutTx t.id ⟨payoutTxid t.id⟩ := by
  simp only [askPayout]
  split
  · exact Or.inr rfl
  · exact Or.inl rfl

theorem askPayout_process (e : Engine) (step : PayoutStep) (t : Trade) (c : Completion)
    (j : TradeId) : ((e.askPayout step t c).registry.book.live.get? j).map Trade.process =
      (e.registry.book.live.get? j).map Trade.process := by
  rcases askPayout_registry e step t c with hsame | hpaid
  · rw [hsame]
  · rw [hpaid, setPayoutTx_live]
    split
    · rw [Option.map_map]
      rfl
    · rfl

end Engine

end Mediation
