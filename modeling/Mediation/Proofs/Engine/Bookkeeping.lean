import Mediation.Proofs.Engine.Serving

/-!
# What is to be stored does not matter

An engine counts requests to store and keeps changes of phase for its
listeners. It reads neither: serving a request does the same to all the rest
whatever of them has been forgotten.
-/

namespace Mediation.Engine

/-- The engine without the requests to store and the changes to pass on. -/
def forget (e : Engine) : Engine :=
  { e with
    registry := { e.registry with requests := 0, changes := [] }
    disputes := { e.disputes with requests := 0 } }

/-- An operation that does not depend on what is forgotten. -/
def Forgets (f : Engine → Engine) : Prop := ∀ e, (f e.forget).forget = (f e).forget

theorem Forgets.comp {f g : Engine → Engine} (hg : Forgets g) (hf : Forgets f) :
    Forgets fun e => g (f e) := fun e => by
  rw [← hg (f e.forget), hf e, hg (f e)]

theorem Forgets.congr {f : Engine → Engine} (hf : Forgets f) {e e' : Engine}
    (h : e.forget = e'.forget) : (f e).forget = (f e').forget := by
  rw [← hf e, h, hf e']

theorem forgets_sendAck (uid : MessageUid) (id : TradeId) (recipient : PubKeyRing)
    (error : Option String) : Forgets fun e => e.sendAck uid id recipient error := fun _ => rfl

theorem forgets_storeDisputes : Forgets storeDisputes := fun _ => rfl

/-! ### Disputes -/

theorem forgets_enterDispute (id : TradeId) (s : DisputeState) :
    Forgets fun e => e.enterDispute id s := fun e => by
  have hbook : e.forget.registry.book = e.registry.book := rfl
  simp only [enterDispute, hbook]
  split
  · rfl
  · split <;> rfl

theorem forgets_add (d : Dispute) :
    Forgets fun e => { e with disputes := e.disputes.add d } := fun e => by
  have hstored : e.forget.disputes.contains d.tradeId = e.disputes.contains d.tradeId := rfl
  simp only [DisputeStore.add, hstored]
  split <;> rfl

theorem forgets_addDispute (stamp : Stamp) (d : Dispute) (text : String)
    (state : Option DisputeState) : Forgets fun e => e.addDispute stamp d text state := by
  have hmessage : Forgets fun e => e.appendSystemMessage stamp d.tradeId text := fun _ => rfl
  have hadded := hmessage.comp (forgets_add d)
  cases state with
  | none => exact forgets_storeDisputes.comp hadded
  | some s => exact forgets_storeDisputes.comp ((forgets_enterDispute d.tradeId s).comp hadded)

theorem forgets_openDispute (stamp : Stamp) (d : Dispute) :
    Forgets fun e => (e.openDispute stamp d).1 := fun e => by
  have hstored : e.forget.disputes.contains d.tradeId = e.disputes.contains d.tradeId := rfl
  simp only [openDispute, hstored]
  split
  · rfl
  · exact forgets_addDispute stamp d _ _ e

theorem forgets_receiveNewDispute (stamp : Stamp) (m : DisputeMessage) :
    Forgets fun e => e.receiveNewDispute stamp m := fun e => by
  have hstored : e.forget.disputes.contains m.dispute.tradeId =
      e.disputes.contains m.dispute.tradeId := rfl
  simp only [receiveNewDispute, hstored]
  split
  · rfl
  · exact (forgets_sendAck _ _ _ _).comp (forgets_addDispute stamp m.dispute _ _) e

theorem forgets_receivePeerDispute (stamp : Stamp) (m : DisputeMessage) :
    Forgets fun e => e.receivePeerDispute stamp m := fun e => by
  have hstored : e.forget.disputes.contains m.dispute.tradeId =
      e.disputes.contains m.dispute.tradeId := rfl
  simp only [receivePeerDispute, hstored]
  split
  · rfl
  · exact (forgets_sendAck _ _ _ _).comp (forgets_addDispute stamp m.dispute _ _) e

theorem forgets_receiveChat (m : ChatMessage) : Forgets fun e => e.receiveChat m := fun e => by
  have hfind : e.forget.disputes.find? m.tradeId = e.disputes.find? m.tradeId := rfl
  simp only [receiveChat, hfind]
  split
  · rfl
  · split <;> rfl

/-! ### Results -/

theorem forgets_missDispute (m : ResultMessage) (a : Attempt) :
    Forgets fun e => e.missDispute m a := fun e => by
  cases a with
  | delivery =>
    have hnoted : e.forget.retries.contains m.uid = e.retries.contains m.uid := rfl
    simp only [missDispute, hnoted]
    split <;> rfl
  | retry => rfl

theorem forgets_applyToTrade (id : TradeId) (buyer seller : Coin) :
    Forgets fun e => e.applyToTrade id buyer seller := fun e => by
  have hbook : e.forget.registry.book = e.registry.book := rfl
  simp only [applyToTrade, hbook]
  split
  · split <;> rfl
  · split
    · rfl
    · split <;> rfl

theorem forgets_receiveResult (m : ResultMessage) (a : Attempt) :
    Forgets fun e => (e.receiveResult m a).toOption.getD e := fun e => by
  have hfind : e.forget.disputes.find? m.tradeId = e.disputes.find? m.tradeId := rfl
  simp only [receiveResult, hfind]
  split
  · rfl
  next closing hclosing =>
    split
    · exact forgets_missDispute m a e
    · have hdispute : Forgets fun e => e.applyToDispute m closing := fun _ => rfl
      exact forgets_storeDisputes.comp ((forgets_sendAck _ _ _ _).comp
        ((forgets_applyToTrade _ _ _).comp hdispute)) e

/-! ### Payouts -/

theorem forgets_askPayout (step : PayoutStep) (t : Trade) (c : Completion) :
    Forgets fun e => e.askPayout step t c := fun e => by
  have hpublishes : e.forget.publishesOnFinalize = e.publishesOnFinalize := rfl
  have hdesk : e.forget.desk = e.desk := rfl
  simp only [askPayout, hpublishes, hdesk]
  split <;> rfl

theorem forgets_accept (id : TradeId) (caller : Nat) :
    Forgets fun e => ((e.accept id caller).toOption.map Prod.fst).getD e := fun e => by
  have hruling : (e.forget.disputes.find? id).bind Dispute.result =
      (e.disputes.find? id).bind Dispute.result := rfl
  have hbook : e.forget.registry.book = e.registry.book := rfl
  simp only [accept, hruling, hbook]
  split
  · rfl
  next r hr =>
    split
    · rfl
    next t ht =>
      have haccepting : Forgets fun e => e.accepting id caller r := fun _ => rfl
      exact (forgets_askPayout _ _ _).comp haccepting e

theorem forgets_reject (id : TradeId) :
    Forgets fun e => (e.reject id).toOption.getD e := fun e => by
  have hbook : e.forget.registry.book = e.registry.book := rfl
  simp only [reject, hbook]
  split <;> rfl

theorem closePaidTrade?_forget (e : Engine) (id : TradeId) :
    e.forget.closePaidTrade? id = (e.closePaidTrade? id).map forget := by
  have hbook : e.forget.registry.book = e.registry.book := rfl
  simp only [closePaidTrade?, hbook]
  split
  · rfl
  · split
    · rw [Option.map_map]
      rfl
    · rfl

theorem forgets_closePaidTrade? (id : TradeId) :
    Forgets fun e => ((e.closePaidTrade? id).map storeTrades).getD e := fun e => by
  simp only [closePaidTrade?_forget]
  cases e.closePaidTrade? id <;> rfl

theorem forgets_receiveOutcome (o : PayoutOutcome) :
    Forgets fun e => e.receiveOutcome o := fun e => by
  have hpending : e.forget.acceptances.get? o.ticket = e.acceptances.get? o.ticket := rfl
  simp only [receiveOutcome, hpending]
  split
  · rfl
  next p hp =>
    have herase : Forgets fun e => { e with acceptances := e.acceptances.erase o.ticket } :=
      fun _ => rfl
    have hreply : Forgets fun e => { e with replies := e.replies ++ [⟨p.caller, o.error⟩] } :=
      fun _ => rfl
    split
    · rfl
    · exact hreply.comp ((forgets_closePaidTrade? p.tradeId).comp herase) e

theorem closePaidTrades_forget (ids : List TradeId) (e : Engine) :
    e.forget.closePaidTrades ids =
      ((e.closePaidTrades ids).1.forget, (e.closePaidTrades ids).2) := by
  induction ids generalizing e with
  | nil => rfl
  | cons id ids ih =>
    simp only [closePaidTrades, closePaidTrade?_forget]
    cases e.closePaidTrade? id with
    | none => exact ih e
    | some e' => simp only [Option.map_some, ih e']

theorem forgets_cleanup : Forgets fun e => e.cleanup.1 := fun e => by
  have hkeys : e.forget.disputes.disputes.keys = e.disputes.disputes.keys := rfl
  simp only [cleanup, hkeys, closePaidTrades_forget]
  split <;> rfl

theorem forgets_change (id : TradeId) (u : TradeUpdate) :
    Forgets fun e => (e.change id u).1 := fun e => by
  have hlive : e.forget.registry.isLive id = e.registry.isLive id := rfl
  simp only [change, hlive]
  split
  · cases u <;> rfl
  · rfl

/-! ### Requests -/

theorem forgets_attempt (stamp : Stamp) {r : Request} {m : ResultMessage} {a : Attempt}
    (hr : r.attempt? = some (m, a)) : Forgets fun e => (e.serve stamp r).1 := fun e => by
  dsimp only
  have hsame : e.forget.takes r = e.takes r := takes_congr rfl r
  cases htakes : e.takes r with
  | false =>
    rw [serve_of_not_taken htakes, serve_of_not_taken (hsame.trans htakes)]
    rfl
  | true =>
    rw [serve_attempt hr htakes, serve_attempt hr (hsame.trans htakes)]
    exact forgets_receiveResult m a e

theorem forgets_support (stamp : Stamp) (m : SupportMessage) :
    Forgets fun e => (e.serve stamp (.event (.support m))).1 := fun e => by
  dsimp only
  cases htakes : e.takes (.event (.support m)) with
  | false =>
    have htakes' : e.forget.takes (.event (.support m)) = false := htakes
    rw [serve_of_not_taken htakes, serve_of_not_taken htakes']
    rfl
  | true =>
    have hgate : m.isFor e.config.supportType = true := htakes
    have hgate' : m.isFor e.forget.config.supportType = true := htakes
    cases m with
    | openNewDispute m =>
      simp only [serve, handle, receive, hgate, hgate', if_true]
      exact forgets_receiveNewDispute stamp m e
    | peerOpenedDispute m =>
      simp only [serve, handle, receive, hgate, hgate', if_true]
      exact forgets_receivePeerDispute stamp m e
    | chat m =>
      simp only [serve, handle, receive, hgate, hgate', if_true]
      exact forgets_receiveChat m e
    | disputeResult m => exact forgets_attempt stamp rfl e
    | unsupported =>
      simp only [serve, handle, receive, ite_self]
      rfl

theorem serve_accept (e : Engine) (stamp : Stamp) (id : TradeId) (caller : Nat) :
    (e.serve stamp (.accept id caller)).1 =
      ((e.accept id caller).toOption.map Prod.fst).getD e := by
  simp only [serve]
  cases e.accept id caller <;> rfl

theorem serve_reject (e : Engine) (stamp : Stamp) (id : TradeId) :
    (e.serve stamp (.reject id)).1 = (e.reject id).toOption.getD e := by
  simp only [serve]
  cases e.reject id <;> rfl

theorem forgets_serve (stamp : Stamp) (r : Request) : Forgets fun e => (e.serve stamp r).1 := by
  cases r with
  | event event =>
    cases event with
    | support m => exact forgets_support stamp m
    | deferred m => exact forgets_attempt stamp rfl
    | payoutCompleted o => exact forgets_receiveOutcome o
  | accept id caller =>
    simp only [serve_accept]
    exact forgets_accept id caller
  | reject id =>
    simp only [serve_reject]
    exact forgets_reject id
  | openDispute d => exact forgets_openDispute stamp d
  | cleanup => exact forgets_cleanup
  | update id u => exact forgets_change id u
  | barrier => exact fun _ => rfl

end Mediation.Engine
