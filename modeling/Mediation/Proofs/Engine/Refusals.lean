import Mediation.Proofs.Engine.Serving

/-!
# What is refused, and that it changes nothing

An operation that can be refused is written out here step by step, as a program
whose steps change the engine in their order; when a step fails, what the steps
before it have changed stays changed. Each program comes to what its operation
comes to, and where that is an error the engine is the one it began with: a step
that can fail comes before every step that changes anything.
-/

namespace Mediation

/-- Steps on an engine. -/
abbrev Program (α : Type) := EStateM MediationError Engine α

/-- What a program comes to when it does what an operation does, or fails and
has changed nothing. -/
def Engine.settled {α : Type} (e : Engine) :
    Except MediationError (Engine × α) → EStateM.Result MediationError Engine α
  | .ok (e', a) => .ok a e'
  | .error err => .error err e

namespace Program

/-! ### Single steps -/

def trades (f : Registry → Registry) : Program Unit :=
  modify fun e => { e with registry := f e.registry }

def disputes (f : DisputeStore → DisputeStore) : Program Unit :=
  modify fun e => { e with disputes := f e.disputes }

def retries (f : Table MessageUid Nat → Table MessageUid Nat) : Program Unit :=
  modify fun e => { e with retries := f e.retries }

/-- Changes a live trade; the trade as it is then, if there is one. -/
def updateTrade (id : TradeId) (f : Trade → Trade) : Program (Option Trade) := do
  let e ← get
  trades fun r => r.update id f
  return (e.registry.book.live.get? id).map f

/-- Closes an offer; whether it could be closed. -/
def closeOffer (id : TradeId) : Program Bool := do
  match (← get).registry.book.closeOffer? id with
  | none => return false
  | some b =>
    trades fun r => r.withBook b
    return true

/-- Schedules a retry; the handle of its timer. -/
def schedule (delay : Nat) (m : ResultMessage) : Program Nat := do
  let e ← get
  set { e with timers := e.timers.schedule delay m }
  return e.timers.nextHandle

/-- Registers who waits for a payout; the ticket of it. -/
def register (p : PendingAcceptance) : Program Nat := do
  modify fun e => { e with tickets := e.tickets + 1 }
  let ticket := (← get).tickets
  modify fun e => { e with acceptances := e.acceptances.insert ticket p }
  return ticket

/-! ### Dispute results -/

def missDispute (m : ResultMessage) : Attempt → Program Unit
  | .delivery => do
    let e ← get
    unless e.retries.contains m.uid do
      let handle ← schedule e.config.retryDelay m
      retries fun t => t.insert m.uid handle
  | .retry => retries fun t => t.erase m.uid

def applyToTrade (id : TradeId) (buyer seller : Coin) : Program Unit := do
  let book := (← get).registry.book
  match book.findTrade? id with
  | none =>
    if (book.findOffer? id).isSome then
      if ← closeOffer id then trades Registry.requestStore
  | some _ =>
    let _ ← updateTrade id fun t => t.applyResult buyer seller
    if (book.live.get? id).any fun t => t.disputeState.isMediationOpen then
      trades Registry.requestStore

def receiveResult (m : ResultMessage) (a : Attempt) : Program Unit := do
  match m.result.chatMessage with
  | none => throw (.missingChatMessage m.uid m.tradeId)
  | some closing =>
    match (← get).disputes.find? m.tradeId with
    | none => missDispute m a
    | some d =>
      retries fun t => t.erase m.uid
      disputes fun s => s.append closing
      disputes fun s => s.close m.tradeId
      disputes fun s => s.attach m.result
      applyToTrade m.tradeId m.result.buyerPayout m.result.sellerPayout
      modify fun e => e.sendAck closing.uid closing.tradeId d.parties.agent none
      disputes DisputeStore.requestStore

/-- Handles an event. What cannot be refused is one step. -/
def handle (stamp : Stamp) : Event → Program Unit
  | .support m => do
    if m.isFor (← get).config.supportType then
      match m with
      | .openNewDispute m => modify fun e => e.receiveNewDispute stamp m
      | .peerOpenedDispute m => modify fun e => e.receivePeerDispute stamp m
      | .chat m => modify fun e => e.receiveChat m
      | .disputeResult m => receiveResult m .delivery
      | .unsupported => return
  | .deferred m => receiveResult m .retry
  | .payoutCompleted o => modify fun e => e.receiveOutcome o

/-! ### Acceptance and rejection -/

def accept (id : TradeId) (caller : Nat) : Program Nat := do
  match ((← get).disputes.find? id).bind Dispute.result with
  | none => throw (.noDisputeResult id)
  | some r =>
    match ← updateTrade id fun t => Engine.acceptedTrade t r with
    | none => throw (.tradeNotFound id)
    | some t =>
      trades Registry.requestStore
      let ticket ← register ⟨id, caller⟩
      if t.hasPeerSignature then
        modify fun e => e.askPayout .finalizeWithPeerSignature t ⟨ticket, id⟩
      else
        modify fun e => e.askPayout .acceptAndSendSignature t ⟨ticket, id⟩
      return ticket

def reject (id : TradeId) : Program Unit := do
  match ← updateTrade id fun t => { t with verdict := .rejected } with
  | none => throw (.tradeNotFound id)
  | some _ => trades Registry.requestStore

/-! ### The programs and the operations -/

theorem run_trades (f : Registry → Registry) (e : Engine) :
    (trades f).run e = .ok () { e with registry := f e.registry } := rfl

theorem run_disputes (f : DisputeStore → DisputeStore) (e : Engine) :
    (disputes f).run e = .ok () { e with disputes := f e.disputes } := rfl

theorem run_retries (f : Table MessageUid Nat → Table MessageUid Nat) (e : Engine) :
    (retries f).run e = .ok () { e with retries := f e.retries } := rfl

theorem run_updateTrade (id : TradeId) (f : Trade → Trade) (e : Engine) :
    (updateTrade id f).run e = .ok ((e.registry.book.live.get? id).map f) (e.updateTrade id f) :=
  rfl

theorem run_register (p : PendingAcceptance) (e : Engine) :
    (register p).run e = .ok (e.tickets + 1)
      { e with
        tickets := e.tickets + 1
        acceptances := e.acceptances.insert (e.tickets + 1) p } := rfl

theorem run_missDispute (m : ResultMessage) (a : Attempt) (e : Engine) :
    (missDispute m a).run e = .ok () (e.missDispute m a) := by
  cases a with
  | delivery =>
    simp only [missDispute, Engine.missDispute, EStateM.run_bind, EStateM.run_get]
    split <;> rfl
  | retry => rfl

theorem updateTrade_eq_self {e : Engine} {id : TradeId} {f : Trade → Trade}
    (h : ∀ t, e.registry.book.live.get? id = some t → f t = t) : e.updateTrade id f = e := by
  simp only [Engine.updateTrade, Registry.update, Registry.withBook, Book.update_eq_self _ id f h]

/-- To change a trade that is not live is to change nothing. -/
theorem updateTrade_of_missing {e : Engine} {id : TradeId}
    (h : e.registry.book.live.get? id = none) (f : Trade → Trade) : e.updateTrade id f = e := by
  refine updateTrade_eq_self fun t ht => ?_
  rw [h] at ht
  cases ht

theorem run_applyToTrade (id : TradeId) (buyer seller : Coin) (e : Engine) :
    (applyToTrade id buyer seller).run e = .ok () (e.applyToTrade id buyer seller) := by
  simp only [applyToTrade, Engine.applyToTrade, EStateM.run_bind, EStateM.run_get]
  cases e.registry.book.findTrade? id with
  | none =>
    dsimp only
    cases ho : e.registry.book.findOffer? id with
    | none =>
      have hclose : e.registry.book.closeOffer? id = none := by
        simp only [Book.closeOffer?, show e.registry.book.offers.get? id = none from ho]
      rw [hclose]
      rfl
    | some o =>
      simp only [Option.isSome_some, if_true, closeOffer, EStateM.run_bind, EStateM.run_get]
      cases e.registry.book.closeOffer? id <;> rfl
  | some t' =>
    simp only [EStateM.run_bind, run_updateTrade]
    cases hlive : e.registry.book.live.get? id with
    | none =>
      rw [updateTrade_of_missing hlive]
      rfl
    | some t =>
      simp only [Option.any_some]
      split
      next => rfl
      next hopen =>
        -- the amounts are not set then, so there is nothing to store
        rw [updateTrade_eq_self fun u hu => ?_]
        · rfl
        · rw [hlive] at hu
          cases hu
          exact Trade.applyResult_of_not_open buyer seller (by simpa using hopen)

theorem run_receiveResult (m : ResultMessage) (a : Attempt) (e : Engine) :
    (receiveResult m a).run e = e.settled ((e.receiveResult m a).map (·, ())) := by
  unfold receiveResult Engine.receiveResult
  cases m.result.chatMessage with
  | none => rfl
  | some closing =>
    simp only [EStateM.run_bind, EStateM.run_get]
    cases e.disputes.find? m.tradeId with
    | none => exact run_missDispute m a e
    | some d =>
      simp only [EStateM.run_bind, run_retries, run_disputes, run_applyToTrade, EStateM.run_modify]
      rfl

theorem run_handle (stamp : Stamp) (event : Event) (e : Engine) :
    (handle stamp event).run e = e.settled ((e.handle stamp event).map (·, ())) := by
  cases event with
  | support m =>
    simp only [handle, Engine.handle, Engine.receive, EStateM.run_bind, EStateM.run_get]
    cases m.isFor e.config.supportType with
    | false => rfl
    | true =>
      cases m with
      | disputeResult m => exact run_receiveResult m .delivery e
      | openNewDispute m => rfl
      | peerOpenedDispute m => rfl
      | chat m => rfl
      | unsupported => rfl
  | deferred m => exact run_receiveResult m .retry e
  | payoutCompleted o => rfl

theorem run_accept (id : TradeId) (caller : Nat) (e : Engine) :
    (accept id caller).run e = e.settled (e.accept id caller) := by
  simp only [accept, Engine.accept, EStateM.run_bind, EStateM.run_get]
  cases (e.disputes.find? id).bind Dispute.result with
  | none => rfl
  | some r =>
    simp only [EStateM.run_bind, run_updateTrade]
    cases hlive : e.registry.book.live.get? id with
    | none =>
      rw [updateTrade_of_missing hlive]
      rfl
    | some t =>
      simp only [Option.map_some, EStateM.run_bind, run_trades, run_register]
      cases (Engine.acceptedTrade t r).hasPeerSignature <;> rfl

theorem run_reject (id : TradeId) (e : Engine) :
    (reject id).run e = e.settled ((e.reject id).map (·, ())) := by
  simp only [reject, Engine.reject, EStateM.run_bind, run_updateTrade]
  cases hlive : e.registry.book.live.get? id with
  | none =>
    rw [updateTrade_of_missing hlive]
    rfl
  | some t => rfl

end Program

/-! ### When an operation is refused -/

namespace Engine

theorem eq_of_settled_error {α : Type} {e e' : Engine} {x : Except MediationError (Engine × α)}
    {err : MediationError} (h : e.settled x = .error err e') : e' = e := by
  cases x with
  | ok p => cases h
  | error err' =>
    cases h
    rfl

theorem receiveResult_error_iff (e : Engine) (m : ResultMessage) (a : Attempt) :
    (∃ err, e.receiveResult m a = .error err) ↔ m.result.chatMessage = none := by
  unfold receiveResult
  cases m.result.chatMessage with
  | none => exact ⟨fun _ => rfl, fun _ => ⟨_, rfl⟩⟩
  | some closing =>
    dsimp only
    cases e.disputes.find? m.tradeId <;> simp

/-- An event that brings a result without a closing message, past the gate if it
has to pass it. -/
def BringsUnclosed (e : Engine) (event : Event) : Prop :=
  ∃ m : ResultMessage, m.result.chatMessage = none ∧
    (event = .deferred m ∨
      event = .support (.disputeResult m) ∧
        (SupportMessage.disputeResult m).isFor e.config.supportType = true)

theorem handle_error_iff (e : Engine) (stamp : Stamp) (event : Event) :
    (∃ err, e.handle stamp event = .error err) ↔ e.BringsUnclosed event := by
  constructor
  · rintro ⟨err, h⟩
    cases event with
    | support m =>
      simp only [handle, receive] at h
      split at h
      next hgate =>
        cases m with
        | disputeResult m =>
          exact ⟨m, (receiveResult_error_iff e m .delivery).mp ⟨err, h⟩, Or.inr ⟨rfl, hgate⟩⟩
        | openNewDispute m => cases h
        | peerOpenedDispute m => cases h
        | chat m => cases h
        | unsupported => cases h
      next => cases h
    | deferred m => exact ⟨m, (receiveResult_error_iff e m .retry).mp ⟨err, h⟩, Or.inl rfl⟩
    | payoutCompleted o => cases h
  · rintro ⟨m, hclosing, rfl | ⟨rfl, hgate⟩⟩
    · exact (receiveResult_error_iff e m .retry).mpr hclosing
    · simp only [handle, receive, hgate, if_true]
      exact (receiveResult_error_iff e m .delivery).mpr hclosing

/-- A dispute about a trade is stored, and a result is attached to it. -/
def HasResult (e : Engine) (id : TradeId) : Prop :=
  ∃ d r, e.disputes.find? id = some d ∧ d.result = some r

theorem hasResult_iff (e : Engine) (id : TradeId) :
    e.HasResult id ↔ ∃ r, (e.disputes.find? id).bind Dispute.result = some r := by
  simp only [HasResult, Option.bind_eq_some_iff]
  exact exists_comm

/-- An acceptance is refused for want of a result, or of a live trade, or is carried out. -/
theorem accept_cases (e : Engine) (id : TradeId) (caller : Nat) :
    (¬ e.HasResult id ∧ e.accept id caller = .error (.noDisputeResult id)) ∨
      (e.HasResult id ∧ e.registry.book.live.get? id = none ∧
        e.accept id caller = .error (.tradeNotFound id)) ∨
      (e.HasResult id ∧ (∃ t, e.registry.book.live.get? id = some t) ∧
        ∃ p, e.accept id caller = .ok p) := by
  rw [hasResult_iff, accept]
  cases (e.disputes.find? id).bind Dispute.result with
  | none => exact Or.inl ⟨fun ⟨r, hr⟩ => (by cases hr), rfl⟩
  | some r =>
    cases e.registry.book.live.get? id with
    | none => exact Or.inr (Or.inl ⟨⟨r, rfl⟩, rfl, rfl⟩)
    | some t => exact Or.inr (Or.inr ⟨⟨r, rfl⟩, ⟨t, rfl⟩, _, rfl⟩)

theorem accept_iff (e : Engine) (id : TradeId) (caller : Nat) :
    (e.accept id caller = .error (.noDisputeResult id) ↔ ¬ e.HasResult id) ∧
      (e.accept id caller = .error (.tradeNotFound id) ↔
        e.HasResult id ∧ e.registry.book.live.get? id = none) ∧
      ((∃ p, e.accept id caller = .ok p) ↔
        e.HasResult id ∧ ∃ t, e.registry.book.live.get? id = some t) := by
  rcases e.accept_cases id caller with
    ⟨hresult, haccept⟩ | ⟨hresult, hlive, haccept⟩ | ⟨hresult, ⟨t, hlive⟩, p, haccept⟩ <;>
    simp [*]

theorem reject_error_iff (e : Engine) (id : TradeId) :
    (∃ err, e.reject id = .error err) ↔ e.registry.book.live.get? id = none := by
  unfold reject
  cases e.registry.book.live.get? id <;> simp

/-- An operation is refused exactly when what it needs is missing, and then the
engine is as it was, whatever steps the operation takes before it finds out. -/
theorem refused_unchanged (e : Engine) :
    (∀ stamp event,
      ((∃ err, e.handle stamp event = .error err) ↔ e.BringsUnclosed event) ∧
      (Program.handle stamp event).run e = e.settled ((e.handle stamp event).map (·, ())) ∧
      ∀ err e', (Program.handle stamp event).run e = .error err e' → e' = e) ∧
    (∀ id caller,
      (e.accept id caller = .error (.noDisputeResult id) ↔ ¬ e.HasResult id) ∧
      (e.accept id caller = .error (.tradeNotFound id) ↔
        e.HasResult id ∧ e.registry.book.live.get? id = none) ∧
      ((∃ p, e.accept id caller = .ok p) ↔
        e.HasResult id ∧ ∃ t, e.registry.book.live.get? id = some t) ∧
      (Program.accept id caller).run e = e.settled (e.accept id caller) ∧
      ∀ err e', (Program.accept id caller).run e = .error err e' → e' = e) ∧
    ∀ id,
      ((∃ err, e.reject id = .error err) ↔ e.registry.book.live.get? id = none) ∧
      (Program.reject id).run e = e.settled ((e.reject id).map (·, ())) ∧
      ∀ err e', (Program.reject id).run e = .error err e' → e' = e := by
  refine ⟨fun stamp event => ⟨handle_error_iff e stamp event, Program.run_handle stamp event e,
    ?_⟩, fun id caller => ?_, fun id => ⟨reject_error_iff e id, Program.run_reject id e, ?_⟩⟩
  · intro err e' h
    rw [Program.run_handle] at h
    exact eq_of_settled_error h
  · obtain ⟨hresult, hlive, hok⟩ := e.accept_iff id caller
    refine ⟨hresult, hlive, hok, Program.run_accept id caller e, ?_⟩
    intro err e' h
    rw [Program.run_accept] at h
    exact eq_of_settled_error h
  · intro err e' h
    rw [Program.run_reject] at h
    exact eq_of_settled_error h

end Engine

end Mediation
