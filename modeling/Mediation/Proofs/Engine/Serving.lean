import Mediation.Node.Basic
import Mediation.Proofs.Engine.Effects

/-!
# What serving a request does

Three requests open a dispute, and two bring a result. For each of the two
kinds there is one equation for what serving such a request does, in the terms
of the parts of an operation. `Served` lists what an engine can become when it
serves any request; what no request changes follows by its cases.
-/

namespace Mediation

namespace Request

def dispute? : Request → Option Dispute
  | .openDispute d => some d
  | .event (.support (.openNewDispute m)) => some m.dispute
  | .event (.support (.peerOpenedDispute m)) => some m.dispute
  | _ => none

def entry? (c : MediationConfig) : Request → Option DisputeState
  | .openDispute _ => some c.requestedState
  | .event (.support (.peerOpenedDispute _)) => some c.startedByPeerState
  | _ => none

def greeting (d : Dispute) : Request → String
  | .openDispute _ => Texts.introForCreator (Texts.disputeInfo d)
  | .event (.support (.peerOpenedDispute _)) => Texts.introForPeer (Texts.disputeInfo d)
  | _ => Texts.disputeInfo d

def result? : Request → Option ResultMessage
  | .event (.support (.disputeResult m)) => some m
  | .event (.deferred m) => some m
  | _ => none

/-- The result message that a request brings, and whether it comes from outside or from a timer. -/
def attempt? : Request → Option (ResultMessage × Attempt)
  | .event (.support (.disputeResult m)) => some (m, .delivery)
  | .event (.deferred m) => some (m, .retry)
  | _ => none

/-- The request that brings a result message. -/
def bring (m : ResultMessage) : Attempt → Request
  | .delivery => .event (.support (.disputeResult m))
  | .retry => .event (.deferred m)

theorem eq_bring_of_attempt? {r : Request} {m : ResultMessage} {a : Attempt}
    (h : r.attempt? = some (m, a)) : r = bring m a := by
  unfold attempt? at h
  split at h
  next =>
    cases h
    rfl
  next =>
    cases h
    rfl
  next => cases h

theorem result?_of_attempt? {r : Request} {m : ResultMessage} {a : Attempt}
    (h : r.attempt? = some (m, a)) : r.result? = some m := by
  obtain rfl := eq_bring_of_attempt? h
  cases a <;> rfl

theorem attempt?_of_result? {r : Request} {m : ResultMessage} (h : r.result? = some m) :
    ∃ a, r.attempt? = some (m, a) := by
  unfold result? at h
  split at h
  next =>
    cases h
    exact ⟨.delivery, rfl⟩
  next =>
    cases h
    exact ⟨.retry, rfl⟩
  next => cases h

end Request

namespace Engine

/-- Whether a request gets past the gate, which only support messages have to pass. -/
def takes (e : Engine) : Request → Bool
  | .event (.support m) => m.isFor e.config.supportType
  | _ => true

theorem takes_congr {e e' : Engine} (h : e'.config = e.config) (r : Request) :
    e'.takes r = e.takes r := by
  unfold takes
  rw [h]

theorem serve_of_not_taken {e : Engine} {r : Request} (h : e.takes r = false) (stamp : Stamp) :
    (e.serve stamp r).1 = e := by
  unfold takes at h
  split at h
  next m => simp only [serve, handle, receive, h, Bool.false_eq_true, if_false]
  next => cases h

theorem serve_unsupported (e : Engine) (stamp : Stamp) :
    (e.serve stamp (.event (.support .unsupported))).1 = e := by
  simp only [serve, handle, receive, ite_self]

/-- A chat message past the gate is added to the chat of its dispute, if there is one. -/
theorem serve_chat {e : Engine} {m : ChatMessage}
    (htakes : e.takes (.event (.support (.chat m))) = true) (stamp : Stamp) :
    ∃ requests acks, (e.serve stamp (.event (.support (.chat m)))).1 =
      { e with disputes := ⟨(e.disputes.append m).disputes, requests⟩, acks := acks } := by
  have hgate : (SupportMessage.chat m).isFor e.config.supportType = true := htakes
  -- to add a message that is dropped or said already would change no chat either
  have hsame (hsaid : ∀ d, e.disputes.find? m.tradeId = some d → d.hasMessage m = true) :
      e.disputes.append m = e.disputes :=
    DisputeStore.update_eq_self fun d hd => Dispute.addMessage_of_hasMessage (hsaid d hd)
  simp only [serve, handle, receive, hgate, if_true]
  unfold receiveChat
  split
  next hmissing =>
    rw [hsame fun d hd => ?_]
    · exact ⟨_, _, rfl⟩
    · rw [hmissing] at hd
      cases hd
  next d hd =>
    dsimp only
    split
    next hmem =>
      rw [hsame fun d' hd' => ?_]
      · exact ⟨_, _, rfl⟩
      · rw [hd, Option.some.injEq] at hd'
        rw [← hd']
        exact hmem
    next => exact ⟨_, _, rfl⟩

section Opening
variable {e : Engine} {r : Request} {d : Dispute} (hr : r.dispute? = some d)
include hr

theorem serve_opening_of_stored (hd : e.disputes.contains d.tradeId = true) (stamp : Stamp) :
    (e.serve stamp r).1 = { e with acks := (e.serve stamp r).1.acks } := by
  cases htakes : e.takes r with
  | false => rw [serve_of_not_taken htakes]
  | true =>
    unfold Request.dispute? at hr
    split at hr
    next =>
      cases hr
      simp only [serve, openDispute, hd, if_true]
    next m =>
      cases hr
      have hgate : (SupportMessage.openNewDispute m).isFor e.config.supportType = true := htakes
      simp only [serve, handle, receive, hgate, receiveNewDispute, hd, if_true]
      rfl
    next m =>
      cases hr
      have hgate : (SupportMessage.peerOpenedDispute m).isFor e.config.supportType = true := htakes
      simp only [serve, handle, receive, hgate, receivePeerDispute, hd, if_true]
      rfl
    next => cases hr

/-- A dispute that is not stored yet is added, with the text that begins its chat
and the state that its trade enters. -/
theorem serve_opening (htakes : e.takes r = true) (hd : e.disputes.find? d.tradeId = none)
    (stamp : Stamp) :
    (e.serve stamp r).1 =
      { e.addDispute stamp d (r.greeting d) (r.entry? e.config) with
        acks := (e.serve stamp r).1.acks } := by
  have hnew : e.disputes.contains d.tradeId = false := DisputeStore.contains_of_none hd
  unfold Request.dispute? at hr
  split at hr
  next =>
    cases hr
    simp only [serve, openDispute, hnew, Bool.false_eq_true, if_false]
    rfl
  next m =>
    cases hr
    have hgate : (SupportMessage.openNewDispute m).isFor e.config.supportType = true := htakes
    simp only [serve, handle, receive, hgate, receiveNewDispute, hnew, Bool.false_eq_true,
      if_true, if_false]
    rfl
  next m =>
    cases hr
    have hgate : (SupportMessage.peerOpenedDispute m).isFor e.config.supportType = true := htakes
    simp only [serve, handle, receive, hgate, receivePeerDispute, hnew, Bool.false_eq_true,
      if_true, if_false]
    rfl
  next => cases hr

theorem find?_serve_opening (htakes : e.takes r = true) (hd : e.disputes.find? d.tradeId = none)
    (stamp : Stamp) (j : TradeId) :
    (e.serve stamp r).1.disputes.find? j =
      if j = d.tradeId then
        some (d.addMessage (.system stamp d.tradeId e.config.supportType e.address (r.greeting d)))
      else e.disputes.find? j := by
  rw [serve_opening hr htakes hd]
  exact find?_addDispute hd stamp _ _ j

/-- A request for a dispute stores it, or leaves all but the acknowledgements alone. -/
theorem serve_opening_cases (stamp : Stamp) :
    (e.serve stamp r).1 = { e with acks := (e.serve stamp r).1.acks } ∨
      (e.takes r = true ∧ e.disputes.find? d.tradeId = none ∧
        (e.serve stamp r).1 =
          { e.addDispute stamp d (r.greeting d) (r.entry? e.config) with
            acks := (e.serve stamp r).1.acks }) := by
  cases htakes : e.takes r with
  | false =>
    rw [serve_of_not_taken htakes]
    exact Or.inl rfl
  | true =>
    cases hd : e.disputes.find? d.tradeId with
    | none => exact Or.inr ⟨rfl, rfl, serve_opening hr htakes hd stamp⟩
    | some d' =>
      have hstored : e.disputes.contains d.tradeId = true := DisputeStore.contains_of_some hd
      exact Or.inl (serve_opening_of_stored hr hstored stamp)

end Opening

theorem serve_attempt {e : Engine} {r : Request} {m : ResultMessage} {a : Attempt}
    (hr : r.attempt? = some (m, a)) (htakes : e.takes r = true) (stamp : Stamp) :
    (e.serve stamp r).1 = (e.receiveResult m a).toOption.getD e := by
  obtain rfl := Request.eq_bring_of_attempt? hr
  cases a with
  | delivery =>
    have hgate : (SupportMessage.disputeResult m).isFor e.config.supportType = true := htakes
    simp only [Request.bring, serve, handle, receive, hgate, if_true]
    cases e.receiveResult m .delivery <;> rfl
  | retry =>
    simp only [Request.bring, serve, handle]
    cases e.receiveResult m .retry <;> rfl

/-- The engine once a result has been applied, apart from the acknowledgement. -/
def ruling (e : Engine) (m : ResultMessage) (closing : ChatMessage) : Engine :=
  ((e.applyToDispute m closing).applyToTrade m.tradeId m.result.buyerPayout
    m.result.sellerPayout).storeDisputes

theorem ruling_eq (e : Engine) (m : ResultMessage) (closing : ChatMessage) :
    e.ruling m closing =
      { e with
        disputes := (e.disputes.rule m closing).requestStore
        registry := (e.ruling m closing).registry
        retries := e.retries.erase m.uid } := by
  unfold ruling
  rw [applyToTrade_eq]
  rfl

theorem ruling_book (e : Engine) (m : ResultMessage) (closing : ChatMessage) :
    (e.ruling m closing).registry.book =
      e.registry.book.applyResult m.tradeId m.result.buyerPayout m.result.sellerPayout :=
  applyToTrade_book (e.applyToDispute m closing) m.tradeId m.result.buyerPayout
    m.result.sellerPayout

theorem ruled_ruling (e : Engine) (m : ResultMessage) (closing : ChatMessage)
    (acks : List AckMessage) : Ruled e m closing { e.ruling m closing with acks := acks } where
  disputes := by
    rw [ruling_eq]
    rfl
  book := ruling_book e m closing
  retries := by rw [ruling_eq]
  timers := by rw [ruling_eq]
  config := by rw [ruling_eq]

/-- A message with a result is refused, finds its dispute missing, or is applied. -/
theorem receiveResult_cases (e : Engine) (m : ResultMessage) (a : Attempt) :
    (m.result.chatMessage = none ∧ (e.receiveResult m a).toOption.getD e = e) ∨
      (m.result.chatMessage.isSome = true ∧ e.disputes.find? m.tradeId = none ∧
        (e.receiveResult m a).toOption.getD e = e.missDispute m a) ∨
      (e.disputes.contains m.tradeId = true ∧ ∃ closing acks,
        m.result.chatMessage = some closing ∧
          (e.receiveResult m a).toOption.getD e = { e.ruling m closing with acks := acks }) := by
  cases hclosing : m.result.chatMessage with
  | none =>
    have herror : e.receiveResult m a = .error (.missingChatMessage m.uid m.tradeId) := by
      simp only [receiveResult, hclosing]
    rw [herror]
    exact Or.inl ⟨rfl, rfl⟩
  | some closing =>
    cases hd : e.disputes.find? m.tradeId with
    | none =>
      rw [receiveResult_of_missing hclosing hd]
      exact Or.inr (Or.inl ⟨rfl, rfl, rfl⟩)
    | some d =>
      have hstored : e.disputes.contains m.tradeId = true := DisputeStore.contains_of_some hd
      refine Or.inr (Or.inr ⟨hstored, closing, ((e.receiveResult m a).toOption.getD e).acks, rfl,
        ?_⟩)
      simp only [receiveResult, hclosing, hd]
      rfl

/-- A request with a result is dropped, finds its dispute missing, or is applied. -/
theorem serve_attempt_cases {e : Engine} {r : Request} {m : ResultMessage} {a : Attempt}
    (hr : r.attempt? = some (m, a)) (stamp : Stamp) :
    ((e.takes r = false ∨ m.result.chatMessage = none) ∧ (e.serve stamp r).1 = e) ∨
      (m.result.chatMessage.isSome = true ∧ e.disputes.find? m.tradeId = none ∧
        (e.serve stamp r).1 = e.missDispute m a) ∨
      (e.takes r = true ∧ e.disputes.contains m.tradeId = true ∧
        ∃ closing acks, m.result.chatMessage = some closing ∧
          (e.serve stamp r).1 = { e.ruling m closing with acks := acks }) := by
  cases htakes : e.takes r with
  | false => exact Or.inl ⟨Or.inl rfl, serve_of_not_taken htakes stamp⟩
  | true =>
    rw [serve_attempt hr htakes]
    rcases e.receiveResult_cases m a with ⟨hnone, hsame⟩ | hmissed | hruled
    · exact Or.inl ⟨Or.inr hnone, hsame⟩
    · exact Or.inr (Or.inl hmissed)
    · exact Or.inr (Or.inr ⟨rfl, hruled⟩)

section Result
variable {e : Engine} {r : Request} {m : ResultMessage} (hr : r.result? = some m)
include hr

/-- A request with a result applies it, finds its dispute missing, or does nothing. -/
theorem serve_result_cases (stamp : Stamp) :
    ((e.takes r = false ∨ m.result.chatMessage = none) ∧ (e.serve stamp r).1 = e) ∨
      (e.disputes.find? m.tradeId = none ∧ ∃ a, (e.serve stamp r).1 = e.missDispute m a) ∨
      (e.takes r = true ∧ e.disputes.contains m.tradeId = true ∧
        ∃ closing, m.result.chatMessage = some closing ∧
          Ruled e m closing (e.serve stamp r).1) := by
  obtain ⟨a, ha⟩ := Request.attempt?_of_result? hr
  rcases serve_attempt_cases ha stamp with
    hdropped | ⟨-, hmissing, hmissed⟩ | ⟨htakes, hstored, closing, acks, hclosing, hruled⟩
  · exact Or.inl hdropped
  · exact Or.inr (Or.inl ⟨hmissing, a, hmissed⟩)
  · refine Or.inr (Or.inr ⟨htakes, hstored, closing, hclosing, ?_⟩)
    rw [hruled]
    exact ruled_ruling e m closing acks

theorem serve_result_of_stored (htakes : e.takes r = true) {closing : ChatMessage}
    (hclosing : m.result.chatMessage = some closing)
    (hd : e.disputes.contains m.tradeId = true) (stamp : Stamp) :
    Ruled e m closing (e.serve stamp r).1 := by
  rcases serve_result_cases hr stamp with
    ⟨hdropped | hdropped, -⟩ | ⟨hmissing, -⟩ | ⟨-, -, closing', hclosing', hruled⟩
  · rw [htakes] at hdropped
    cases hdropped
  · rw [hclosing] at hdropped
    cases hdropped
  · rw [DisputeStore.contains_of_none hmissing] at hd
    cases hd
  · rw [hclosing] at hclosing'
    cases hclosing'
    exact hruled

theorem serve_result_of_missing (htakes : e.takes r = true) {closing : ChatMessage}
    (hclosing : m.result.chatMessage = some closing)
    (hd : e.disputes.find? m.tradeId = none) (stamp : Stamp) :
    ∃ a, (e.serve stamp r).1 = e.missDispute m a := by
  rcases serve_result_cases hr stamp with
    ⟨hdropped | hdropped, -⟩ | ⟨-, hmissed⟩ | ⟨-, hstored, -⟩
  · rw [htakes] at hdropped
    cases hdropped
  · rw [hclosing] at hdropped
    cases hdropped
  · exact hmissed
  · rw [DisputeStore.contains_of_none hd] at hstored
    cases hstored

end Result

/-! ### Parts that an operation leaves alone -/

theorem closePaidTrades_eq (ids : List TradeId) (e : Engine) :
    (e.closePaidTrades ids).1 = { e with registry := (e.closePaidTrades ids).1.registry } := by
  induction ids generalizing e with
  | nil => rfl
  | cons j ids ih =>
    unfold closePaidTrades
    split
    next => exact ih e
    next e' h =>
      obtain ⟨t, -, -, -, -, rfl⟩ := closePaidTrade?_some h
      exact ih _

theorem cleanup_eq (e : Engine) : e.cleanup.1 = { e with registry := e.cleanup.1.registry } := by
  have h := closePaidTrades_eq e.disputes.disputes.keys e
  simp only [cleanup]
  split
  · exact h
  · simp only [storeTrades]
    rw [h]

theorem receiveOutcome_of_pending {e : Engine} {o : PayoutOutcome} {p : PendingAcceptance}
    (hp : e.acceptances.get? o.ticket = some p) :
    e.receiveOutcome o =
      { e with
        registry := (e.receiveOutcome o).registry
        acceptances := e.acceptances.erase o.ticket
        replies := e.replies ++ [⟨p.caller, o.error⟩] } := by
  unfold receiveOutcome
  rw [hp]
  dsimp only
  split
  next => rfl
  next =>
    cases hclose : closePaidTrade?
        { e with acceptances := e.acceptances.erase o.ticket } p.tradeId with
    | none => rfl
    | some e' =>
      obtain ⟨t, -, -, -, -, rfl⟩ := closePaidTrade?_some hclose
      rfl

theorem change_eq (e : Engine) (id : TradeId) (u : TradeUpdate) :
    (e.change id u).1 = { e with registry := (e.change id u).1.registry } := by
  unfold change
  split <;> rfl

/-! ### Everything that a request can do -/

/-- What an engine can become when it serves a request; `acks` are the
acknowledgements that it has sent by then. -/
inductive Served (e : Engine) (r : Request) : Engine → Prop where
  | idle (acks : List AckMessage) : Served e r { e with acks := acks }
  | opened (stamp : Stamp) (d : Dispute) (acks : List AckMessage) (hr : r.dispute? = some d)
      (hnew : e.disputes.find? d.tradeId = none) :
      Served e r { e.addDispute stamp d (r.greeting d) (r.entry? e.config) with acks := acks }
  | said (m : ChatMessage) (acks : List AckMessage) (hr : r = .event (.support (.chat m)))
      (hstored : e.disputes.contains m.tradeId = true) :
      Served e r { e with disputes := (e.disputes.append m).requestStore, acks := acks }
  | missed (m : ResultMessage) (a : Attempt) (hr : r.attempt? = some (m, a))
      (hclosing : m.result.chatMessage.isSome = true)
      (hmissing : e.disputes.find? m.tradeId = none) : Served e r (e.missDispute m a)
  | ruled (m : ResultMessage) (a : Attempt) (closing : ChatMessage) (acks : List AckMessage)
      (hr : r.attempt? = some (m, a)) (htakes : e.takes r = true)
      (hclosing : m.result.chatMessage = some closing)
      (hstored : e.disputes.contains m.tradeId = true) :
      Served e r { e.ruling m closing with acks := acks }
  | answered (o : PayoutOutcome) (p : PendingAcceptance)
      (hr : r = .event (.payoutCompleted o)) (hp : e.acceptances.get? o.ticket = some p) :
      Served e r (e.receiveOutcome o)
  | accepted (id : TradeId) (caller ticket : Nat) (e' : Engine) (hr : r = .accept id caller)
      (hok : e.accept id caller = .ok (e', ticket)) : Served e r e'
  | rejected (id : TradeId) (hr : r = .reject id) :
      Served e r (e.updateTrade id fun t => { t with verdict := .rejected }).storeTrades
  | swept (hr : r = .cleanup) : Served e r e.cleanup.1
  | changed (id : TradeId) (u : TradeUpdate) (hr : r = .update id u) :
      Served e r (e.change id u).1

theorem served_opening {e : Engine} {r : Request} {d : Dispute} (hr : r.dispute? = some d)
    (stamp : Stamp) : Served e r (e.serve stamp r).1 := by
  rcases serve_opening_cases hr stamp with hsame | ⟨-, hnew, hadded⟩
  · rw [hsame]
    exact .idle _
  · rw [hadded]
    exact .opened stamp d _ hr hnew

theorem served_chat (e : Engine) (stamp : Stamp) (m : ChatMessage) :
    Served e (.event (.support (.chat m))) (e.serve stamp (.event (.support (.chat m)))).1 := by
  cases htakes : e.takes (.event (.support (.chat m))) with
  | false =>
    rw [serve_of_not_taken htakes]
    exact .idle e.acks
  | true =>
    have hgate : (SupportMessage.chat m).isFor e.config.supportType = true := htakes
    simp only [serve, handle, receive, hgate, if_true]
    unfold receiveChat
    split
    next => exact .idle e.acks
    next d hd =>
      dsimp only
      split
      next => exact .idle _
      next =>
        have hstored : e.disputes.contains m.tradeId = true := DisputeStore.contains_of_some hd
        exact .said m _ rfl hstored

theorem served_result {e : Engine} {r : Request} {m : ResultMessage} {a : Attempt}
    (hr : r.attempt? = some (m, a)) (stamp : Stamp) : Served e r (e.serve stamp r).1 := by
  rcases serve_attempt_cases hr stamp with
    ⟨-, hsame⟩ | ⟨hclosing, hmissing, hmissed⟩ | ⟨htakes, hstored, closing, acks, hclosing, hruled⟩
  · rw [hsame]
    exact .idle e.acks
  · rw [hmissed]
    exact .missed m a hr hclosing hmissing
  · rw [hruled]
    exact .ruled m a closing acks hr htakes hclosing hstored

theorem served (e : Engine) (stamp : Stamp) (r : Request) : Served e r (e.serve stamp r).1 := by
  cases r with
  | event event =>
    cases event with
    | support m =>
      cases m with
      | openNewDispute m => exact served_opening rfl stamp
      | peerOpenedDispute m => exact served_opening rfl stamp
      | chat m => exact served_chat e stamp m
      | disputeResult m => exact served_result rfl stamp
      | unsupported =>
        simp only [serve, handle, receive, ite_self]
        exact .idle e.acks
    | deferred m => exact served_result rfl stamp
    | payoutCompleted o =>
      cases hp : e.acceptances.get? o.ticket with
      | none =>
        simp only [serve, handle, receiveOutcome, hp]
        exact .idle e.acks
      | some p => exact .answered o p rfl hp
  | accept id caller =>
    cases hok : e.accept id caller with
    | error err =>
      simp only [serve, hok]
      exact .idle e.acks
    | ok p =>
      simp only [serve, hok]
      exact .accepted id caller p.2 p.1 rfl hok
  | reject id =>
    simp only [serve, reject]
    split
    next e' h =>
      split at h
      · cases h
      · cases h
        exact .rejected id rfl
    next => exact .idle e.acks
  | openDispute d => exact served_opening rfl stamp
  | cleanup => exact .swept rfl
  | update id u => exact .changed id u rfl
  | barrier => exact .idle e.acks

theorem Served.config {e e' : Engine} {r : Request} (h : Served e r e') :
    e'.config = e.config := by
  cases h with
  | idle acks => rfl
  | opened stamp d acks hr hnew =>
    change (e.addDispute stamp d (r.greeting d) (r.entry? e.config)).config = e.config
    rw [addDispute_eq]
  | said m acks hr hstored => rfl
  | missed m a hr hclosing hmissing => rw [missDispute_eq]
  | ruled m a closing acks hr htakes hclosing hstored =>
    change (e.ruling m closing).config = e.config
    rw [ruling_eq]
  | answered o p hr hp => rw [receiveOutcome_of_pending hp]
  | accepted id caller ticket e' hr hok =>
    obtain ⟨d, res, t, step, -, -, -, -, rfl⟩ := accept_ok hok
    rfl
  | rejected id hr => rfl
  | swept hr => rw [cleanup_eq]
  | changed id u hr => rw [change_eq]

theorem serve_config (e : Engine) (stamp : Stamp) (r : Request) :
    (e.serve stamp r).1.config = e.config := (served e stamp r).config

theorem Served.address {e e' : Engine} {r : Request} (h : Served e r e') :
    e'.address = e.address := by
  cases h with
  | idle acks => rfl
  | opened stamp d acks hr hnew =>
    change (e.addDispute stamp d (r.greeting d) (r.entry? e.config)).address = e.address
    rw [addDispute_eq]
  | said m acks hr hstored => rfl
  | missed m a hr hclosing hmissing => rw [missDispute_eq]
  | ruled m a closing acks hr htakes hclosing hstored =>
    change (e.ruling m closing).address = e.address
    rw [ruling_eq]
  | answered o p hr hp => rw [receiveOutcome_of_pending hp]
  | accepted id caller ticket e' hr hok =>
    obtain ⟨d, res, t, step, -, -, -, -, rfl⟩ := accept_ok hok
    rfl
  | rejected id hr => rfl
  | swept hr => rw [cleanup_eq]
  | changed id u hr => rw [change_eq]

/-- A stored dispute stays stored. -/
theorem Served.contains {e e' : Engine} {r : Request} (h : Served e r e') {id : TradeId}
    (hid : e.disputes.contains id = true) : e'.disputes.contains id = true := by
  cases h with
  | idle acks => exact hid
  | opened stamp d acks hr hnew =>
    change ((e.addDispute stamp d _ _).disputes.find? id).isSome = true
    rw [find?_addDispute hnew]
    split
    · rfl
    · exact hid
  | said m acks hr hstored =>
    rw [← e.disputes.contains_append m] at hid
    exact hid
  | missed m a hr hclosing hmissing =>
    rw [missDispute_eq]
    exact hid
  | ruled m a closing acks hr htakes hclosing hstored =>
    change ((e.ruling m closing).disputes.find? id).isSome = true
    rw [ruling_eq, DisputeStore.find?_requestStore, DisputeStore.find?_rule]
    rw [← e.disputes.contains_append closing] at hid
    split
    · rw [Option.isSome_map]
      exact hid
    · exact hid
  | answered o p hr hp =>
    rw [receiveOutcome_of_pending hp]
    exact hid
  | accepted id' caller ticket e' hr hok =>
    obtain ⟨d, res, t, step, -, -, -, -, rfl⟩ := accept_ok hok
    exact hid
  | rejected id' hr => exact hid
  | swept hr =>
    rw [cleanup_eq]
    exact hid
  | changed id' u hr =>
    rw [change_eq]
    exact hid

/-- Only a message with a result touches the timers and the retries. -/
theorem Served.waits {e e' : Engine} {r : Request} (h : Served e r e')
    (hr : r.attempt? = none) : e'.timers = e.timers ∧ e'.retries = e.retries := by
  cases h with
  | idle acks => exact ⟨rfl, rfl⟩
  | opened stamp d acks hd hnew =>
    rw [addDispute_eq]
    exact ⟨rfl, rfl⟩
  | said m acks hm hstored => exact ⟨rfl, rfl⟩
  | missed m a hm hclosing hmissing =>
    rw [hr] at hm
    cases hm
  | ruled m a closing acks hm htakes hclosing hstored =>
    rw [hr] at hm
    cases hm
  | answered o p ho hp =>
    rw [receiveOutcome_of_pending hp]
    exact ⟨rfl, rfl⟩
  | accepted id caller ticket e' ha hok =>
    obtain ⟨d, res, t, step, -, -, -, -, rfl⟩ := accept_ok hok
    exact ⟨rfl, rfl⟩
  | rejected id hj => exact ⟨rfl, rfl⟩
  | swept hs =>
    rw [cleanup_eq]
    exact ⟨rfl, rfl⟩
  | changed id u hu =>
    rw [change_eq]
    exact ⟨rfl, rfl⟩

/-- Only an acceptance and the outcome of a payout touch what is kept of payouts. -/
theorem Served.payouts {e e' : Engine} {r : Request} (h : Served e r e') :
    (∃ o p, r = .event (.payoutCompleted o) ∧ e.acceptances.get? o.ticket = some p ∧
      e' = e.receiveOutcome o) ∨
    (∃ id caller ticket, r = .accept id caller ∧ e.accept id caller = .ok (e', ticket)) ∨
    (e'.acceptances = e.acceptances ∧ e'.tickets = e.tickets ∧ e'.replies = e.replies ∧
      e'.desk = e.desk ∧ e'.outcomes = e.outcomes ∧ e'.requests = e.requests) := by
  cases h with
  | answered o p ho hp => exact Or.inl ⟨o, p, ho, hp, rfl⟩
  | accepted id caller ticket e' ha hok => exact Or.inr (Or.inl ⟨id, caller, ticket, ha, hok⟩)
  | idle acks => exact Or.inr (Or.inr ⟨rfl, rfl, rfl, rfl, rfl, rfl⟩)
  | opened stamp d acks hd hnew =>
    rw [addDispute_eq]
    exact Or.inr (Or.inr ⟨rfl, rfl, rfl, rfl, rfl, rfl⟩)
  | said m acks hm hstored => exact Or.inr (Or.inr ⟨rfl, rfl, rfl, rfl, rfl, rfl⟩)
  | missed m a hm hclosing hmissing =>
    rw [missDispute_eq]
    exact Or.inr (Or.inr ⟨rfl, rfl, rfl, rfl, rfl, rfl⟩)
  | ruled m a closing acks hm htakes hclosing hstored =>
    rw [ruling_eq]
    exact Or.inr (Or.inr ⟨rfl, rfl, rfl, rfl, rfl, rfl⟩)
  | rejected id hj => exact Or.inr (Or.inr ⟨rfl, rfl, rfl, rfl, rfl, rfl⟩)
  | swept hs =>
    rw [cleanup_eq]
    exact Or.inr (Or.inr ⟨rfl, rfl, rfl, rfl, rfl, rfl⟩)
  | changed id u hu =>
    rw [change_eq]
    exact Or.inr (Or.inr ⟨rfl, rfl, rfl, rfl, rfl, rfl⟩)

end Engine

end Mediation
