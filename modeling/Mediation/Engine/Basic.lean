import Mediation.Support.DisputeStore
import Mediation.Support.Payout
import Mediation.Support.Texts
import Mediation.Support.Timers
import Mediation.Trade.Book

/-!
# The mediation engine

The state machine that handles support messages, fired retries and payout
outcomes one after the other.

A dispute result may arrive before its dispute. The first time this happens a
retry is scheduled and noted under the id of the message; while it is noted,
the message is dropped when it comes again, and when the retry fires in vain
the note is removed. Applying a result twice is applying it once, apart from a
second acknowledgement.

Accepting a result starts a payout: the caller is kept under a fresh ticket and
answered once, when the outcome with that ticket arrives.
-/

namespace Mediation

inductive MediationError where
  | missingChatMessage (uid : MessageUid) (trade : TradeId)
  | noDisputeResult (trade : TradeId)
  | tradeNotFound (trade : TradeId)
  deriving DecidableEq

def MediationError.message : MediationError → String
  | .missingChatMessage uid id =>
    "dispute result message " ++ uid.text ++ " for trade " ++ id.text ++ " carries no chat message"
  | .noDisputeResult id => "no dispute result available for trade " ++ id.text
  | .tradeNotFound id => "trade " ++ id.text ++ " not found"

structure MediationConfig where
  supportType : SupportType
  ackSource : AckSource
  startedByPeerState : DisputeState
  requestedState : DisputeState
  retryDelay : Nat
  deriving DecidableEq

def MediationConfig.withRetryDelay (retryDelay : Nat) : MediationConfig where
  supportType := .mediation
  ackSource := .mediationMessage
  startedByPeerState := .mediationStartedByPeer
  requestedState := .mediationRequested
  retryDelay := retryDelay

/-- The configuration of mediation: a retry after two seconds. -/
def MediationConfig.default : MediationConfig := .withRetryDelay 2000

/-- An accepted result whose payout is under way: its trade, and who waits for the outcome. -/
structure PendingAcceptance where
  tradeId : TradeId
  caller : Nat
  deriving DecidableEq

/-- The answer to a caller: success, or the message of the failure. -/
structure Reply where
  caller : Nat
  error : Option String
  deriving DecidableEq

/-- What the payout exchange was asked for: the step, the trade it was given, and the completion. -/
structure PayoutRequest where
  step : PayoutStep
  trade : Trade
  completion : Completion

inductive Attempt where
  | delivery
  | retry
  deriving DecidableEq, Repr

inductive Event where
  | support (m : SupportMessage)
  | deferred (m : ResultMessage)
  | payoutCompleted (o : PayoutOutcome)

/-- The engine with everything it works on. `acks`, `requests` and `replies` are
what it has sent so far; `outcomes` are the payout outcomes that wait to be handled. -/
structure Engine where
  config : MediationConfig
  address : NodeAddress
  registry : Registry
  disputes : DisputeStore
  timers : Timers ResultMessage
  retries : Table MessageUid Nat
  acceptances : Table Nat PendingAcceptance
  tickets : Nat
  acks : List AckMessage
  requests : List PayoutRequest
  replies : List Reply
  desk : PayoutDesk
  publishesOnFinalize : Bool
  outcomes : List PayoutOutcome

namespace Engine

def start (config : MediationConfig) (address : NodeAddress) (registry : Registry)
    (disputes : DisputeStore) (desk : PayoutDesk) (publishesOnFinalize : Bool) : Engine where
  config := config
  address := address
  registry := registry
  disputes := disputes
  timers := .start
  retries := .empty
  acceptances := .empty
  tickets := 0
  acks := []
  requests := []
  replies := []
  desk := desk
  publishesOnFinalize := publishesOnFinalize
  outcomes := []

/-! ### Parts of the operations -/

def sendAck (e : Engine) (uid : MessageUid) (id : TradeId) (recipient : PubKeyRing)
    (error : Option String) : Engine :=
  { e with acks := e.acks ++ [⟨e.config.ackSource, uid, id, recipient, error.isNone, error⟩] }

def storeTrades (e : Engine) : Engine := { e with registry := e.registry.requestStore }

def storeDisputes (e : Engine) : Engine := { e with disputes := e.disputes.requestStore }

def updateTrade (e : Engine) (id : TradeId) (f : Trade → Trade) : Engine :=
  { e with registry := e.registry.update id f }

def appendSystemMessage (e : Engine) (stamp : Stamp) (id : TradeId) (text : String) : Engine :=
  { e with disputes := e.disputes.append (.system stamp id e.config.supportType e.address text) }

def enterDispute (e : Engine) (id : TradeId) (state : DisputeState) : Engine :=
  match e.registry.book.live.get? id with
  | none => e
  | some t =>
    if t.disputeState = .noDispute then (e.updateTrade id fun t => t.enterDispute state).storeTrades
    else e

/-- Closes a disputed trade whose payout is published; none when it is not
published or cannot be closed. -/
def closePaidTrade? (e : Engine) (id : TradeId) : Option Engine :=
  match e.registry.book.findTrade? id with
  | none => none
  | some t =>
    if t.isPayoutPublished then
      (e.registry.book.closeTrade? id .mediationClosed).map fun b =>
        { e with registry := e.registry.withBook b }
    else none

/-! ### Dispute results -/

/-- A result whose dispute is missing: the first delivery schedules a retry, later
ones are dropped, and a retry in vain ends the matter. -/
def missDispute (e : Engine) (m : ResultMessage) : Attempt → Engine
  | .delivery =>
    if e.retries.contains m.uid then e
    else
      { e with
        timers := e.timers.schedule e.config.retryDelay m
        retries := e.retries.insert m.uid e.timers.nextHandle }
  | .retry => { e with retries := e.retries.erase m.uid }

/-- Applies the amounts of a result to its live trade, or closes the open offer
when there is no trade. -/
def applyToTrade (e : Engine) (id : TradeId) (buyer seller : Coin) : Engine :=
  match e.registry.book.findTrade? id with
  | none =>
    match e.registry.book.closeOffer? id with
    | none => e
    | some b => { e with registry := (e.registry.withBook b).requestStore }
  | some _ =>
    match e.registry.book.live.get? id with
    | none => e
    | some t =>
      if t.disputeState.isMediationOpen then
        (e.updateTrade id fun t => t.applyResult buyer seller).storeTrades
      else e

def applyToDispute (e : Engine) (m : ResultMessage) (closing : ChatMessage) : Engine :=
  { e with
    retries := e.retries.erase m.uid
    disputes := ((e.disputes.append closing).close m.tradeId).attach m.result }

def receiveResult (e : Engine) (m : ResultMessage) (attempt : Attempt) :
    Except MediationError Engine :=
  match m.result.chatMessage with
  | none => .error (.missingChatMessage m.uid m.tradeId)
  | some closing =>
    match e.disputes.find? m.tradeId with
    | none => .ok (e.missDispute m attempt)
    | some d =>
      .ok ((((e.applyToDispute m closing).applyToTrade m.tradeId m.result.buyerPayout
        m.result.sellerPayout).sendAck closing.uid closing.tradeId d.parties.agent none)
          |>.storeDisputes)

/-! ### Opening disputes and chat -/

def disputeExists (id : TradeId) : String :=
  "dispute for trade " ++ id.text ++ " already exists"

/-- Stores a new dispute, begins its chat, and moves its trade to a dispute state
if one is given. -/
def addDispute (e : Engine) (stamp : Stamp) (d : Dispute) (text : String)
    (state : Option DisputeState) : Engine :=
  let e := { e with disputes := e.disputes.add d }
  let e := e.appendSystemMessage stamp d.tradeId text
  let e := match state with
    | none => e
    | some state => e.enterDispute d.tradeId state
  e.storeDisputes

/-- Opens a dispute of our own; nothing happens when there is one about the trade. -/
def openDispute (e : Engine) (stamp : Stamp) (d : Dispute) : Engine × Bool :=
  if e.disputes.contains d.tradeId then (e, false)
  else
    (e.addDispute stamp d (Texts.introForCreator (Texts.disputeInfo d))
      (some e.config.requestedState), true)

def receiveNewDispute (e : Engine) (stamp : Stamp) (m : DisputeMessage) : Engine :=
  let d := m.dispute
  if e.disputes.contains d.tradeId then
    e.sendAck m.uid d.tradeId d.parties.trader (some (disputeExists d.tradeId))
  else
    (e.addDispute stamp d (Texts.disputeInfo d) none).sendAck m.uid d.tradeId d.parties.trader none

def receivePeerDispute (e : Engine) (stamp : Stamp) (m : DisputeMessage) : Engine :=
  let d := m.dispute
  if e.disputes.contains d.tradeId then
    e.sendAck m.uid d.tradeId d.parties.agent (some (disputeExists d.tradeId))
  else
    (e.addDispute stamp d (Texts.introForPeer (Texts.disputeInfo d))
      (some e.config.startedByPeerState)).sendAck m.uid d.tradeId d.parties.agent none

/-- Handles a chat message; one without a dispute is dropped. -/
def receiveChat (e : Engine) (m : ChatMessage) : Engine :=
  match e.disputes.find? m.tradeId with
  | none => e
  | some d =>
    let stored :=
      if d.hasMessage m then e else { e with disputes := (e.disputes.append m).requestStore }
    stored.sendAck m.uid m.tradeId d.parties.agent none

/-! ### Payouts -/

def payoutTxid (id : TradeId) : String := "payout-" ++ id.text

/-- Asks the payout exchange for a step; an outcome it has at once joins the queue. -/
def askPayout (e : Engine) (step : PayoutStep) (trade : Trade) (c : Completion) : Engine :=
  let published :=
    if e.publishesOnFinalize && e.desk.succeedsAtOnce && step = .finalizeWithPeerSignature then
      e.registry.setPayoutTx trade.id ⟨payoutTxid trade.id⟩
    else e.registry
  { e with
    registry := published
    requests := e.requests ++ [⟨step, trade, c⟩]
    desk := e.desk.take step trade c
    outcomes := e.outcomes ++ (e.desk.outcome? c).toList }

/-- The live trade as it is once its result is accepted. -/
def acceptedTrade (t : Trade) (r : DisputeResult) : Trade :=
  { t.setPayouts r.buyerPayout r.sellerPayout with verdict := .accepted }

/-- Accepts the result of a trade's dispute and starts the payout; the caller is
kept under the returned ticket. -/
def accept (e : Engine) (id : TradeId) (caller : Nat) : Except MediationError (Engine × Nat) :=
  match (e.disputes.find? id).bind Dispute.result with
  | none => .error (.noDisputeResult id)
  | some r =>
    match e.registry.book.live.get? id with
    | none => .error (.tradeNotFound id)
    | some t =>
      let ticket := e.tickets + 1
      let trade := acceptedTrade t r
      let e := (e.updateTrade id fun t => acceptedTrade t r).storeTrades
      let e := { e with
        tickets := ticket
        acceptances := e.acceptances.insert ticket ⟨id, caller⟩ }
      let step :=
        if trade.hasPeerSignature then .finalizeWithPeerSignature else .acceptAndSendSignature
      .ok (e.askPayout step trade ⟨ticket, id⟩, ticket)

def reject (e : Engine) (id : TradeId) : Except MediationError Engine :=
  match e.registry.book.live.get? id with
  | none => .error (.tradeNotFound id)
  | some _ => .ok (e.updateTrade id fun t => { t with verdict := .rejected }).storeTrades

/-- Handles the outcome of a payout: answers the caller of its ticket, and closes
the trade if the payout succeeded and is published. -/
def receiveOutcome (e : Engine) (o : PayoutOutcome) : Engine :=
  match e.acceptances.get? o.ticket with
  | none => e
  | some pending =>
    let e := { e with acceptances := e.acceptances.erase o.ticket }
    let e := match o.error with
      | some _ => e
      | none => ((e.closePaidTrade? pending.tradeId).map storeTrades).getD e
    { e with replies := e.replies ++ [⟨pending.caller, o.error⟩] }

/-! ### The sweep -/

/-- Closes the trades of some disputes whose payout is published; counts them. -/
def closePaidTrades (e : Engine) : List TradeId → Engine × Nat
  | [] => (e, 0)
  | id :: ids =>
    match e.closePaidTrade? id with
    | none => e.closePaidTrades ids
    | some e =>
      let (e, n) := e.closePaidTrades ids
      (e, n + 1)

def cleanup (e : Engine) : Engine × Nat :=
  let (e, n) := e.closePaidTrades e.disputes.disputes.keys
  (if n = 0 then e else e.storeTrades, n)

/-! ### Events -/

/-- Handles a support message; one for another kind of support is dropped. -/
def receive (e : Engine) (stamp : Stamp) (m : SupportMessage) : Except MediationError Engine :=
  if m.isFor e.config.supportType then
    match m with
    | .openNewDispute m => .ok (e.receiveNewDispute stamp m)
    | .peerOpenedDispute m => .ok (e.receivePeerDispute stamp m)
    | .chat m => .ok (e.receiveChat m)
    | .disputeResult m => e.receiveResult m .delivery
    | .unsupported => .ok e
  else .ok e

/-- Handles an event; the stamp is for the message of the system that it may make. -/
def handle (e : Engine) (stamp : Stamp) : Event → Except MediationError Engine
  | .support m => e.receive stamp m
  | .deferred m => e.receiveResult m .retry
  | .payoutCompleted o => .ok (e.receiveOutcome o)

def takeOutcomes (e : Engine) : Engine × List PayoutOutcome :=
  ({ e with outcomes := [] }, e.outcomes)

def release (e : Engine) (error : Option String) : Engine :=
  { e with desk := e.desk.release, outcomes := e.outcomes ++ e.desk.released error }

end Engine

end Mediation
