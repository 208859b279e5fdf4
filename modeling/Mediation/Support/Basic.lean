import Mediation.Trade.Basic

/-!
# Disputes and support messages

A dispute with its chat, the messages that traders and mediators exchange about
it, and the acknowledgements sent for them.
-/

namespace Mediation

inductive SupportType where
  | mediation
  | arbitration
  | refund
  | trade
  deriving DecidableEq, Repr

namespace SupportType

def name : SupportType → String
  | mediation => "MEDIATION"
  | arbitration => "ARBITRATION"
  | refund => "REFUND"
  | trade => "TRADE"

def all : List SupportType := [mediation, arbitration, refund, trade]

def title : SupportType → String
  | mediation => "Mediation"
  | arbitration => "Arbitration"
  | refund => "Refund"
  | trade => "Trade"

end SupportType

structure ChatMessage where
  uid : MessageUid
  tradeId : TradeId
  supportType : SupportType
  senderIsTrader : Bool
  sender : NodeAddress
  text : String
  date : Timestamp
  isSystem : Bool
  deriving DecidableEq

structure Stamp where
  uid : MessageUid
  date : Timestamp

def ChatMessage.system (stamp : Stamp) (tradeId : TradeId) (supportType : SupportType)
    (sender : NodeAddress) (text : String) : ChatMessage where
  uid := stamp.uid
  tradeId := tradeId
  supportType := supportType
  senderIsTrader := false
  sender := sender
  text := text
  date := stamp.date
  isSystem := true

/-! ### Disputes -/

structure DisputeParties where
  trader : PubKeyRing
  agent : PubKeyRing
  agentAddress : Option NodeAddress
  peerAddress : NodeAddress
  deriving DecidableEq

structure DisputeResult where
  tradeId : TradeId
  chatMessage : Option ChatMessage
  buyerPayout : Coin
  sellerPayout : Coin
  summaryNotes : String
  closeDate : Timestamp
  deriving DecidableEq

structure Dispute where
  tradeId : TradeId
  supportType : SupportType
  isBuyer : Bool
  parties : DisputeParties
  openingDate : Timestamp
  chat : List ChatMessage
  isClosed : Bool
  result : Option DisputeResult
  deriving DecidableEq

namespace Dispute

def hasMessage (d : Dispute) (m : ChatMessage) : Bool := d.chat.contains m

/-- Appends a message to the chat unless it is there. -/
def addMessage (d : Dispute) (m : ChatMessage) : Dispute :=
  if d.hasMessage m then d else { d with chat := d.chat ++ [m] }

def close (d : Dispute) : Dispute := { d with isClosed := true }

/-- Attaches a result, in place of an earlier one. -/
def attach (d : Dispute) (r : DisputeResult) : Dispute := { d with result := some r }

@[simp] theorem addMessage_tradeId (d : Dispute) (m : ChatMessage) :
    (d.addMessage m).tradeId = d.tradeId := by
  simp only [addMessage]
  split <;> rfl

theorem addMessage_of_hasMessage {d : Dispute} {m : ChatMessage} (h : d.hasMessage m = true) :
    d.addMessage m = d := if_pos h

theorem hasMessage_addMessage (d : Dispute) (m : ChatMessage) :
    (d.addMessage m).hasMessage m = true := by
  unfold addMessage
  split
  · assumption
  · simp [hasMessage]

theorem chat_prefix_addMessage (d : Dispute) (m : ChatMessage) :
    d.chat <+: (d.addMessage m).chat := by
  simp only [addMessage]
  split
  · exact List.prefix_rfl
  · exact List.prefix_append _ _

end Dispute

/-! ### Support messages -/

/-- A message that carries a dispute: a new one, or one the peer has opened. -/
structure DisputeMessage where
  uid : MessageUid
  dispute : Dispute
  sender : NodeAddress
  deriving DecidableEq

structure ResultMessage where
  uid : MessageUid
  supportType : SupportType
  result : DisputeResult
  sender : NodeAddress
  deriving DecidableEq

def ResultMessage.tradeId (m : ResultMessage) : TradeId := m.result.tradeId

/-- A message about a dispute; one of an unknown kind is kept as `unsupported`. -/
inductive SupportMessage where
  | openNewDispute (m : DisputeMessage)
  | peerOpenedDispute (m : DisputeMessage)
  | chat (m : ChatMessage)
  | disputeResult (m : ResultMessage)
  | unsupported
  deriving DecidableEq

namespace SupportMessage

def kind : SupportMessage → String
  | openNewDispute _ => "OpenNewDisputeMessage"
  | peerOpenedDispute _ => "PeerOpenedDisputeMessage"
  | chat _ => "ChatMessage"
  | disputeResult _ => "DisputeResultMessage"
  | unsupported => "UnsupportedMessage"

def uid? : SupportMessage → Option MessageUid
  | openNewDispute m | peerOpenedDispute m => some m.uid
  | chat m => some m.uid
  | disputeResult m => some m.uid
  | unsupported => none

def tradeId? : SupportMessage → Option TradeId
  | openNewDispute m | peerOpenedDispute m => some m.dispute.tradeId
  | chat m => some m.tradeId
  | disputeResult m => some m.tradeId
  | unsupported => none

def supportType? : SupportMessage → Option SupportType
  | openNewDispute m | peerOpenedDispute m => some m.dispute.supportType
  | chat m => some m.supportType
  | disputeResult m => some m.supportType
  | unsupported => none

/-- Whether an engine for one kind of support takes a message: it is about that
kind, or says no kind. -/
def isFor (m : SupportMessage) (t : SupportType) : Bool :=
  match m.supportType? with
  | none => true
  | some s => s = t

end SupportMessage

/-! ### Acknowledgements -/

inductive AckSource where
  | mediationMessage
  | arbitrationMessage
  | refundMessage
  | tradeChatMessage
  deriving DecidableEq, Repr

namespace AckSource

def name : AckSource → String
  | mediationMessage => "MEDIATION_MESSAGE"
  | arbitrationMessage => "ARBITRATION_MESSAGE"
  | refundMessage => "REFUND_MESSAGE"
  | tradeChatMessage => "TRADE_CHAT_MESSAGE"

def all : List AckSource :=
  [mediationMessage, arbitrationMessage, refundMessage, tradeChatMessage]

end AckSource

structure AckMessage where
  source : AckSource
  uid : MessageUid
  tradeId : TradeId
  recipient : PubKeyRing
  success : Bool
  error : Option String
  deriving DecidableEq

end Mediation
