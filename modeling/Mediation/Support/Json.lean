import Mediation.Support.Basic
import Mediation.Support.Payout
import Mediation.Trade.Json

/-!
# Disputes and support messages as JSON

For each type its written value and its decoder. A support message carries its
kind in the member `type`; any unknown kind is read as `unsupported`.
-/

namespace Mediation

open Decode

def SupportType.decode : Decoder SupportType := Decode.named name all

def AckSource.decode : Decoder AckSource := Decode.named name all

def PayoutStep.decode : Decoder PayoutStep := Decode.named name all

/-! ### Written values -/

def ChatMessage.members (m : ChatMessage) : List (String × Json) := [
  ("uid", .string m.uid.text),
  ("trade_id", .string m.tradeId.text),
  ("support_type", .string m.supportType.name),
  ("sender_is_trader", .bool m.senderIsTrader),
  ("sender_node_address", .string m.sender.text),
  ("message", .string m.text),
  ("date", .string m.date.text),
  ("system_message", .bool m.isSystem)]

def ChatMessage.toJson (m : ChatMessage) : Json := .object m.members

def DisputeParties.toJson (p : DisputeParties) : Json :=
  .object [
    ("trader_pub_key_ring", .string p.trader.fingerprint),
    ("agent_pub_key_ring", .string p.agent.fingerprint),
    ("agent_node_address", .optional (fun a => .string a.text) p.agentAddress),
    ("peer_node_address", .string p.peerAddress.text)]

def DisputeResult.toJson (r : DisputeResult) : Json :=
  .object [
    ("trade_id", .string r.tradeId.text),
    ("chat_message", .optional ChatMessage.toJson r.chatMessage),
    ("buyer_payout_amount", .nat r.buyerPayout.units),
    ("seller_payout_amount", .nat r.sellerPayout.units),
    ("summary_notes", .string r.summaryNotes),
    ("close_date", .string r.closeDate.text)]

def Dispute.toJson (d : Dispute) : Json :=
  .object [
    ("trade_id", .string d.tradeId.text),
    ("support_type", .string d.supportType.name),
    ("is_buyer", .bool d.isBuyer),
    ("parties", d.parties.toJson),
    ("opening_date", .string d.openingDate.text),
    ("chat_messages", .list ChatMessage.toJson d.chat),
    ("is_closed", .bool d.isClosed),
    ("dispute_result", .optional DisputeResult.toJson d.result)]

def DisputeMessage.members (m : DisputeMessage) : List (String × Json) := [
  ("uid", .string m.uid.text),
  ("dispute", m.dispute.toJson),
  ("sender_node_address", .string m.sender.text)]

def ResultMessage.members (m : ResultMessage) : List (String × Json) := [
  ("uid", .string m.uid.text),
  ("support_type", .string m.supportType.name),
  ("dispute_result", m.result.toJson),
  ("sender_node_address", .string m.sender.text)]

def DisputeMessage.toJson (m : DisputeMessage) : Json := .object m.members

def ResultMessage.toJson (m : ResultMessage) : Json := .object m.members

def SupportMessage.toJson : SupportMessage → Json
  | openNewDispute m => .object (("type", .string "open_new_dispute") :: m.members)
  | peerOpenedDispute m => .object (("type", .string "peer_opened_dispute") :: m.members)
  | chat m => .object (("type", .string "chat") :: m.members)
  | disputeResult m => .object (("type", .string "dispute_result") :: m.members)
  | unsupported => .object [("type", .string "unsupported")]

def AckMessage.toJson (a : AckMessage) : Json :=
  .object [
    ("source_type", .string a.source.name),
    ("source_uid", .string a.uid.text),
    ("trade_id", .string a.tradeId.text),
    ("recipient", .string a.recipient.fingerprint),
    ("success", .bool a.success),
    ("error_message", .optional Json.string a.error)]

def PayoutCall.toJson (c : PayoutCall) : Json :=
  .object [("step", .string c.step.name), ("trade_id", .string c.tradeId.text)]

def PayoutScript.toJson : PayoutScript → Json
  | succeed => .string "succeed"
  | fail message => .object [("fail", .string message)]
  | hold => .string "hold"

/-! ### Decoders -/

def ChatMessage.record : Record ChatMessage :=
  ChatMessage.mk
    <$> field "uid" messageUid
    <*> field "trade_id" Decode.tradeId
    <*> field "support_type" SupportType.decode
    <*> field "sender_is_trader" boolean
    <*> field "sender_node_address" nodeAddress
    <*> field "message" string
    <*> field "date" timestamp
    <*> field "system_message" boolean (.default false)

def DisputeParties.record : Record DisputeParties :=
  DisputeParties.mk
    <$> field "trader_pub_key_ring" pubKeyRing
    <*> field "agent_pub_key_ring" pubKeyRing
    <*> optionalField "agent_node_address" nodeAddress
    <*> field "peer_node_address" nodeAddress

def DisputeResult.record : Record DisputeResult :=
  DisputeResult.mk
    <$> field "trade_id" Decode.tradeId
    <*> optionalField "chat_message" ChatMessage.record.decode
    <*> field "buyer_payout_amount" coin
    <*> field "seller_payout_amount" coin
    <*> field "summary_notes" string (.default "")
    <*> field "close_date" timestamp

def Dispute.record : Record Dispute :=
  Dispute.mk
    <$> field "trade_id" Decode.tradeId
    <*> field "support_type" SupportType.decode
    <*> field "is_buyer" boolean
    <*> field "parties" DisputeParties.record.decode
    <*> field "opening_date" timestamp
    <*> field "chat_messages" (listOf ChatMessage.record.decode)
    <*> field "is_closed" boolean
    <*> optionalField "dispute_result" DisputeResult.record.decode

def DisputeMessage.record : Record DisputeMessage :=
  DisputeMessage.mk
    <$> field "uid" messageUid
    <*> field "dispute" Dispute.record.decode
    <*> field "sender_node_address" nodeAddress

def ResultMessage.record : Record ResultMessage :=
  ResultMessage.mk
    <$> field "uid" messageUid
    <*> field "support_type" SupportType.decode
    <*> field "dispute_result" DisputeResult.record.decode
    <*> field "sender_node_address" nodeAddress

def SupportMessage.tagged : Tagged SupportMessage where
  tag := "type"
  variants := [
    ("open_new_dispute", SupportMessage.openNewDispute <$> DisputeMessage.record),
    ("peer_opened_dispute", SupportMessage.peerOpenedDispute <$> DisputeMessage.record),
    ("chat", SupportMessage.chat <$> ChatMessage.record),
    ("dispute_result", SupportMessage.disputeResult <$> ResultMessage.record)]
  otherwise := some (pure .unsupported)

def AckMessage.record : Record AckMessage :=
  AckMessage.mk
    <$> field "source_type" AckSource.decode
    <*> field "source_uid" messageUid
    <*> field "trade_id" Decode.tradeId
    <*> field "recipient" pubKeyRing
    <*> field "success" boolean
    <*> optionalField "error_message" string

def PayoutCall.record : Record PayoutCall :=
  PayoutCall.mk <$> field "step" PayoutStep.decode <*> field "trade_id" Decode.tradeId

def PayoutScript.decode : Decoder PayoutScript :=
  choice [("succeed", .unit succeed), ("fail", .text fail), ("hold", .unit hold)]

/-! ### Formats -/

instance : JsonFormat SupportType := .ofText SupportType.name SupportType.decode

instance : JsonFormat AckSource := .ofText AckSource.name AckSource.decode

instance : JsonFormat PayoutStep := .ofText PayoutStep.name PayoutStep.decode

instance : JsonFormat ChatMessage := .ofRecord ChatMessage.toJson ChatMessage.record

instance : JsonFormat DisputeParties := .ofRecord DisputeParties.toJson DisputeParties.record

instance : JsonFormat DisputeResult := .ofRecord DisputeResult.toJson DisputeResult.record

instance : JsonFormat Dispute := .ofRecord Dispute.toJson Dispute.record

instance : JsonFormat DisputeMessage := .ofRecord DisputeMessage.toJson DisputeMessage.record

instance : JsonFormat ResultMessage := .ofRecord ResultMessage.toJson ResultMessage.record

instance : JsonFormat SupportMessage := ⟨SupportMessage.toJson, SupportMessage.tagged.decode⟩

instance : JsonFormat AckMessage := .ofRecord AckMessage.toJson AckMessage.record

instance : JsonFormat PayoutCall := .ofRecord PayoutCall.toJson PayoutCall.record

instance : JsonFormat PayoutScript := ⟨PayoutScript.toJson, PayoutScript.decode⟩

end Mediation
