import Mediation.Replay.Basic
import Mediation.Support.Json

/-!
# Scenarios and reports as JSON

A step carries its action in the member `action`. In a scenario all but the
steps may be left out.
-/

namespace Mediation

open Decode

/-! ### Scenarios -/

def ScenarioStep.toJson (s : ScenarioStep) : Json :=
  .object (("action", .string s.action) :: content)
where
  content : List (String × Json) :=
    match s with
    | deliver message => [("message", message.toJson)]
    | advance millis => [("millis", .nat millis.toNat)]
    | openDispute dispute => [("dispute", dispute.toJson)]
    | accept id => [("trade_id", .string id.text)]
    | reject id => [("trade_id", .string id.text)]
    | releasePayout error => [("error", .optional Json.string error)]
    | cleanup => []
    | setPhase id phase => [("trade_id", .string id.text), ("phase", .string phase.name)]
    | setPayoutTx id txid => [("trade_id", .string id.text), ("txid", .string txid)]
    | setPeerSignature id signature =>
      [("trade_id", .string id.text), ("signature", .bytes signature)]

def ScenarioStep.tagged : Tagged ScenarioStep where
  tag := "action"
  variants := [
    ("deliver", ScenarioStep.deliver <$> field "message" SupportMessage.tagged.decode),
    ("advance", ScenarioStep.advance <$> field "millis" word64),
    ("open_dispute", ScenarioStep.openDispute <$> field "dispute" Dispute.record.decode),
    ("accept", ScenarioStep.accept <$> field "trade_id" tradeId),
    ("reject", ScenarioStep.reject <$> field "trade_id" tradeId),
    ("release_payout",
      ScenarioStep.releasePayout <$> field "error" (nullable string) (.default none)),
    ("cleanup", pure .cleanup),
    ("set_phase",
      ScenarioStep.setPhase <$> field "trade_id" tradeId <*> field "phase" TradePhase.decode),
    ("set_payout_tx",
      ScenarioStep.setPayoutTx <$> field "trade_id" tradeId <*> field "txid" string),
    ("set_peer_signature",
      ScenarioStep.setPeerSignature <$> field "trade_id" tradeId
        <*> field "signature" (listOf byte))]

def Scenario.toJson (s : Scenario) : Json :=
  .object [
    ("node_address", .string s.address.text),
    ("trades", .list Trade.toJson s.trades),
    ("open_offers", .list OpenOffer.toJson s.openOffers),
    ("disputes", .list Dispute.toJson s.disputes),
    ("payout", s.payout.toJson),
    ("publish_on_finalize", .bool s.publishesOnFinalize),
    ("retry_delay_millis", .optional (fun w => .nat w.toNat) s.retryDelay),
    ("steps", .list ScenarioStep.toJson s.steps)]

def Scenario.record : Record Scenario :=
  Scenario.mk
    <$> field "node_address" nodeAddress (.default .default)
    <*> field "trades" (listOf Trade.record.decode) (.default [])
    <*> field "open_offers" (listOf OpenOffer.record.decode) (.default [])
    <*> field "disputes" (listOf Dispute.record.decode) (.default [])
    <*> field "payout" PayoutScript.decode (.default .succeed)
    <*> field "publish_on_finalize" boolean (.default false)
    <*> field "retry_delay_millis" (nullable word64) (.default none)
    <*> field "steps" (listOf ScenarioStep.tagged.decode)

/-! ### Reports -/

def StepReport.toJson (r : StepReport) : Json :=
  .object [
    ("index", .nat r.index), ("action", .string r.action), ("outcome", .string r.outcome)]

def StepReport.record : Record StepReport :=
  StepReport.mk <$> field "index" count <*> field "action" string <*> field "outcome" string

def ReplayReport.toJson (r : ReplayReport) : Json :=
  .object [
    ("trades", r.trades.toJson),
    ("disputes", .list Dispute.toJson r.disputes),
    ("acks", .list AckMessage.toJson r.acks),
    ("payout_calls", .list PayoutCall.toJson r.payoutCalls),
    ("pending_retries", .nat r.pendingRetries),
    ("pending_acceptances", .nat r.pendingAcceptances),
    ("steps", .list StepReport.toJson r.steps)]

def ReplayReport.record : Record ReplayReport :=
  ReplayReport.mk
    <$> field "trades" TradeBook.record.decode
    <*> field "disputes" (listOf Dispute.record.decode)
    <*> field "acks" (listOf AckMessage.record.decode)
    <*> field "payout_calls" (listOf PayoutCall.record.decode)
    <*> field "pending_retries" count
    <*> field "pending_acceptances" count
    <*> field "steps" (listOf StepReport.record.decode)

def Scenario.ofText (text : String) : Except DecodeError Scenario :=
  decodeText Scenario.record.decode text

/-! ### Formats -/

instance : JsonFormat ScenarioStep := ⟨ScenarioStep.toJson, ScenarioStep.tagged.decode⟩

instance : JsonFormat Scenario := .ofRecord Scenario.toJson Scenario.record

instance : JsonFormat StepReport := .ofRecord StepReport.toJson StepReport.record

instance : JsonFormat ReplayReport := .ofRecord ReplayReport.toJson ReplayReport.record

end Mediation
