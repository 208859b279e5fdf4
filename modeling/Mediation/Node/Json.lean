import Mediation.Node.Basic
import Mediation.Support.Json

/-!
# Node requests and snapshots as JSON

A change to a trade carries its kind in the member `kind`.
-/

namespace Mediation

open Decode

def TradeUpdate.toJson : TradeUpdate → Json
  | phase p => .object [("kind", .string "phase"), ("phase", .string p.name)]
  | payoutTx txid => .object [("kind", .string "payout_tx"), ("txid", .string txid)]
  | peerSignature signature =>
    .object [("kind", .string "peer_signature"), ("signature", .bytes signature)]

def TradeUpdate.tagged : Tagged TradeUpdate where
  tag := "kind"
  variants := [
    ("phase", TradeUpdate.phase <$> field "phase" TradePhase.decode),
    ("payout_tx", TradeUpdate.payoutTx <$> field "txid" string),
    ("peer_signature", TradeUpdate.peerSignature <$> field "signature" (listOf byte))]

def NodeSnapshot.toJson (s : NodeSnapshot) : Json :=
  .object [
    ("trades", s.trades.toJson),
    ("disputes", .list Dispute.toJson s.disputes),
    ("pending_retries", .nat s.pendingRetries),
    ("pending_acceptances", .nat s.pendingAcceptances)]

def NodeSnapshot.record : Record NodeSnapshot :=
  NodeSnapshot.mk
    <$> field "trades" TradeBook.record.decode
    <*> field "disputes" (listOf Dispute.record.decode)
    <*> field "pending_retries" count
    <*> field "pending_acceptances" count

/-! ### Formats -/

instance : JsonFormat TradeUpdate := ⟨TradeUpdate.toJson, TradeUpdate.tagged.decode⟩

instance : JsonFormat NodeSnapshot := .ofRecord NodeSnapshot.toJson NodeSnapshot.record

end Mediation
