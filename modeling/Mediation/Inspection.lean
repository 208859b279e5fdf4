import Mediation.Support.Basic
import Mediation.Trade.Book
import Mediation.Json.Basic

/-!
# Summaries of stored state

One line per dispute and per trade, as text or as JSON.
-/

namespace Mediation

structure DisputeSummary where
  tradeId : String
  supportType : String
  isClosed : Bool
  hasResult : Bool
  chatMessages : Nat
  deriving DecidableEq

structure TradeSummary where
  tradeId : String
  phase : String
  disputeState : String
  verdict : String
  isClosed : Bool
  deriving DecidableEq

structure Inspection where
  disputes : List DisputeSummary
  trades : List TradeSummary
  openOffers : Nat
  deriving DecidableEq

def Dispute.summary (d : Dispute) : DisputeSummary where
  tradeId := d.tradeId.text
  supportType := d.supportType.title
  isClosed := d.isClosed
  hasResult := d.result.isSome
  chatMessages := d.chat.length

def Trade.summary (isClosed : Bool) (t : Trade) : TradeSummary where
  tradeId := t.id.text
  phase := t.phase.name
  disputeState := t.disputeState.name
  verdict := t.verdict.name
  isClosed := isClosed

/-- Disputes and a book in short; the live trades stand before the closed ones. -/
def Inspection.of (disputes : List Dispute) (book : TradeBook) : Inspection where
  disputes := disputes.map Dispute.summary
  trades := book.trades.map (Trade.summary false) ++ book.closedTrades.map (Trade.summary true)
  openOffers := book.openOffers.length

/-! ### As text -/

def truthText (b : Bool) : String := if b then "true" else "false"

def DisputeSummary.line (d : DisputeSummary) : String :=
  "  " ++ d.tradeId ++ "  " ++ d.supportType ++ "  closed=" ++ truthText d.isClosed ++ " result="
    ++ truthText d.hasResult ++ " chat=" ++ toString d.chatMessages

def TradeSummary.line (t : TradeSummary) : String :=
  "  " ++ t.tradeId ++ "  " ++ t.phase ++ "  " ++ t.disputeState ++ "  " ++ t.verdict
    ++ (if t.isClosed then "  (closed)" else "")

def Inspection.lines (i : Inspection) : List String :=
  ("disputes: " ++ toString i.disputes.length) :: i.disputes.map DisputeSummary.line
    ++ ("trades: " ++ toString i.trades.length) :: i.trades.map TradeSummary.line
    ++ ["open offers: " ++ toString i.openOffers]

/-! ### As JSON -/

def DisputeSummary.toJson (d : DisputeSummary) : Json :=
  .object [
    ("trade_id", .string d.tradeId),
    ("support_type", .string d.supportType),
    ("closed", .bool d.isClosed),
    ("has_result", .bool d.hasResult),
    ("chat_messages", .nat d.chatMessages)]

def TradeSummary.toJson (t : TradeSummary) : Json :=
  .object [
    ("trade_id", .string t.tradeId),
    ("phase", .string t.phase),
    ("dispute_state", .string t.disputeState),
    ("mediation_result_state", .string t.verdict),
    ("closed", .bool t.isClosed)]

def Inspection.toJson (i : Inspection) : Json :=
  .object [
    ("disputes", .list DisputeSummary.toJson i.disputes),
    ("trades", .list TradeSummary.toJson i.trades),
    ("open_offers", .nat i.openOffers)]

end Mediation
