import Mediation.Json.Format
import Mediation.Trade.Book

/-!
# Trades as JSON

For each type its written value and its decoder. Members are written in the
order of the fields; an absent option is written as `null` and may be left out
when read.
-/

namespace Mediation

def Decode.named {α : Type} (name : α → String) (all : List α) : Decode.Decoder α :=
  Decode.enumeration (all.map fun a => (name a, a))

def Decode.timestamp : Decode.Decoder Timestamp :=
  Decode.parsed fun s => (Timestamp.ofString? s).elim (.error .notTimestamp) .ok

def Decode.coin : Decode.Decoder Coin := fun src d =>
  (Decode.count src d).bind fun n => (Coin.ofNat? n).elim (.error .outOfRange) .ok

/-! ### Enumerations -/

def DisputeState.decode : Decode.Decoder DisputeState := Decode.named name all

def Verdict.decode : Decode.Decoder Verdict := Decode.named name all

def TradePhase.decode : Decode.Decoder TradePhase := Decode.named name all

def OfferState.decode : Decode.Decoder OfferState := Decode.named name all

/-! ### Written values -/

def Price.toJson (p : Price) : Json :=
  .object [("value", .int p.value.toInt), ("currency_code", .string p.currencyCode)]

def TradeTerms.toJson (t : TradeTerms) : Json :=
  .object [
    ("take_offer_date", .string t.takeOfferDate.text),
    ("is_buy_offer", .bool t.isBuyOffer),
    ("is_my_offer", .bool t.isMyOffer),
    ("amount", .nat t.amount.units),
    ("price", t.price.toJson),
    ("volume", .optional (fun v => .int v.toInt) t.volume),
    ("maker_fee", .nat t.makerFee.units),
    ("is_currency_for_maker_fee_btc", .bool t.isMakerFeeInBtc),
    ("maker_tx_fee", .nat t.makerTxFee.units),
    ("taker_fee", .nat t.takerFee.units),
    ("is_currency_for_taker_fee_btc", .bool t.isTakerFeeInBtc),
    ("trade_tx_fee", .nat t.tradeTxFee.units)]

def Json.bytes (bs : List UInt8) : Json := .list (fun b => .nat b.toNat) bs

def TradingPeer.toJson (p : TradingPeer) : Json :=
  .object [
    ("node_address", .string p.address.text),
    ("pub_key_ring", .string p.keyRing.fingerprint),
    ("mediated_payout_tx_signature", .optional Json.bytes p.payoutSignature)]

def ProcessModel.toJson (m : ProcessModel) : Json :=
  .object [
    ("buyer_payout_amount_from_mediation", .nat m.buyerPayout.units),
    ("seller_payout_amount_from_mediation", .nat m.sellerPayout.units),
    ("trade_peer", m.peer.toJson)]

def PayoutTx.toJson (t : PayoutTx) : Json := .object [("txid", .string t.txid)]

def Trade.toJson (t : Trade) : Json :=
  .object [
    ("id", .string t.id.text),
    ("terms", t.terms.toJson),
    ("phase", .string t.phase.name),
    ("dispute_state", .string t.disputeState.name),
    ("mediation_result_state", .string t.verdict.name),
    ("process_model", t.process.toJson),
    ("payout_tx", .optional PayoutTx.toJson t.payoutTx)]

def OpenOffer.toJson (o : OpenOffer) : Json :=
  .object [("id", .string o.id.text), ("state", .string o.state.name)]

def TradeBook.toJson (b : TradeBook) : Json :=
  .object [
    ("trades", .list Trade.toJson b.trades),
    ("closed_trades", .list Trade.toJson b.closedTrades),
    ("open_offers", .list OpenOffer.toJson b.openOffers)]

/-! ### Decoders -/

open Decode

def Price.record : Record Price :=
  Price.mk <$> field "value" int64 <*> field "currency_code" string

def TradeTerms.record : Record TradeTerms :=
  TradeTerms.mk
    <$> field "take_offer_date" timestamp
    <*> field "is_buy_offer" boolean
    <*> field "is_my_offer" boolean
    <*> field "amount" coin
    <*> field "price" Price.record.decode
    <*> optionalField "volume" int64
    <*> field "maker_fee" coin
    <*> field "is_currency_for_maker_fee_btc" boolean
    <*> field "maker_tx_fee" coin
    <*> field "taker_fee" coin
    <*> field "is_currency_for_taker_fee_btc" boolean
    <*> field "trade_tx_fee" coin

def TradingPeer.record : Record TradingPeer :=
  TradingPeer.mk
    <$> field "node_address" nodeAddress
    <*> field "pub_key_ring" pubKeyRing
    <*> optionalField "mediated_payout_tx_signature" (listOf byte)

def ProcessModel.record : Record ProcessModel :=
  ProcessModel.mk
    <$> field "buyer_payout_amount_from_mediation" coin
    <*> field "seller_payout_amount_from_mediation" coin
    <*> field "trade_peer" TradingPeer.record.decode

def PayoutTx.record : Record PayoutTx := PayoutTx.mk <$> field "txid" string

def Trade.record : Record Trade :=
  Trade.mk
    <$> field "id" tradeId
    <*> field "terms" TradeTerms.record.decode
    <*> field "phase" TradePhase.decode
    <*> field "dispute_state" DisputeState.decode
    <*> field "mediation_result_state" Verdict.decode
    <*> field "process_model" ProcessModel.record.decode
    <*> optionalField "payout_tx" PayoutTx.record.decode

def OpenOffer.record : Record OpenOffer :=
  OpenOffer.mk <$> field "id" tradeId <*> field "state" OfferState.decode

def TradeBook.record : Record TradeBook :=
  TradeBook.mk
    <$> field "trades" (listOf Trade.record.decode)
    <*> field "closed_trades" (listOf Trade.record.decode)
    <*> field "open_offers" (listOf OpenOffer.record.decode)

/-! ### Formats -/

instance : JsonFormat Timestamp := .ofText Timestamp.text Decode.timestamp

instance : JsonFormat Coin := ⟨fun c => .nat c.units, Decode.coin⟩

instance : JsonFormat DisputeState := .ofText DisputeState.name DisputeState.decode

instance : JsonFormat Verdict := .ofText Verdict.name Verdict.decode

instance : JsonFormat TradePhase := .ofText TradePhase.name TradePhase.decode

instance : JsonFormat OfferState := .ofText OfferState.name OfferState.decode

instance : JsonFormat Price := .ofRecord Price.toJson Price.record

instance : JsonFormat TradeTerms := .ofRecord TradeTerms.toJson TradeTerms.record

instance : JsonFormat TradingPeer := .ofRecord TradingPeer.toJson TradingPeer.record

instance : JsonFormat ProcessModel := .ofRecord ProcessModel.toJson ProcessModel.record

instance : JsonFormat PayoutTx := .ofRecord PayoutTx.toJson PayoutTx.record

instance : JsonFormat Trade := .ofRecord Trade.toJson Trade.record

instance : JsonFormat OpenOffer := .ofRecord OpenOffer.toJson OpenOffer.record

instance : JsonFormat TradeBook := .ofRecord TradeBook.toJson TradeBook.record

end Mediation
