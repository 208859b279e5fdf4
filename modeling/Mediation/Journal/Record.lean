import Mediation.Trade.Json

/-!
# Records of the trade journal

The flat record of a trade that notification commands read, and the history of
its phases, with their JSON.
-/

namespace Mediation

/-- A trade as a flat record; a trade without a volume has the volume -1. -/
structure TradeRecord where
  id : String
  phase : TradePhase
  takeOfferDate : Int64
  isBuyOffer : Bool
  isMyOffer : Bool
  amount : Coin
  priceValue : Int64
  priceCurrencyCode : String
  volume : Int64
  makerFee : Coin
  isMakerFeeInBtc : Bool
  makerTxFee : Coin
  takerFee : Coin
  isTakerFeeInBtc : Bool
  takerTxFee : Coin
  deriving DecidableEq

def Trade.toRecord (t : Trade) : TradeRecord where
  id := t.id.text
  phase := t.phase
  takeOfferDate := Int64.ofInt t.terms.takeOfferDate.millis
  isBuyOffer := t.terms.isBuyOffer
  isMyOffer := t.terms.isMyOffer
  amount := t.terms.amount
  priceValue := t.terms.price.value
  priceCurrencyCode := t.terms.price.currencyCode
  volume := t.terms.volume.getD (-1)
  makerFee := t.terms.makerFee
  isMakerFeeInBtc := t.terms.isMakerFeeInBtc
  makerTxFee := t.terms.makerTxFee
  takerFee := t.terms.takerFee
  isTakerFeeInBtc := t.terms.isTakerFeeInBtc
  takerTxFee := t.terms.tradeTxFee

structure PhaseEntry where
  date : Int64
  phase : TradePhase
  deriving DecidableEq

structure PhaseHistory where
  phases : List PhaseEntry
  deriving DecidableEq

def PhaseHistory.empty : PhaseHistory := ⟨[]⟩

def PhaseHistory.add (h : PhaseHistory) (e : PhaseEntry) : PhaseHistory := ⟨h.phases ++ [e]⟩

/-! ### As JSON -/

def TradeRecord.toJson (r : TradeRecord) : Json :=
  .object [
    ("id", .string r.id),
    ("tradePhase", .string r.phase.name),
    ("takeOfferDate", .int r.takeOfferDate.toInt),
    ("buyOffer", .bool r.isBuyOffer),
    ("myOffer", .bool r.isMyOffer),
    ("amountSatoshi", .nat r.amount.units),
    ("priceValue", .int r.priceValue.toInt),
    ("priceCurrencyCode", .string r.priceCurrencyCode),
    ("volume", .int r.volume.toInt),
    ("makerFee", .nat r.makerFee.units),
    ("currencyForMakerFeeBtc", .bool r.isMakerFeeInBtc),
    ("makerTxFee", .nat r.makerTxFee.units),
    ("takerFee", .nat r.takerFee.units),
    ("currencyForTakerFeeBtc", .bool r.isTakerFeeInBtc),
    ("takerTxFee", .nat r.takerTxFee.units)]

def PhaseEntry.toJson (e : PhaseEntry) : Json :=
  .object [("date", .int e.date.toInt), ("phase", .string e.phase.name)]

def PhaseHistory.toJson (h : PhaseHistory) : Json :=
  .object [("phases", .list PhaseEntry.toJson h.phases)]

open Decode

def TradeRecord.record : Record TradeRecord :=
  TradeRecord.mk
    <$> field "id" string
    <*> field "tradePhase" TradePhase.decode
    <*> field "takeOfferDate" int64
    <*> field "buyOffer" boolean
    <*> field "myOffer" boolean
    <*> field "amountSatoshi" coin
    <*> field "priceValue" int64
    <*> field "priceCurrencyCode" string
    <*> field "volume" int64
    <*> field "makerFee" coin
    <*> field "currencyForMakerFeeBtc" boolean
    <*> field "makerTxFee" coin
    <*> field "takerFee" coin
    <*> field "currencyForTakerFeeBtc" boolean
    <*> field "takerTxFee" coin

def PhaseEntry.record : Record PhaseEntry :=
  PhaseEntry.mk <$> field "date" int64 <*> field "phase" TradePhase.decode

def PhaseHistory.record : Record PhaseHistory :=
  PhaseHistory.mk <$> field "phases" (listOf PhaseEntry.record.decode)

/-! ### Formats -/

instance : JsonFormat TradeRecord := .ofRecord TradeRecord.toJson TradeRecord.record

instance : JsonFormat PhaseEntry := .ofRecord PhaseEntry.toJson PhaseEntry.record

instance : JsonFormat PhaseHistory := .ofRecord PhaseHistory.toJson PhaseHistory.record

end Mediation
