import Mediation.Coin
import Mediation.Identity
import Mediation.Timestamp
import Mediation.Trade.State

/-!
# Trades and open offers

The trade aggregate and the offer it may have come from. A trade's dispute
state changes only through `Trade.advance`, which refuses every step that is
not on the track.
-/

namespace Mediation

inductive TransitionError where
  | disputeTransition (trade : TradeId) (current wanted : DisputeState)
  | offerNotClosable (offer : TradeId) (state : OfferState)
  deriving DecidableEq

def TransitionError.message : TransitionError → String
  | .disputeTransition id current wanted =>
    "invalid dispute state transition from " ++ current.name ++ " to " ++ wanted.name
      ++ " for trade " ++ id.text
  | .offerNotClosable id state =>
    "open offer " ++ id.text ++ " cannot be closed in state " ++ state.name

/-- A failure as it is shown to the outside, with the kind in front. -/
inductive Failure where
  | validation (e : ValidationError)
  | stateTransition (text : String)
  | precondition (text : String)

def Failure.message : Failure → String
  | .validation e => "validation error: " ++ e.message
  | .stateTransition s => "state transition error: " ++ s
  | .precondition s => "precondition violated: " ++ s

/-! ### Trades -/

structure Price where
  value : Int64
  currencyCode : String
  deriving DecidableEq

structure TradeTerms where
  takeOfferDate : Timestamp
  isBuyOffer : Bool
  isMyOffer : Bool
  amount : Coin
  price : Price
  volume : Option Int64
  makerFee : Coin
  isMakerFeeInBtc : Bool
  makerTxFee : Coin
  takerFee : Coin
  isTakerFeeInBtc : Bool
  tradeTxFee : Coin
  deriving DecidableEq

structure TradingPeer where
  address : NodeAddress
  keyRing : PubKeyRing
  payoutSignature : Option (List UInt8)
  deriving DecidableEq

structure ProcessModel where
  buyerPayout : Coin
  sellerPayout : Coin
  peer : TradingPeer
  deriving DecidableEq

structure PayoutTx where
  txid : String
  deriving DecidableEq

structure Trade where
  id : TradeId
  terms : TradeTerms
  phase : TradePhase
  disputeState : DisputeState
  verdict : Verdict
  process : ProcessModel
  payoutTx : Option PayoutTx
  deriving DecidableEq

namespace Trade

def create (id : TradeId) (terms : TradeTerms) (peer : TradingPeer) : Trade where
  id := id
  terms := terms
  phase := .init
  disputeState := .noDispute
  verdict := .neutral
  process := ⟨.zero, .zero, peer⟩
  payoutTx := none

/-- Moves to a dispute state: to the one it has, or one step along the track. -/
def advance (t : Trade) (target : DisputeState) : Except TransitionError Trade :=
  if t.disputeState = target then .ok t
  else if t.disputeState.canBecome target then .ok { t with disputeState := target }
  else .error (.disputeTransition t.id t.disputeState target)

def setPayouts (t : Trade) (buyer seller : Coin) : Trade :=
  { t with process := { t.process with buyerPayout := buyer, sellerPayout := seller } }

def setPeerSignature (t : Trade) (signature : List UInt8) : Trade :=
  { t with process :=
    { t.process with peer := { t.process.peer with payoutSignature := some signature } } }

def hasPeerSignature (t : Trade) : Bool := t.process.peer.payoutSignature.isSome

def isPayoutPublished (t : Trade) : Bool := t.payoutTx.isSome

/-- Applies a mediation result: records the amounts and closes the mediation,
but only of a trade whose mediation is open. -/
def applyResult (t : Trade) (buyer seller : Coin) : Trade :=
  if t.disputeState.isMediationOpen then
    { t.setPayouts buyer seller with disputeState := .mediationClosed }
  else t

/-- Enters a dispute, but only from no dispute. -/
def enterDispute (t : Trade) (state : DisputeState) : Trade :=
  if t.disputeState = .noDispute then { t with disputeState := state } else t

@[simp] theorem setPayouts_id (t : Trade) (b s : Coin) : (t.setPayouts b s).id = t.id := rfl

@[simp] theorem setPeerSignature_id (t : Trade) (s : List UInt8) :
    (t.setPeerSignature s).id = t.id := rfl

@[simp] theorem applyResult_id (t : Trade) (b s : Coin) : (t.applyResult b s).id = t.id := by
  simp only [applyResult]
  split <;> rfl

@[simp] theorem enterDispute_id (t : Trade) (s : DisputeState) : (t.enterDispute s).id = t.id := by
  simp only [enterDispute]
  split <;> rfl

end Trade

/-! ### Open offers -/

structure OpenOffer where
  id : TradeId
  state : OfferState
  deriving DecidableEq

namespace OpenOffer

def create (id : TradeId) : OpenOffer := ⟨id, .available⟩

/-- Closes an offer; a canceled one stays as it is. -/
def close (o : OpenOffer) : Except TransitionError OpenOffer :=
  match o.state with
  | .closed => .ok o
  | .canceled => .error (.offerNotClosable o.id o.state)
  | _ => .ok { o with state := .closed }

end OpenOffer

end Mediation
