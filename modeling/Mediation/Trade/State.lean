/-!
# States of a trade

The dispute track of a trade, the local verdict on a mediation result, the
trade phases and the states of an open offer, each with its name. Dispute
states only move forward along `DisputeState.next`.
-/

namespace Mediation

/-! ### The dispute track -/

inductive DisputeState where
  | noDispute
  | mediationRequested
  | mediationStartedByPeer
  | mediationClosed
  | refundRequested
  | refundRequestStartedByPeer
  | refundRequestClosed
  deriving DecidableEq, Repr

namespace DisputeState

def name : DisputeState → String
  | noDispute => "NO_DISPUTE"
  | mediationRequested => "MEDIATION_REQUESTED"
  | mediationStartedByPeer => "MEDIATION_STARTED_BY_PEER"
  | mediationClosed => "MEDIATION_CLOSED"
  | refundRequested => "REFUND_REQUESTED"
  | refundRequestStartedByPeer => "REFUND_REQUEST_STARTED_BY_PEER"
  | refundRequestClosed => "REFUND_REQUEST_CLOSED"

def all : List DisputeState :=
  [noDispute, mediationRequested, mediationStartedByPeer, mediationClosed, refundRequested,
    refundRequestStartedByPeer, refundRequestClosed]

def isMediationOpen : DisputeState → Bool
  | mediationRequested | mediationStartedByPeer => true
  | _ => false

def isDisputed (s : DisputeState) : Bool := s ≠ noDispute

def next : DisputeState → List DisputeState
  | noDispute =>
    [mediationRequested, mediationStartedByPeer, refundRequested, refundRequestStartedByPeer]
  | mediationRequested | mediationStartedByPeer => [mediationClosed]
  | mediationClosed => [refundRequested, refundRequestStartedByPeer]
  | refundRequested | refundRequestStartedByPeer => [refundRequestClosed]
  | refundRequestClosed => []

def canBecome (s t : DisputeState) : Bool := s.next.contains t

def isTerminal (s : DisputeState) : Bool := s = refundRequestClosed

def rank : DisputeState → Nat
  | noDispute => 0
  | mediationRequested | mediationStartedByPeer => 1
  | mediationClosed => 2
  | refundRequested | refundRequestStartedByPeer => 3
  | refundRequestClosed => 4

theorem rank_lt_of_canBecome {s t : DisputeState} (h : s.canBecome t = true) : s.rank < t.rank := by
  cases s <;> cases t <;> simp_all [canBecome, next, rank]

end DisputeState

inductive Verdict where
  | neutral
  | accepted
  | rejected
  deriving DecidableEq, Repr

namespace Verdict

def name : Verdict → String
  | neutral => "NEUTRAL"
  | accepted => "MEDIATION_RESULT_ACCEPTED"
  | rejected => "MEDIATION_RESULT_REJECTED"

def all : List Verdict := [neutral, accepted, rejected]

end Verdict

/-! ### The trade phases -/

inductive TradePhase where
  | init
  | takerFeePublished
  | depositPublished
  | depositConfirmed
  | fiatSent
  | fiatReceived
  | payoutPublished
  | withdrawn
  deriving DecidableEq, Repr

namespace TradePhase

def name : TradePhase → String
  | init => "INIT"
  | takerFeePublished => "TAKER_FEE_PUBLISHED"
  | depositPublished => "DEPOSIT_PUBLISHED"
  | depositConfirmed => "DEPOSIT_CONFIRMED"
  | fiatSent => "FIAT_SENT"
  | fiatReceived => "FIAT_RECEIVED"
  | payoutPublished => "PAYOUT_PUBLISHED"
  | withdrawn => "WITHDRAWN"

def all : List TradePhase :=
  [init, takerFeePublished, depositPublished, depositConfirmed, fiatSent, fiatReceived,
    payoutPublished, withdrawn]

def rank : TradePhase → Nat
  | init => 0
  | takerFeePublished => 1
  | depositPublished => 2
  | depositConfirmed => 3
  | fiatSent => 4
  | fiatReceived => 5
  | payoutPublished => 6
  | withdrawn => 7

def compare (a b : TradePhase) : Ordering := Ord.compare a.rank b.rank

/-- Whether the payout is out: the phase is `payoutPublished` or later. -/
def isPaidOut (p : TradePhase) : Bool := payoutPublished.rank ≤ p.rank

end TradePhase

/-! ### Open offers -/

inductive OfferState where
  | available
  | reserved
  | closed
  | canceled
  | deactivated
  deriving DecidableEq, Repr

namespace OfferState

def name : OfferState → String
  | available => "AVAILABLE"
  | reserved => "RESERVED"
  | closed => "CLOSED"
  | canceled => "CANCELED"
  | deactivated => "DEACTIVATED"

def all : List OfferState := [available, reserved, closed, canceled, deactivated]

/-- Whether an offer stays in the state. -/
def isTerminal : OfferState → Bool
  | closed | canceled => true
  | _ => false

end OfferState

end Mediation
