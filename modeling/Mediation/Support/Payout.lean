import Mediation.Trade.Basic

/-!
# Mediated payouts

The signing exchange that makes the payout of a mediated trade, as the engine
sees it: a request with a completion, which is resolved once, to success or to
a failure. A `PayoutDesk` is a scripted exchange that succeeds, fails, holds its
completions until they are released, or loses them.
-/

namespace Mediation

inductive PayoutStep where
  | acceptAndSendSignature
  | finalizeWithPeerSignature
  deriving DecidableEq, Repr

namespace PayoutStep

def name : PayoutStep → String
  | acceptAndSendSignature => "accept_and_send_signature"
  | finalizeWithPeerSignature => "finalize_with_peer_signature"

def all : List PayoutStep := [acceptAndSendSignature, finalizeWithPeerSignature]

end PayoutStep

def ticketText (ticket : Nat) : String := "acceptance-" ++ toString ticket

/-- A promise to report the outcome of a payout: the ticket of its acceptance, and its trade. -/
structure Completion where
  ticket : Nat
  tradeId : TradeId
  deriving DecidableEq

/-- What a payout came to; a failure carries its message. -/
structure PayoutOutcome where
  ticket : Nat
  tradeId : TradeId
  error : Option String
  deriving DecidableEq

def lostCompletion : String := "payout protocol dropped its completion without a result"

namespace Completion

def succeed (c : Completion) : PayoutOutcome := ⟨c.ticket, c.tradeId, none⟩

def fail (c : Completion) (message : String) : PayoutOutcome := ⟨c.ticket, c.tradeId, some message⟩

def lose (c : Completion) : PayoutOutcome := c.fail lostCompletion

def resolve (c : Completion) : Option String → PayoutOutcome
  | none => c.succeed
  | some message => c.fail message

end Completion

structure PayoutCall where
  step : PayoutStep
  tradeId : TradeId
  deriving DecidableEq

inductive PayoutScript where
  | succeed
  | fail (message : String)
  | hold
  deriving DecidableEq

/-- A scripted exchange: what it does, the calls so far, and the completions it holds. -/
structure PayoutDesk where
  script : PayoutScript
  forgetful : Bool
  calls : List PayoutCall
  held : List Completion

namespace PayoutDesk

def ofScript (script : PayoutScript) : PayoutDesk := ⟨script, false, [], []⟩

/-- Whether a request succeeds at once. -/
def succeedsAtOnce (d : PayoutDesk) : Bool := !d.forgetful && d.script = .succeed

/-- The outcome that a request has at once. -/
def outcome? (d : PayoutDesk) (c : Completion) : Option PayoutOutcome :=
  if d.forgetful then some c.lose
  else match d.script with
    | .succeed => some c.succeed
    | .fail message => some (c.fail message)
    | .hold => none

def take (d : PayoutDesk) (step : PayoutStep) (trade : Trade) (c : Completion) : PayoutDesk :=
  if d.forgetful then d
  else
    { d with
      calls := d.calls ++ [⟨step, trade.id⟩]
      held := if d.script = .hold then d.held ++ [c] else d.held }

/-- The outcomes of the held completions: success, or a failure when there is a message. -/
def released (d : PayoutDesk) (error : Option String) : List PayoutOutcome :=
  d.held.map fun c => c.resolve error

/-- The exchange once it has released its completions. -/
def release (d : PayoutDesk) : PayoutDesk := { d with held := [] }

def count (d : PayoutDesk) (step : PayoutStep) : Nat :=
  (d.calls.filter fun c => c.step = step).length

end PayoutDesk

end Mediation
