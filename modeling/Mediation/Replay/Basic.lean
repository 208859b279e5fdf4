import Mediation.Node.Boot

/-!
# Replays

A scenario is the initial state of a node and the steps it is taken through; a
replay runs the steps and reports the state after them. The clock moves only
where a step says so. After each step the replay waits for two barriers: the
first has the step handled, the second the payout outcomes that it raised.

An accept step is pending until its acceptance is answered, which may be in a
later step. The replay looks for the answers after each step, and puts the ones
it finds into its log.
-/

namespace Mediation

inductive ScenarioStep where
  | deliver (message : SupportMessage)
  | advance (millis : UInt64)
  | openDispute (dispute : Dispute)
  | accept (id : TradeId)
  | reject (id : TradeId)
  | releasePayout (error : Option String)
  | cleanup
  | setPhase (id : TradeId) (phase : TradePhase)
  | setPayoutTx (id : TradeId) (txid : String)
  | setPeerSignature (id : TradeId) (signature : List UInt8)
  deriving DecidableEq

def ScenarioStep.action : ScenarioStep → String
  | deliver _ => "deliver"
  | advance _ => "advance"
  | openDispute _ => "open_dispute"
  | accept _ => "accept"
  | reject _ => "reject"
  | releasePayout _ => "release_payout"
  | cleanup => "cleanup"
  | setPhase _ _ => "set_phase"
  | setPayoutTx _ _ => "set_payout_tx"
  | setPeerSignature _ _ => "set_peer_signature"

/-- The caller of the acceptance that a step asks for: the number of the step. -/
def ScenarioStep.caller? (index : Nat) : ScenarioStep → Option Nat
  | accept _ => some index
  | _ => none

structure Scenario where
  address : NodeAddress
  trades : List Trade
  openOffers : List OpenOffer
  disputes : List Dispute
  payout : PayoutScript
  publishesOnFinalize : Bool
  retryDelay : Option UInt64
  steps : List ScenarioStep
  deriving DecidableEq

/-! ### Outcomes and reports -/

inductive StepOutcome where
  | ok
  | error (message : String)
  | applied (b : Bool)
  | pending
  | fired (count : Nat)
  | released (count : Nat)
  | closed (count : Nat)
  deriving DecidableEq

def StepOutcome.text : StepOutcome → String
  | ok => "ok"
  | error message => "error: " ++ message
  | applied true => "true"
  | applied false => "false"
  | pending => "pending"
  | fired count => toString count ++ " fired"
  | released count => toString count ++ " released"
  | closed count => toString count ++ " closed"

/-- A step as it is reported. -/
structure StepReport where
  index : Nat
  action : String
  outcome : String
  deriving DecidableEq

structure ReplayReport where
  trades : TradeBook
  disputes : List Dispute
  acks : List AckMessage
  payoutCalls : List PayoutCall
  pendingRetries : Nat
  pendingAcceptances : Nat
  steps : List StepReport
  deriving DecidableEq

def Answer.outcome : Answer → StepOutcome
  | done => .ok
  | refused e => .error e.message
  | applied b => .applied b
  | closed count => .closed count

def AcceptanceReply.outcome (reply : AcceptanceReply) : StepOutcome :=
  match reply.error? with
  | none => .ok
  | some e => .error e.message

def abandoned : String := "abandoned"

/-- What an accept step comes to; none as long as its caller waits. -/
def Reception.outcome? : Reception → Option StepOutcome
  | answered reply => some reply.outcome
  | empty => none
  | closed => some (.error abandoned)

/-! ### The log -/

/-- The reports of the steps so far, and the numbers of the accept steps that are unsettled. -/
structure ReplayLog where
  reports : List StepReport
  unsettled : List Nat

namespace ReplayLog

def empty : ReplayLog := ⟨[], []⟩

def record (log : ReplayLog) (index : Nat) (s : ScenarioStep) (outcome : StepOutcome) :
    ReplayLog where
  reports := log.reports ++ [⟨index, s.action, outcome.text⟩]
  unsettled := log.unsettled ++ (s.caller? index).toList

/-- Puts the outcome of an accept step in the place of the one that was reported. -/
def patch (n : Node) (reports : List StepReport) (index : Nat) : List StepReport :=
  match (n.receive index).outcome? with
  | none => reports
  | some outcome => reports.modify index fun r => { r with outcome := outcome.text }

/-- Settles the accept steps whose callers need not wait any longer. -/
def settle (log : ReplayLog) (n : Node) : ReplayLog where
  reports := log.unsettled.foldl (patch n) log.reports
  unsettled := log.unsettled.filter fun index => (n.receive index).outcome?.isNone

end ReplayLog

/-! ### Running -/

def Scenario.registry (s : Scenario) : Registry :=
  let book := s.openOffers.foldl Book.addOffer (s.trades.foldl Book.addTrade .empty)
  ⟨book, 0, []⟩

def Scenario.config (s : Scenario) : MediationConfig :=
  match s.retryDelay with
  | none => .default
  | some millis => .withRetryDelay millis.toNat

def Scenario.engine (s : Scenario) : Engine :=
  Engine.start s.config s.address s.registry (.ofList s.disputes) (.ofScript s.payout)
    s.publishesOnFinalize

/-- Takes a node through a step; the number of the step is the caller of its acceptance. -/
def runStep (stamps : Nat → Stamp) (index : Nat) (n : Node) : ScenarioStep → Node × StepOutcome
  | .deliver message => (n.send (.event (.support message)), .ok)
  | .advance millis =>
    let (n, count) := n.advance millis.toNat
    (n, .fired count)
  | .openDispute dispute => ask (.openDispute dispute)
  | .accept id => (n.send (.accept id index), .pending)
  | .reject id => ask (.reject id)
  | .releasePayout error => (n.release error, .released n.engine.desk.held.length)
  | .cleanup => ask .cleanup
  | .setPhase id phase => ask (.update id (.phase phase))
  | .setPayoutTx id txid => ask (.update id (.payoutTx txid))
  | .setPeerSignature id signature => ask (.update id (.peerSignature signature))
where
  ask (r : Request) : Node × StepOutcome :=
    let (n, a) := n.request stamps r
    (n, a.outcome)

/-- Takes a node through a step and waits for the barriers; then the callers look. -/
def takeStep (stamps : Nat → Stamp) (index : Nat) (n : Node) (log : ReplayLog) (s : ScenarioStep) :
    Node × ReplayLog :=
  let (n, outcome) := runStep stamps index n s
  let n := (n.sync stamps).sync stamps
  (n, (log.record index s outcome).settle n)

def runSteps (stamps : Nat → Stamp) :
    Nat → Node → ReplayLog → List ScenarioStep → Node × ReplayLog
  | _, n, log, [] => (n, log)
  | index, n, log, s :: rest =>
    let (n, log) := takeStep stamps index n log s
    runSteps stamps (index + 1) n log rest

/-- Runs a scenario; the stamps are those of the events by their number. -/
def Scenario.replay (stamps : Nat → Stamp) (s : Scenario) : ReplayReport :=
  let (n, log) := runSteps stamps 0 (.start s.engine none) .empty s.steps
  let snapshot := n.engine.snapshot
  { trades := snapshot.trades
    disputes := snapshot.disputes
    acks := n.engine.acks
    payoutCalls := n.engine.desk.calls
    pendingRetries := snapshot.pendingRetries
    pendingAcceptances := snapshot.pendingAcceptances
    steps := log.reports }

end Mediation
