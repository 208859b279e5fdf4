import Mediation.Config.Basic
import Mediation.Engine.Basic
import Mediation.Journal.Basic

/-!
# The node

An engine behind a queue of requests, which are handled one after the other in
the order of their arrival. A payout outcome joins the end of the queue when it
is raised, so it is handled after every request that was there before it.

A barrier is a request that does nothing; once it is answered, all that was in
the queue before it has been handled.

A node that has a data directory writes snapshots there after each request, and
hands the changes of phase to its journal. A snapshot that cannot be written
stays due.
-/

namespace Mediation

inductive TradeUpdate where
  | phase (phase : TradePhase)
  | payoutTx (txid : String)
  | peerSignature (signature : List UInt8)
  deriving DecidableEq

inductive Request where
  | event (e : Event)
  | accept (id : TradeId) (caller : Nat)
  | reject (id : TradeId)
  | openDispute (d : Dispute)
  | cleanup
  | update (id : TradeId) (u : TradeUpdate)
  | barrier

/-- Who waits for the outcome of the acceptance that a request asks for. -/
def Request.caller? : Request → Option Nat
  | accept _ caller => some caller
  | _ => none

/-- What a request is answered with; the outcome of an acceptance comes later as a reply. -/
inductive Answer where
  | done
  | refused (e : MediationError)
  | applied (b : Bool)
  | closed (count : Nat)
  deriving DecidableEq

inductive AcceptanceReply where
  | paid
  | failed (message : String)
  | refused (e : MediationError)
  deriving DecidableEq

/-- What a caller finds that looks for the outcome of its acceptance: the reply,
nothing yet, or that there is nobody any more who could answer. -/
inductive Reception where
  | answered (reply : AcceptanceReply)
  | empty
  | closed
  deriving DecidableEq

/-- The state of a node as it is reported. -/
structure NodeSnapshot where
  trades : TradeBook
  disputes : List Dispute
  pendingRetries : Nat
  pendingAcceptances : Nat
  deriving DecidableEq

/-! ### Handling a request -/

namespace Engine

/-- Makes a change to a live trade; whether there is such a trade. -/
def change (e : Engine) (id : TradeId) (u : TradeUpdate) : Engine × Bool :=
  if e.registry.isLive id then
    let registry := match u with
      | .phase phase => e.registry.setPhase id phase
      | .payoutTx txid => e.registry.setPayoutTx id ⟨txid⟩
      | .peerSignature signature => e.registry.update id fun t => t.setPeerSignature signature
    ({ e with registry := registry.requestStore }, true)
  else (e, false)

def serve (e : Engine) (stamp : Stamp) : Request → Engine × Answer
  | .event event =>
    match e.handle stamp event with
    | .ok e => (e, .done)
    | .error err => (e, .refused err)
  | .accept id caller =>
    match e.accept id caller with
    | .ok (e, _) => (e, .done)
    | .error err => (e, .refused err)
  | .reject id =>
    match e.reject id with
    | .ok e => (e, .done)
    | .error err => (e, .refused err)
  | .openDispute d =>
    let (e, opened) := e.openDispute stamp d
    (e, .applied opened)
  | .cleanup =>
    let (e, count) := e.cleanup
    (e, .closed count)
  | .update id u =>
    let (e, applied) := e.change id u
    (e, .applied applied)
  | .barrier => (e, .done)

/-- The state as it is reported. -/
def snapshot (e : Engine) : NodeSnapshot where
  trades := e.registry.book.snapshot
  disputes := e.disputes.toList
  pendingRetries := e.retries.size
  pendingAcceptances := e.acceptances.size

end Engine

/-! ### Storage -/

/-- What a node keeps on disk: its data directory, and its journal with the
trades that are still to be recorded there. -/
structure Storage where
  disk : Disk
  directory : Path
  journal : Option Journal
  backlog : List Trade

/-- Writes the trade book; whether it was written. -/
def Storage.saveTrades (s : Storage) (e : Engine) : Storage × Bool :=
  let (disk, saved) := Snapshots.save s.disk s.directory Snapshots.tradesFile
    (Snapshots.tradesText e.registry.book.snapshot)
  ({ s with disk := disk }, saved)

/-- Writes the disputes; whether they were written. -/
def Storage.saveDisputes (s : Storage) (e : Engine) : Storage × Bool :=
  let (disk, saved) := Snapshots.save s.disk s.directory Snapshots.disputesFile
    (Snapshots.disputesText e.disputes.toList)
  ({ s with disk := disk }, saved)

def Storage.feed (s : Storage) (changes : List PhaseChange) : Storage :=
  match s.journal with
  | none => s
  | some _ => { s with backlog := s.backlog ++ (changes.filter Journal.takes).map (·.trade) }

def Storage.recordBacklog (s : Storage) (execute : Execution) (date : Int64) : Storage :=
  match s.journal with
  | none => s
  | some j => { s with disk := j.recordAll execute date s.backlog s.disk, backlog := [] }

namespace Engine

def tradesStored (e : Engine) : Engine := { e with registry := { e.registry with requests := 0 } }

def disputesStored (e : Engine) : Engine :=
  { e with disputes := { e.disputes with requests := 0 } }

def changesPassed (e : Engine) : Engine := { e with registry := { e.registry with changes := [] } }

end Engine

/-! ### The queue -/

/-- An engine, the requests that wait, how many have been handled, the callers
whose acceptance was refused, and the storage if there is any. -/
structure Node where
  engine : Engine
  queue : List Request
  handled : Nat
  refusals : List (Nat × MediationError)
  storage : Option Storage

def refusal? : Request → Answer → Option (Nat × MediationError)
  | .accept _ caller, .refused e => some (caller, e)
  | _, _ => none

namespace Node

/-- A node with nothing to do. -/
def start (e : Engine) (storage : Option Storage) : Node := ⟨e, [], 0, [], storage⟩

def send (n : Node) (r : Request) : Node := { n with queue := n.queue ++ [r] }

def collect (n : Node) : Node :=
  let (e, outcomes) := n.engine.takeOutcomes
  { n with engine := e, queue := n.queue ++ outcomes.map fun o => .event (.payoutCompleted o) }

/-- Writes the trade book if that was requested; without storage the request is dropped. -/
def flushTrades (n : Node) : Node :=
  if n.engine.registry.requests = 0 then n
  else
    match n.storage with
    | none => { n with engine := n.engine.tradesStored }
    | some s =>
      let (s, saved) := s.saveTrades n.engine
      { n with
        engine := if saved then n.engine.tradesStored else n.engine
        storage := some s }

/-- Writes the disputes if that was requested; without storage the request is dropped. -/
def flushDisputes (n : Node) : Node :=
  if n.engine.disputes.requests = 0 then n
  else
    match n.storage with
    | none => { n with engine := n.engine.disputesStored }
    | some s =>
      let (s, saved) := s.saveDisputes n.engine
      { n with
        engine := if saved then n.engine.disputesStored else n.engine
        storage := some s }

def flush (n : Node) : Node := n.flushTrades.flushDisputes

def feed (n : Node) : Node :=
  { n with
    engine := n.engine.changesPassed
    storage := n.storage.map fun s => s.feed n.engine.registry.changes }

/-- Does what a request asks for. The stamps are those of the events by their number. -/
def serve (stamps : Nat → Stamp) (n : Node) (r : Request) : Node × Answer :=
  let (e, a) := n.engine.serve (stamps n.handled) r
  let served := { n with
    engine := e
    handled := n.handled + 1
    refusals := n.refusals ++ (refusal? r a).toList }
  (served.collect.feed.flush, a)

def handleNext (stamps : Nat → Stamp) (n : Node) : Node × Answer :=
  match n.queue with
  | [] => (n, .done)
  | r :: rest => serve stamps { n with queue := rest } r

/-- Handles a number of requests; the answer is that of the last one. -/
def handleMany (stamps : Nat → Stamp) : Nat → Node → Node × Answer
  | 0, n => (n, .done)
  | 1, n => n.handleNext stamps
  | k + 2, n => handleMany stamps (k + 1) (n.handleNext stamps).1

def request (stamps : Nat → Stamp) (n : Node) (r : Request) : Node × Answer :=
  handleMany stamps (n.queue.length + 1) (n.send r)

def sync (stamps : Nat → Stamp) (n : Node) : Node := (n.request stamps .barrier).1

def release (n : Node) (error : Option String) : Node :=
  Node.collect { n with engine := n.engine.release error }

/-- Takes the retries that are due after a time out of the timers and puts them
into the queue; how many there are. -/
def advance (n : Node) (elapsed : Nat) : Node × Nat :=
  let due := n.engine.timers.dueAfter elapsed
  let engine := { n.engine with timers := n.engine.timers.advance elapsed }
  let fired := due.map fun t => Request.event (.deferred t.task)
  ({ n with engine := engine, queue := n.queue ++ fired }, due.length)

/-- Waits until nothing is left to do at the present time: the queue is handled,
and then the retries that are due by now with all that came of it. -/
def settle (stamps : Nat → Stamp) (n : Node) : Node :=
  ((n.sync stamps).advance 0).1.sync stamps

def replyTo? (n : Node) (caller : Nat) : Option AcceptanceReply :=
  match n.refusals.find? fun r => r.1 = caller with
  | some r => some (.refused r.2)
  | none =>
    (n.engine.replies.find? fun r => r.caller = caller).map fun r =>
      match r.error with
      | none => .paid
      | some message => .failed message

/-- A caller can still be answered: its request is in the queue, or its payout is under way. -/
def awaits (n : Node) (caller : Nat) : Bool :=
  (n.queue.any fun r => r.caller? = some caller) ||
    n.engine.acceptances.values.any fun p => p.caller = caller

def receive (n : Node) (caller : Nat) : Reception :=
  match n.replyTo? caller with
  | some reply => .answered reply
  | none => if n.awaits caller then .empty else .closed

end Node

end Mediation
