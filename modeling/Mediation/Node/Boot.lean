import Mediation.Node.Basic

/-!
# Starting and stopping a node

A node starts from the snapshots of its data directory, and writes those that
are due when it stops.
-/

namespace Mediation

inductive NodeError where
  | config (e : ConfigError)
  | storage (e : StorageError)
  | mediation (e : MediationError)
  | payoutFailed (message : String)
  | stopped
  deriving DecidableEq

/-- The failure of a payout as it is shown. -/
def payoutFailure (message : String) : String := "mediated payout failed: " ++ message

def NodeError.message : NodeError → String
  | .config e => e.message
  | .storage e => e.message
  | .mediation e => e.message
  | .payoutFailed message => payoutFailure message
  | .stopped => "node is not running"

/-- The error that a reply to an acceptance stands for; none when it was paid. -/
def AcceptanceReply.error? : AcceptanceReply → Option NodeError
  | paid => none
  | failed message => some (.payoutFailed message)
  | refused e => some (.mediation e)

/-- What surrounds a node: which programs there are, and the variable that
names the notification command. -/
structure Surroundings where
  isExecutable : String → Bool
  commandVariable : Option String

def Surroundings.none : Surroundings := ⟨fun _ => false, .none⟩

namespace Node

/-- The state that a data directory holds; the directory is made if there is none. -/
def restore (config : NodeConfig) (d : Disk) :
    Disk × Except NodeError (TradeBook × List Dispute) :=
  let dir := Path.ofString config.dataDir
  match config.fault? with
  | some e => (d, .error (.config e))
  | none =>
    match d.createDirectories? dir with
    | none => (d, .error (.storage .io))
    | some d =>
      match Snapshots.loadTrades d dir, Snapshots.loadDisputes d dir with
      | .error e, _ => (d, .error (.storage e))
      | .ok _, .error e => (d, .error (.storage e))
      | .ok book, .ok disputes => (d, .ok (book, disputes))

def storageOf (config : NodeConfig) (around : Surroundings) (d : Disk) :
    Disk × Except NodeError Storage :=
  let dir := Path.ofString config.dataDir
  if config.journal.enabled then
    let j := Journal.ofSettings around.isExecutable (Path.ofString config.tradeDataDir)
      config.journal.notificationCommand around.commandVariable
    match j.prepare? d with
    | none => (d, .error (.storage .io))
    | some d => (d, .ok ⟨d, dir, some j, []⟩)
  else (d, .ok ⟨d, dir, none, []⟩)

def boot (config : NodeConfig) (around : Surroundings) (desk : PayoutDesk)
    (publishesOnFinalize : Bool) (d : Disk) : Disk × Except NodeError Node :=
  match restore config d with
  | (d, .error e) => (d, .error e)
  | (d, .ok (book, disputes)) =>
    match storageOf config around d with
    | (d, .error e) => (d, .error e)
    | (d, .ok storage) =>
      let engine := Engine.start (.withRetryDelay config.retryDelayMillis) config.address
        (.ofTradeBook book) (.ofList disputes) desk publishesOnFinalize
      (d, .ok (.start engine (some storage)))

/-- Stops a node after a last flush; what it leaves on disk. -/
def stop (n : Node) : Option Storage := n.flush.storage

end Node

end Mediation
