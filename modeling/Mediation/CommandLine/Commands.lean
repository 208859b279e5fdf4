import Mediation.CommandLine.Arguments
import Mediation.Config.Yaml
import Mediation.Inspection
import Mediation.Node.Boot
import Mediation.Replay.Json
import Mediation.Storage.Route

/-!
# Commands

What a command does is a `Job`: the files it reads and writes one after the
other, each continued by what came of it. A job runs on a `Disk`, or on the
files of the system.
-/

namespace Mediation

/-- What a command comes to: its output, or a message about what went wrong. -/
inductive CommandResult where
  | done (output : String)
  | failed (message : String)
  | misused (message : String)
  deriving DecidableEq

def CommandResult.exitCode : CommandResult → UInt8
  | .done _ => 0
  | .failed _ => 1
  | .misused _ => 2

def CommandResult.output : CommandResult → String
  | .done output => output
  | .failed _ | .misused _ => ""

inductive Job where
  | finish (r : CommandResult)
  | readFile (path : String) (next : Except ReadError String → Job)
  | writeFile (path text : String) (next : Bool → Job)
  | makeDirectory (path : String) (next : Except Obstacle Unit → Job)

def Job.runOn (home : Path) : Job → Disk → CommandResult × Disk
  | finish r, d => (r, d)
  | readFile path next, d => (next (d.readAt home path)).runOn home d
  | writeFile path text next, d =>
    match d.writeAt? home path text with
    | none => (next false).runOn home d
    | some d => (next true).runOn home d
  | makeDirectory path next, d =>
    match d.makeDirectory home path with
    | .error o => (next (.error o)).runOn home d
    | .ok d => (next (.ok ())).runOn home d

/-- Makes a directory. While the one around it is missing, that one is made
first; the directories around it are given from the innermost on. -/
def Job.makeWithin : String → List String → (Bool → Job) → Job
  | path, [], next => makeDirectory path fun made => next made.isOk
  | path, around :: farther, next =>
    makeDirectory path fun
      | .ok () => next true
      | .error .barred => next false
      | .error .missing =>
        makeWithin around farther fun
          | false => next false
          | true => makeDirectory path fun made => next made.isOk

/-- Makes a directory and those around it; the empty path needs none. -/
def Job.createDirectories (path : String) (next : Bool → Job) : Job :=
  if path = "" then next true
  else makeWithin path (((Route.ofString? path).elim [] Route.outer).map Route.text) next

def Job.fail (message : String) : Job := finish (.failed message)

/-! ### Configurations -/

def NodeConfig.effective (lookup : String → Option String) (c : NodeConfig) :
    Except ConfigError NodeConfig :=
  match c.withVariables lookup with
  | .error e => .error e
  | .ok c =>
    match c.fault? with
    | some e => .error e
    | none => .ok c

def Job.withConfig (next : NodeConfig → Job) : Except ConfigError NodeConfig → Job
  | .error e => fail e.message
  | .ok c => next c

def Job.loadConfig (lookup : String → Option String) (path : Option String)
    (next : NodeConfig → Job) : Job :=
  match path with
  | none => withConfig next (NodeConfig.default.effective lookup)
  | some path =>
    readFile path fun
      | .error _ => fail (ConfigError.unreadable path).message
      | .ok text => withConfig next ((NodeConfig.ofYaml text).bind (·.effective lookup))

/-! ### The commands -/

def Job.replay (stamps : Nat → Stamp) (path : String) (output : Option String) : Job :=
  readFile path fun
    | .error _ => fail ("replay of " ++ path ++ " failed: " ++ StorageError.io.message)
    | .ok text =>
      match Scenario.ofText text with
      | .error e => fail ("replay of " ++ path ++ " failed: " ++ (StorageError.malformed e).message)
      | .ok scenario =>
        let report := (scenario.replay stamps).toJson.renderIndented
        match output with
        | none => finish (.done (report ++ "\n"))
        | some target =>
          writeFile target report fun
            | true => finish (.done ("wrote: " ++ target ++ "\n"))
            | false => fail ("cannot write " ++ target)

def snapshotPath (dir name : String) : String := NodeConfig.joinPath dir name

def Job.inspect (dir : String) (asJson : Bool) : Job :=
  createDirectories dir fun
    | false => fail ("cannot open " ++ dir)
    | true =>
      readFile (snapshotPath dir Snapshots.disputesFile) fun file =>
        match Snapshots.parseDisputes file with
        | .error e => fail e.message
        | .ok disputes =>
          readFile (snapshotPath dir Snapshots.tradesFile) fun file =>
            match Snapshots.parseTrades file with
            | .error e => fail e.message
            | .ok book =>
              let i := Inspection.of disputes book
              if asJson then finish (.done (i.toJson.renderIndented ++ "\n"))
              else finish (.done (String.join (i.lines.map (· ++ "\n"))))

def helpText : String :=
  "Usage: p2px [-v] [--log-json] [--config PATH] COMMAND\n\n"
    ++ "  replay SCENARIO [-o PATH]            run a scenario and report its end\n"
    ++ "  inspect [--data-dir DIR] [--json]    summarize stored disputes and trades\n"
    ++ "  config [--check]                     show the effective configuration\n"

def versionText : String := "p2px 0.1.0\n"

def Invocation.job (lookup : String → Option String) (stamps : Nat → Stamp) (i : Invocation) :
    Job :=
  match i.command with
  | .replay scenario output => .replay stamps scenario output
  | .inspect dataDir asJson =>
    .loadConfig lookup i.configPath fun c => .inspect (dataDir.getD c.dataDir) asJson
  | .config checkOnly =>
    .loadConfig lookup i.configPath fun c => .finish (.done (if checkOnly then "" else c.toYaml))
  | .help => .finish (.done helpText)
  | .version => .finish (.done versionText)

/-- What a command line does, given the variables of the environment and the
stamps of a replay's events. -/
def Job.ofArguments (lookup : String → Option String) (stamps : Nat → Stamp)
    (arguments : List String) : Job :=
  match Invocation.ofArguments arguments with
  | .error e => .finish (.misused e.message)
  | .ok i => i.job lookup stamps

end Mediation
