import Mediation.Identity
import Mediation.Text.Blank

/-!
# The configuration of a node

Every setting has a default. Variables of the environment override settings
after they were read, and a configuration is checked before a node runs with it.
-/

namespace Mediation

structure JournalConfig where
  enabled : Bool
  notificationCommand : Option String
  commandTimeoutMillis : UInt64
  deriving DecidableEq

/-- The journal is on, without a notification command, which would have a second. -/
def JournalConfig.default : JournalConfig := ⟨true, none, 1000⟩

structure NodeConfig where
  address : NodeAddress
  dataDir : String
  retryDelaySecs : UInt64
  journal : JournalConfig
  deriving DecidableEq

inductive ConfigError where
  | unreadable (path : String)
  | malformed
  | invalidVariable (name value : String)
  | emptyDataDir
  | zeroTimeout
  deriving DecidableEq

def ConfigError.message : ConfigError → String
  | .unreadable path => "cannot read config " ++ path
  | .malformed => "invalid config YAML"
  | .invalidVariable name value => "invalid value for " ++ name ++ ": " ++ value
  | .emptyDataDir => "invalid config: data_dir must not be empty"
  | .zeroTimeout => "invalid config: journal.cli_timeout_ms must be positive"

namespace NodeConfig

/-- The settings that hold unless others are given. -/
def default : NodeConfig := ⟨.default, "p2px-data", 2, .default⟩

def dataDirVariable : String := "P2PX_DATA_DIR"

def retryDelayVariable : String := "P2PX_RETRY_DELAY_SECS"

def commandVariable : String := "TRADE_NOTIFICATION_CLI"

def word? (s : String) : Option UInt64 :=
  (Decimal.parseBelow? (2 ^ 64) (Text.trim s.toList)).map UInt64.ofNat

def overrideDataDir (c : NodeConfig) : Option String → NodeConfig
  | none => c
  | some dir => { c with dataDir := dir }

def overrideRetryDelay (c : NodeConfig) : Option String → Except ConfigError NodeConfig
  | none => .ok c
  | some raw =>
    match word? raw with
    | none => .error (.invalidVariable retryDelayVariable raw)
    | some secs => .ok { c with retryDelaySecs := secs }

def overrideCommand (c : NodeConfig) : Option String → NodeConfig
  | none => c
  | some line => { c with journal := { c.journal with notificationCommand := some line } }

def withVariables (c : NodeConfig) (lookup : String → Option String) :
    Except ConfigError NodeConfig :=
  ((c.overrideDataDir (lookup dataDirVariable)).overrideRetryDelay (lookup retryDelayVariable)).map
    fun c => c.overrideCommand (lookup commandVariable)

def fault? (c : NodeConfig) : Option ConfigError :=
  if c.dataDir = "" then some .emptyDataDir
  else if c.journal.commandTimeoutMillis = 0 then some .zeroTimeout
  else none

def retryDelayMillis (c : NodeConfig) : Nat := c.retryDelaySecs.toNat * 1000

def joinPath (dir name : String) : String :=
  match dir.toList.getLast? with
  | none => name
  | some c => if c = '/' then dir ++ name else dir ++ "/" ++ name

def tradeDataDir (c : NodeConfig) : String := joinPath c.dataDir "trade_data"

end NodeConfig

end Mediation
