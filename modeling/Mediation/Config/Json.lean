import Mediation.Config.Basic
import Mediation.Json.Format

/-!
# Configurations as JSON

Every member may be left out and has its default then.
-/

namespace Mediation

open Decode

def JournalConfig.toJson (c : JournalConfig) : Json :=
  .object [
    ("enabled", .bool c.enabled),
    ("notification_cli", .optional Json.string c.notificationCommand),
    ("cli_timeout_ms", .nat c.commandTimeoutMillis.toNat)]

def JournalConfig.record : Record JournalConfig :=
  JournalConfig.mk
    <$> field "enabled" boolean (.default JournalConfig.default.enabled)
    <*> field "notification_cli" (nullable string)
      (.default JournalConfig.default.notificationCommand)
    <*> field "cli_timeout_ms" word64 (.default JournalConfig.default.commandTimeoutMillis)

def NodeConfig.toJson (c : NodeConfig) : Json :=
  .object [
    ("node_address", .string c.address.text),
    ("data_dir", .string c.dataDir),
    ("retry_delay_secs", .nat c.retryDelaySecs.toNat),
    ("journal", c.journal.toJson)]

def NodeConfig.record : Record NodeConfig :=
  NodeConfig.mk
    <$> field "node_address" nodeAddress (.default NodeConfig.default.address)
    <*> field "data_dir" string (.default NodeConfig.default.dataDir)
    <*> field "retry_delay_secs" word64 (.default NodeConfig.default.retryDelaySecs)
    <*> field "journal" JournalConfig.record.decode (.default NodeConfig.default.journal)

/-! ### Formats -/

instance : JsonFormat JournalConfig := .ofRecord JournalConfig.toJson JournalConfig.record

instance : JsonFormat NodeConfig := .ofRecord NodeConfig.toJson NodeConfig.record

end Mediation
