import Mediation.Config.Basic
import Mediation.Yaml.Value

/-!
# Configurations as YAML

Every setting may be left out and has its default then; settings of other names
are ignored. A configuration that is written is read back as it was.
-/

namespace Mediation

open Yaml (Value)

/-! ### What values stand for -/

namespace Yaml

namespace Value

def text? : Value → Option String
  | .scalar s => some s.text
  | _ => none

def typedText? (type : String) : Value → Option String
  | .scalar s =>
    if s.style = .plain || (s.style = .literal && s.tag = some (standardPrefix ++ type)) then
      some s.text
    else none
  | _ => none

def boolean? (v : Value) : Option Bool := (v.typedText? "bool").bind Yaml.boolean?

def word? (v : Value) : Option UInt64 := (v.typedText? "int").bind Yaml.word?

/-- The text of a scalar, or none for a plain scalar that stands for nothing. -/
def nullableText? : Value → Option (Option String)
  | .scalar s =>
    if s.style ≠ .plain then some (some s.text)
    else
      match s.tag with
      | none => if s.text = "" || isNull s.text then some none else some (some s.text)
      | some tag =>
        if tag ≠ standardPrefix ++ "null" then some (some s.text)
        else if isNull s.text then some none
        else none
  | _ => none

/-- Whether nothing is written in place of the value. -/
def isEmpty : Value → Bool
  | .scalar s => s.text = "" && s.style = .plain
  | _ => false

end Value

/-- The members of a mapping, whose keys are all scalars; nothing written has no
members. -/
def Document.members? (d : Document) (v : Value) : Option (List (String × Value)) :=
  match v with
  | .mapping entries =>
    entries.mapM fun e => (d.resolve e.1).text?.map fun k => (k, d.resolve e.2)
  | v => if v.isEmpty then some [] else none

end Yaml

/-- The setting of a name: its default when it is left out, none when it is
given twice or not as it should be. -/
def setting? {α : Type} (name : String) (read : Value → Option α) (default : α)
    (members : List (String × Value)) : Option α :=
  match members.filter fun m => m.1 = name with
  | [] => some default
  | [m] => read m.2
  | _ => none

def JournalConfig.ofValue? (d : Yaml.Document) (v : Value) : Option JournalConfig := do
  let members ← d.members? v
  let enabled ← setting? "enabled" Value.boolean? default.enabled members
  let command ← setting? "notification_cli" Value.nullableText? default.notificationCommand members
  let timeout ← setting? "cli_timeout_ms" Value.word? default.commandTimeoutMillis members
  return ⟨enabled, command, timeout⟩

namespace NodeConfig

def addressOfValue? (v : Value) : Option NodeAddress :=
  v.text?.bind fun s => (NodeAddress.ofString? s).toOption

def ofDocument? (d : Yaml.Document) : Option NodeConfig := do
  let members ← d.members? d.root
  let address ← setting? "node_address" addressOfValue? default.address members
  let dataDir ← setting? "data_dir" Value.text? default.dataDir members
  let delay ← setting? "retry_delay_secs" Value.word? default.retryDelaySecs members
  let journal ← setting? "journal" (JournalConfig.ofValue? d) default.journal members
  return ⟨address, dataDir, delay, journal⟩

/-- Reads a configuration; a text without a document stands for the defaults. -/
def ofYaml (text : String) : Except ConfigError NodeConfig :=
  if Text.trim text.toList = [] then .ok default
  else
    match Yaml.Document.ofText? text with
    | none => .error .malformed
    | some none => .ok default
    | some (some d) =>
      match ofDocument? d with
      | none => .error .malformed
      | some c => .ok c

/-! ### Writing -/

def textLine (indent : Nat) (name : String) (s : String) : List Char :=
  List.replicate indent ' ' ++ name.toList ++ ':' :: ' ' :: Yaml.writeText (indent + 2) s

/-- A line with a name and a word that is written as it is. -/
def wordLine (indent : Nat) (name : String) (word : List Char) : List Char :=
  List.replicate indent ' ' ++ name.toList ++ ':' :: ' ' :: word ++ ['\n']

def booleanWord (b : Bool) : List Char := if b then "true".toList else "false".toList

def nullableLine (indent : Nat) (name : String) : Option String → List Char
  | none => wordLine indent name "null".toList
  | some s => textLine indent name s

def yamlChars (c : NodeConfig) : List Char :=
  textLine 0 "node_address" c.address.text
    ++ textLine 0 "data_dir" c.dataDir
    ++ wordLine 0 "retry_delay_secs" (Decimal.digits c.retryDelaySecs.toNat)
    ++ "journal:\n".toList
    ++ wordLine 2 "enabled" (booleanWord c.journal.enabled)
    ++ nullableLine 2 "notification_cli" c.journal.notificationCommand
    ++ wordLine 2 "cli_timeout_ms" (Decimal.digits c.journal.commandTimeoutMillis.toNat)

def toYaml (c : NodeConfig) : String := String.ofList c.yamlChars

end NodeConfig

end Mediation
