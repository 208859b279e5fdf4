import Mediation.Journal.Record
import Mediation.Storage.Snapshots

/-!
# The trade journal

A directory with the record and the phase history of each trade. Every change
of phase is recorded there; once the payout of a trade is published its files
move to the directory `backup`, and later changes are not recorded.

A notification command may be run after a record is written. It is given the
file of the record and the file it may write its output to.
-/

namespace Mediation

/-! ### Notification commands -/

/-- A command that is run for each record: its program and the arguments it begins with. -/
structure NotificationCommand where
  program : String
  arguments : List String
  deriving DecidableEq

/-- The command of a line: words, of which the first must be an executable program. -/
def NotificationCommand.ofLine? (isExecutable : String → Bool) (line : String) :
    Option NotificationCommand :=
  match (Text.words line.toList).map String.ofList with
  | [] => none
  | program :: arguments => if isExecutable program then some ⟨program, arguments⟩ else none

abbrev Execution := String → List String → Disk → Disk

/-! ### Files -/

inductive JournalFile where
  | record
  | phases
  | commandOutput
  deriving DecidableEq, Repr

namespace JournalFile

def all : List JournalFile := [record, phases, commandOutput]

def ending : JournalFile → String
  | record => ".trade.json"
  | phases => ".phases.json"
  | commandOutput => ".cli-output.json"

def name (f : JournalFile) (id : TradeId) : String := id.text ++ f.ending

end JournalFile

/-- A journal: its directory, and the notification command if there is one. -/
structure Journal where
  directory : Path
  command : Option NotificationCommand
  deriving DecidableEq

namespace Journal

def backupName : String := "backup"

def path (j : Journal) (f : JournalFile) (id : TradeId) : Path := j.directory ++ [f.name id]

/-- Where a trade's file lies once the trade is finished. -/
def backupPath (j : Journal) (f : JournalFile) (id : TradeId) : Path :=
  j.directory ++ [backupName, f.name id]

def pathText (p : Path) : String := "/".intercalate p

/-- The journal of a directory. The command is that of the setting, and without
a setting that of the variable. -/
def ofSettings (isExecutable : String → Bool) (directory : Path)
    (setting variableValue : Option String) : Journal where
  directory := directory
  command := (setting.or variableValue).bind (NotificationCommand.ofLine? isExecutable)

/-- Makes the directories of a journal; none when this fails. -/
def prepare? (j : Journal) (d : Disk) : Option Disk :=
  d.createDirectories? (j.directory ++ [backupName])

def runCommand (j : Journal) (execute : Execution) (id : TradeId) (d : Disk) : Disk :=
  match j.command with
  | none => d
  | some c =>
    execute c.program
      (c.arguments ++ [pathText (j.path .record id), pathText (j.path .commandOutput id)]) d

/-- Writes the record of a trade and runs the notification command; when the
record cannot be written, nothing happens. -/
def writeRecord (j : Journal) (execute : Execution) (t : Trade) (d : Disk) : Disk :=
  match d.write? (j.path .record t.id) t.toRecord.toJson.renderIndented with
  | none => d
  | some d => j.runCommand execute t.id d

def history (j : Journal) (id : TradeId) (d : Disk) : Except StorageError PhaseHistory :=
  match d.read (j.path .phases id) with
  | .ok text => (Decode.decodeText PhaseHistory.record.decode text).mapError .malformed
  | .error (.nowhere .missing) => .ok .empty
  | .error _ => .error .io

def moveFiles (j : Journal) (id : TradeId) : List JournalFile → Disk → Disk × Option StorageError
  | [], d => (d, none)
  | f :: fs, d =>
    if d.exists? (j.path f id) then
      match d.rename? (j.path f id) (j.backupPath f id) with
      | none => (d, some .io)
      | some d => j.moveFiles id fs d
    else j.moveFiles id fs d

/-- Records the phase of a trade as of a date; the fault that ended it, if any. -/
def record (j : Journal) (execute : Execution) (date : Int64) (t : Trade) (d : Disk) :
    Disk × Option StorageError :=
  let d := j.writeRecord execute t d
  match j.history t.id d with
  | .error e => (d, some e)
  | .ok h =>
    match d.write? (j.path .phases t.id) (h.add ⟨date, t.phase⟩).toJson.renderIndented with
    | none => (d, some .io)
    | some d => if t.phase = .payoutPublished then j.moveFiles t.id JournalFile.all d else (d, none)

/-- Whether a change of phase is recorded: the payout was not out before. -/
def takes (c : PhaseChange) : Bool := !c.previous.isPaidOut

def recordAll (j : Journal) (execute : Execution) (date : Int64) (ts : List Trade) (d : Disk) :
    Disk :=
  ts.foldl (fun d t => (j.record execute date t d).1) d

end Journal

end Mediation
