import Mediation.CommandLine.Commands
import Std.Time.DateTime.Timestamp

/-!
The program: runs the job of its command line on the files of the system.
-/

open Mediation

namespace Mediation.Program

def readFile (path : String) : IO (Except ReadError String) := do
  try
    return .ok (← IO.FS.readFile path)
  catch
    | .noFileOrDirectory .. => return .error (.nowhere .missing)
    | .inappropriateType (some _) .. | .invalidArgument (some _) .. =>
      return .error (.nowhere .barred)
    | _ => return .error .unreadable

def succeeds (action : IO Unit) : IO Bool := do
  try
    action
    return true
  catch _ => return false

/-- Makes a directory of the system, if there is none. -/
def makeDirectory (path : String) : IO (Except Obstacle Unit) := do
  try
    IO.FS.createDir path
    return .ok ()
  catch
    | .noFileOrDirectory .. => return .error .missing
    | _ =>
      if ← succeeds (IO.FS.createDirAll path) then return .ok ()
      else return .error .barred

def run : Job → IO CommandResult
  | .finish r => return r
  | .readFile path next => do run (next (← readFile path))
  | .writeFile path text next => do run (next (← succeeds (IO.FS.writeFile path text)))
  | .makeDirectory path next => do run (next (← makeDirectory path))

def randomUid (bits : Nat) : MessageUid :=
  let high := bits / 2 ^ 80 % 2 ^ 48
  let middle := bits / 2 ^ 64 % 2 ^ 12
  let low := bits % 2 ^ 62
  let n := high * 2 ^ 80 + (4 * 2 ^ 12 + middle) * 2 ^ 64 + 2 ^ 63 + low
  ⟨n % 2 ^ 128, Nat.mod_lt _ (by decide)⟩

def drawStamps : IO (Nat → Stamp) := do
  let bytes ← IO.getRandomBytes 16
  let bits := bytes.toList.foldl (fun n b => 256 * n + b.toNat) 0
  let now ← Std.Time.Timestamp.now
  let date := Timestamp.ofMillis now.toMillisecondsSinceUnixEpoch.val
  return fun i => ⟨randomUid (bits + i), date⟩

def readVariables : IO (String → Option String) := do
  let names := [NodeConfig.dataDirVariable, NodeConfig.retryDelayVariable,
    NodeConfig.commandVariable]
  let values ← names.mapM fun name => do return (name, ← IO.getEnv name)
  return fun name => (values.find? fun v => v.1 = name).bind Prod.snd

end Mediation.Program

def main (arguments : List String) : IO UInt32 := do
  let lookup ← Program.readVariables
  let stamps ← Program.drawStamps
  let result ← Program.run (Job.ofArguments lookup stamps arguments)
  IO.print result.output
  match result with
  | .done _ => pure ()
  | .failed message | .misused message => IO.eprintln ("error: " ++ message)
  return result.exitCode.toUInt32
