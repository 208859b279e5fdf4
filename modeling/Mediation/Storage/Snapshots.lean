import Mediation.Storage.Disk
import Mediation.Support.Json

/-!
# Snapshots on disk

The trade book and the disputes as two JSON files of a directory. A snapshot is
written to a file beside the old one, which it then replaces, so the old one
stays as it was until the new one is whole.
-/

namespace Mediation

inductive StorageError where
  | io
  | malformed (e : DecodeError)
  deriving DecidableEq

def StorageError.message : StorageError → String
  | .io => "I/O error"
  | .malformed e => "JSON error: " ++ e.message

namespace Snapshots

def tradesFile : String := "trades.json"

def disputesFile : String := "disputes.json"

def draftOf (name : String) : String := name ++ ".tmp"

/-- The value of a snapshot's text; there is none when there is no file, whatever the reason. -/
def parse {α : Type} (dec : Decode.Decoder α) :
    Except ReadError String → Except StorageError (Option α)
  | .ok text => ((Decode.decodeText dec text).mapError .malformed).map some
  | .error (.nowhere _) => .ok none
  | .error .unreadable => .error .io

/-- The trade book of a file's text; it is empty when there is no file. -/
def parseTrades (file : Except ReadError String) : Except StorageError TradeBook :=
  (parse TradeBook.record.decode file).map fun b => b.getD .empty

/-- The disputes of a file's text; there are none when there is no file. -/
def parseDisputes (file : Except ReadError String) : Except StorageError (List Dispute) :=
  (parse (Decode.listOf Dispute.record.decode) file).map fun ds => ds.getD []

def tradesText (b : TradeBook) : String := b.toJson.renderIndented

def disputesText (ds : List Dispute) : String := (Json.list Dispute.toJson ds).renderIndented

def loadTrades (d : Disk) (dir : Path) : Except StorageError TradeBook :=
  parseTrades (d.read (dir ++ [tradesFile]))

def loadDisputes (d : Disk) (dir : Path) : Except StorageError (List Dispute) :=
  parseDisputes (d.read (dir ++ [disputesFile]))

/-- Replaces a file by way of a draft; whether it was replaced. -/
def save (d : Disk) (dir : Path) (name text : String) : Disk × Bool :=
  match d.write? (dir ++ [draftOf name]) text with
  | none => (d, false)
  | some d =>
    match d.rename? (dir ++ [draftOf name]) (dir ++ [name]) with
    | none => (d, false)
    | some d => (d, true)

end Snapshots

end Mediation
