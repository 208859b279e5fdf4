import Mediation.Identity
import Mediation.Json.Document

/-!
# Decoding JSON documents

A `Decoder` takes a document to a value or to the first fault in text order. A
`Record` decodes the fields of an object; an array that holds the fields in
their order is accepted too. `tagged` decodes an object in which one member
names the variant: the object is read whole before the content is decoded, and
what is decoded from such a buffer differs in a few faults from what is decoded
straight from the text, which is what `Source` tells.
-/

namespace Mediation

inductive DecodeError where
  | malformed
  | missingField (name : String)
  | duplicateField (name : String)
  | unknownVariant (name : String)
  | wrongType
  | outOfRange
  | wrongLength
  | notUid
  | notTimestamp
  | notIdentifier (e : ValidationError)
  deriving DecidableEq, Repr

def DecodeError.message : DecodeError → String
  | .malformed => "syntax"
  | .missingField n => "missing field `" ++ n ++ "`"
  | .duplicateField n => "duplicate field `" ++ n ++ "`"
  | .unknownVariant n => "unknown variant `" ++ n ++ "`"
  | .wrongType => "invalid type"
  | .outOfRange => "invalid value"
  | .wrongLength => "invalid length"
  | .notUid => "invalid uuid"
  | .notTimestamp => "invalid timestamp"
  | .notIdentifier e => e.message

namespace Decode

open Json (Document Key soundItems readDocument)

/-- Where a document comes from: straight from the text, or from an object read whole. -/
inductive Source where
  | text
  | buffer
  deriving DecidableEq, Repr

abbrev Decoder (α : Type) := Source → Document → Except DecodeError α

/-- The fault of a document that is none of the wanted kind. -/
def mismatch : Document → DecodeError
  | .malformed | .unreadable | .deep _ => .malformed
  | _ => .wrongType

/-! ### Scalars -/

def string : Decoder String
  | _, .string s => .ok s
  | _, d => .error (mismatch d)

def boolean : Decoder Bool
  | _, .bool b => .ok b
  | _, d => .error (mismatch d)

def integer (lo hi : Int) : Decoder Int
  | _, .int i => if lo ≤ i ∧ i ≤ hi then .ok i else .error .outOfRange
  | _, d => .error (mismatch d)

def natural (bound : Nat) : Decoder Nat := fun src d =>
  (integer 0 ((bound : Int) - 1) src d).map Int.toNat

/-- A count: a natural number of 64 bits. -/
def count : Decoder Nat := natural (2 ^ 64)

def word64 : Decoder UInt64 := fun src d => (count src d).map UInt64.ofNat

def int64 : Decoder Int64 := fun src d =>
  (integer (-(2 ^ 63)) (2 ^ 63 - 1) src d).map Int64.ofInt

def byte : Decoder UInt8 := fun src d => (natural 256 src d).map UInt8.ofNat

/-- A value that a text stands for, with the error of a text that stands for none. -/
def parsed {α : Type} (parse : String → Except DecodeError α) : Decoder α := fun src d =>
  (string src d).bind parse

/-- A value, or none for `null`. -/
def nullable {α : Type} (dec : Decoder α) : Decoder (Option α)
  | _, .null => .ok none
  | src, d => (dec src d).map some

def each {α : Type} (dec : Decoder α) (src : Source) : List Document → Except DecodeError (List α)
  | [] => .ok []
  | d :: ds =>
    match dec src d with
    | .error e => .error e
    | .ok a => (each dec src ds).map (a :: ·)

def listOf {α : Type} (dec : Decoder α) : Decoder (List α)
  | src, .array items => each dec src items
  | _, d => .error (mismatch d)

/-! ### Variants written as a name -/

/-- What a variant holds: nothing, or a text. -/
inductive Payload (α : Type) where
  | unit (a : α)
  | text (f : String → α)

/-- The value of a variant whose payload is a document; no document stands for the bare name. -/
def Payload.decode {α : Type} (src : Source) : Payload α → Option Document → Except DecodeError α
  | .unit a, none => .ok a
  | .unit a, some .null => .ok a
  | .unit a, some (.object []) => if src = .buffer then .ok a else .error .wrongType
  | .unit _, some d => .error (mismatch d)
  | .text f, some d => (string src d).map f
  | .text _, none => .error .wrongType

def findVariant {α : Type} (variants : List (String × α)) (name : String) :
    Except DecodeError α :=
  match variants.find? fun v => v.1 = name with
  | some v => .ok v.2
  | none => .error (.unknownVariant name)

/-- A variant of an object read whole: it has exactly one member. -/
def bufferedVariant {α : Type} (variants : List (String × Payload α)) :
    List (Key × Document) → Except DecodeError α
  | [(.named k, d)] => (findVariant variants k).bind fun p => p.decode .buffer (some d)
  | _ => .error .outOfRange

/-- A variant of an object in the text: its first member decides. -/
def textVariant {α : Type} (variants : List (String × Payload α)) :
    List (Key × Document) → Except DecodeError α
  | (.named k, d) :: rest =>
    match (findVariant variants k).bind fun p => p.decode .text (some d) with
    | .error e => .error e
    | .ok a => if rest.isEmpty then .ok a else .error .malformed
  | _ => .error .malformed

/-- One of some named variants: its name, or an object with the name as only member. -/
def choice {α : Type} (variants : List (String × Payload α)) : Decoder α
  | src, .string s => (findVariant variants s).bind fun p => p.decode src none
  | .text, .object members => textVariant variants members
  | .text, _ => .error .malformed
  | .buffer, .object members => bufferedVariant variants members
  | .buffer, d => .error (mismatch d)

/-- One of some variants that hold nothing. -/
def enumeration {α : Type} (variants : List (String × α)) : Decoder α :=
  choice (variants.map fun v => (v.1, .unit v.2))

/-! ### Records -/

/-- A fault and the number of the member at which it stands; a missing field
stands behind the last member. -/
structure Fault where
  place : Nat
  error : DecodeError

/-- The fields of an object: their names, their decoding from members and from
the items of an array. -/
structure Record (α : Type) where
  names : List String
  members : Source → List (Key × Document) → Except Fault α
  items : Source → List Document → Except DecodeError (α × List Document)

def findMember (name : String) : Nat → List (Key × Document) → Option (Nat × Document)
  | _, [] => none
  | place, (k, d) :: ms =>
    if k = .named name then some (place, d) else findMember name (place + 1) ms

inductive Absence (α : Type) where
  | required
  | default (a : α)
  | defaultInObject (a : α)

def field {α : Type} (name : String) (dec : Decoder α) (absence : Absence α := .required) :
    Record α where
  names := [name]
  members src ms :=
    match findMember name 0 ms with
    | some (place, d) =>
      match dec src d with
      | .ok a => .ok a
      | .error e => .error ⟨place, e⟩
    | none =>
      match absence with
      | .required => .error ⟨ms.length, .missingField name⟩
      | .default a | .defaultInObject a => .ok a
  items src ds :=
    match ds with
    | d :: rest => (dec src d).map fun a => (a, rest)
    | [] =>
      match absence with
      | .default a => .ok (a, [])
      | .required | .defaultInObject _ => .error .wrongLength

def optionalField {α : Type} (name : String) (dec : Decoder α) : Record (Option α) :=
  field name (nullable dec) (.defaultInObject none)

def Record.pure {α : Type} (a : α) : Record α :=
  ⟨[], fun _ _ => .ok a, fun _ ds => .ok (a, ds)⟩

def Record.seq {α β : Type} (f : Record (α → β)) (x : Record α) : Record β where
  names := f.names ++ x.names
  members src ms :=
    match f.members src ms, x.members src ms with
    | .ok g, .ok a => .ok (g a)
    | .ok _, .error e => .error e
    | .error e, .ok _ => .error e
    | .error e, .error e' => .error (if e'.place < e.place then e' else e)
  items src ds :=
    match f.items src ds with
    | .error e => .error e
    | .ok (g, rest) => (x.items src rest).map fun p => (g p.1, p.2)

instance : Applicative Record where
  pure := Record.pure
  seq f x := f.seq (x ())

/-- The first member that spoils the object whatever its fields hold: one
without a readable name, the second of a field, or an unknown one that is
malformed. -/
def spoiled (names : List String) : List String → Nat → List (Key × Document) → Option Fault
  | _, _, [] => none
  | seen, place, (k, d) :: ms =>
    match k with
    | .stray | .unreadable => some ⟨place, .malformed⟩
    | .named s =>
      if names.contains s then
        if seen.contains s then some ⟨place, .duplicateField s⟩
        else spoiled names (s :: seen) (place + 1) ms
      else if d.skippable then spoiled names seen (place + 1) ms
      else some ⟨place, .malformed⟩

def Record.ofMembers {α : Type} (r : Record α) (src : Source) (ms : List (Key × Document)) :
    Except DecodeError α :=
  match spoiled r.names [] 0 ms, r.members src ms with
  | none, .ok a => .ok a
  | none, .error e => .error e.error
  | some e, .ok _ => .error e.error
  | some e, .error e' => .error (if e'.place < e.place then e'.error else e.error)

/-- The value of an array's items, which holds the fields in order and nothing more. -/
def Record.ofItems {α : Type} (r : Record α) (src : Source) (ds : List Document) :
    Except DecodeError α :=
  match r.items src ds with
  | .error e => .error e
  | .ok (a, []) => .ok a
  | .ok (_, _ :: _) => .error (if src = .text then .malformed else .wrongLength)

def Record.decode {α : Type} (r : Record α) : Decoder α
  | src, .object members => r.ofMembers src members
  | src, .array items => r.ofItems src items
  | _, d => .error (mismatch d)

/-! ### Tagged variants -/

structure Tagged (α : Type) where
  tag : String
  variants : List (String × Record α)
  otherwise : Option (Record α) := none

/-- The variant that a tag names; inside an object read whole also its number. -/
def Tagged.variant {α : Type} (t : Tagged α) : Decoder (Record α)
  | _, .string s =>
    match findVariant t.variants s, t.otherwise with
    | .ok r, _ => .ok r
    | .error _, some r => .ok r
    | .error e, none => .error e
  | .buffer, .int i =>
    if i < 0 then .error .wrongType
    else match t.variants[i.toNat]?, t.otherwise with
      | some v, _ => .ok v.2
      | none, some r => .ok r
      | none, none => .error .outOfRange
  | _, d => .error (mismatch d)

/-- Reads an object whole: the variant its tag names, if there is one, and its other members. -/
def Tagged.collect {α : Type} (t : Tagged α) (src : Source) :
    Option (Record α) → List (Key × Document) →
      Except DecodeError (Option (Record α) × List (Key × Document))
  | found, [] => .ok (found, [])
  | found, (k, d) :: ms =>
    if k = .named t.tag then
      if found.isSome then .error (.duplicateField t.tag)
      else
        match t.variant src d with
        | .error e => .error e
        | .ok r => t.collect src (some r) ms
    else if k = .stray ∨ k = .unreadable ∨ d.sound = false then .error .malformed
    else (t.collect src found ms).map fun p => (p.1, (k, d) :: p.2)

def Tagged.decode {α : Type} (t : Tagged α) : Decoder α
  | src, .object members =>
    match t.collect src none members with
    | .error e => .error e
    | .ok (none, _) => .error (.missingField t.tag)
    | .ok (some r, ms) => r.ofMembers .buffer ms
  | _, .array [] => .error (.missingField t.tag)
  | src, .array (d :: ds) =>
    match t.variant src d with
    | .error e => .error e
    | .ok r => if soundItems ds then r.ofItems .buffer ds else .error .malformed
  | _, d => .error (mismatch d)

/-! ### Whole texts -/

/-- The value of a text, behind which only blanks may stand. -/
def decodeText {α : Type} (dec : Decoder α) (text : String) : Except DecodeError α :=
  match readDocument text with
  | (d, complete) =>
    match dec .text d with
    | .error e => .error e
    | .ok a => if complete then .ok a else .error .malformed

/-! ### Identifiers -/

def tradeId : Decoder TradeId :=
  parsed fun s => (TradeId.ofString? s).mapError .notIdentifier

def nodeAddress : Decoder NodeAddress :=
  parsed fun s => (NodeAddress.ofString? s).mapError .notIdentifier

def pubKeyRing : Decoder PubKeyRing :=
  parsed fun s => (PubKeyRing.ofString? s).mapError .notIdentifier

def messageUid : Decoder MessageUid :=
  parsed fun s => (MessageUid.ofString? s).elim (.error .notUid) .ok

end Decode

end Mediation
