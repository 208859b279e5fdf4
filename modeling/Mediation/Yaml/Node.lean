import Mediation.Yaml.Token

/-!
# Nodes

The tree that the tokens of a document describe, with anchors, aliases and tags
as they are written. Where a node is left out, nothing stands in its place.
-/

namespace Mediation.Yaml

structure Properties where
  anchor : Option String
  tag : Option TagName
  deriving DecidableEq, Repr

def Properties.none : Properties := ⟨.none, .none⟩

inductive Node where
  | alias (name : String)
  | nothing (p : Properties)
  | scalar (p : Properties) (text : String) (style : Style)
  | sequence (p : Properties) (items : List Node)
  | mapping (p : Properties) (entries : List (Node × Node))

namespace Node

def missing : Node := .nothing .none

/-- The properties in front of a node, each at most once, and what follows. -/
def takeProperties : List Token → Properties × List Token
  | .anchor a :: .tag t :: ts => (⟨some a, some t⟩, ts)
  | .tag t :: .anchor a :: ts => (⟨some a, some t⟩, ts)
  | .anchor a :: ts => (⟨some a, none⟩, ts)
  | .tag t :: ts => (⟨none, some t⟩, ts)
  | ts => (.none, ts)

/-- A node of which there are properties only. -/
def ofProperties? (p : Properties) (ts : List Token) : Option (Node × List Token) :=
  if p = .none then none else some (.nothing p, ts)

def endsItem (t : Token) : Bool := t = .item || t = .blockEnd

def endsEntry (t : Token) : Bool := t = .key || t = .value || t = .blockEnd

def behindEntry (first : Bool) (ts : List Token) : Option (List Token) :=
  if first then some ts
  else
    match ts with
    | .flowEntry :: ts => some ts
    | _ => none

/-! ### Reading -/

mutual

/-- Reads a node. A block may begin here or not (`block`); the items of a sequence
may stand at the column of their key or not (`atKey`). -/
def read (block atKey : Bool) : Nat → List Token → Option (Node × List Token)
  | 0, _ => none
  | _ + 1, .alias name :: ts => some (.alias name, ts)
  | fuel + 1, ts =>
    let (p, ts) := takeProperties ts
    match ts with
    | .scalar text style :: ts => some (.scalar p text style, ts)
    | .flowSequenceStart :: ts =>
      (readFlowSequence true fuel ts).map fun r => (.sequence p r.1, r.2)
    | .flowMappingStart :: ts => (readFlowMapping true fuel ts).map fun r => (.mapping p r.1, r.2)
    | .sequenceStart :: rest =>
      if block then (readSequence fuel rest).map fun r => (.sequence p r.1, r.2)
      else ofProperties? p ts
    | .mappingStart :: rest =>
      if block then (readMapping fuel rest).map fun r => (.mapping p r.1, r.2)
      else ofProperties? p ts
    | .item :: _ =>
      if atKey then (readItems fuel ts).map fun r => (.sequence p r.1, r.2) else ofProperties? p ts
    | ts => ofProperties? p ts
termination_by structural fuel => fuel

def readSequence : Nat → List Token → Option (List Node × List Token)
  | 0, _ => none
  | fuel + 1, .item :: ts =>
    match if ts.head?.any endsItem then some (missing, ts) else read true false fuel ts with
    | none => none
    | some (n, ts) => (readSequence fuel ts).map fun r => (n :: r.1, r.2)
  | _ + 1, .blockEnd :: ts => some ([], ts)
  | _ + 1, _ => none
termination_by structural fuel => fuel

def readItems : Nat → List Token → Option (List Node × List Token)
  | 0, _ => none
  | fuel + 1, .item :: ts =>
    match if ts.head?.any fun t => t = .item || endsEntry t then some (missing, ts)
      else read true false fuel ts with
    | none => none
    | some (n, ts) => (readItems fuel ts).map fun r => (n :: r.1, r.2)
  | _ + 1, ts => some ([], ts)
termination_by structural fuel => fuel

def readMapping : Nat → List Token → Option (List (Node × Node) × List Token)
  | 0, _ => none
  | fuel + 1, .key :: ts =>
    match readBlockEntry fuel ts with
    | none => none
    | some (k, ts) =>
      match readBlockValue fuel ts with
      | none => none
      | some (v, ts) => (readMapping fuel ts).map fun r => ((k, v) :: r.1, r.2)
  | _ + 1, .blockEnd :: ts => some ([], ts)
  | _ + 1, _ => none
termination_by structural fuel => fuel

/-- Reads a key or a value in a block, which may be left out. -/
def readBlockEntry : Nat → List Token → Option (Node × List Token)
  | 0, _ => none
  | fuel + 1, ts => if ts.head?.any endsEntry then some (missing, ts) else read true true fuel ts
termination_by structural fuel => fuel

/-- Reads a value in a block with its mark, which may be left out too. -/
def readBlockValue : Nat → List Token → Option (Node × List Token)
  | 0, _ => none
  | fuel + 1, .value :: ts => readBlockEntry fuel ts
  | _ + 1, ts => some (missing, ts)
termination_by structural fuel => fuel

/-- Reads the items of a sequence up to its closing bracket. An item may be an
entry of a mapping. -/
def readFlowSequence (first : Bool) : Nat → List Token → Option (List Node × List Token)
  | 0, _ => none
  | _ + 1, .flowSequenceEnd :: ts => some ([], ts)
  | fuel + 1, ts =>
    match behindEntry first ts with
    | none => none
    | some (.flowSequenceEnd :: ts) => some ([], ts)
    | some ts =>
      match readFlowItem fuel ts with
      | none => none
      | some (n, ts) => (readFlowSequence false fuel ts).map fun r => (n :: r.1, r.2)
termination_by structural fuel => fuel

/-- Reads an item of a sequence inside brackets. Where the key of an entry is left
out, the token in its place is passed over. -/
def readFlowItem : Nat → List Token → Option (Node × List Token)
  | 0, _ => none
  | fuel + 1, .key :: ts =>
    let key := match ts with
      | .value :: ts | .flowEntry :: ts | .flowSequenceEnd :: ts => some (missing, ts)
      | ts => read false false fuel ts
    match key with
    | none => none
    | some (k, ts) =>
      (readFlowValue .flowSequenceEnd fuel ts).map fun r => (.mapping .none [(k, r.1)], r.2)
  | fuel + 1, ts => read false false fuel ts
termination_by structural fuel => fuel

/-- Reads a value with its mark inside brackets, which may be left out. -/
def readFlowValue (close : Token) : Nat → List Token → Option (Node × List Token)
  | 0, _ => none
  | fuel + 1, .value :: ts =>
    if ts.head?.any fun t => t = .flowEntry || t = close then some (missing, ts)
    else read false false fuel ts
  | _ + 1, ts => some (missing, ts)
termination_by structural fuel => fuel

def readFlowMapping (first : Bool) : Nat → List Token → Option (List (Node × Node) × List Token)
  | 0, _ => none
  | _ + 1, .flowMappingEnd :: ts => some ([], ts)
  | fuel + 1, ts =>
    match behindEntry first ts with
    | none => none
    | some (.flowMappingEnd :: ts) => some ([], ts)
    | some ts =>
      match readFlowEntry fuel ts with
      | none => none
      | some (e, ts) => (readFlowMapping false fuel ts).map fun r => (e :: r.1, r.2)
termination_by structural fuel => fuel

/-- Reads an entry of a mapping inside brackets. A key without a mark of its value
has none. -/
def readFlowEntry : Nat → List Token → Option ((Node × Node) × List Token)
  | 0, _ => none
  | fuel + 1, .key :: ts =>
    match if ts.head?.any fun t => t = .value || t = .flowEntry || t = .flowMappingEnd then
        some (missing, ts)
      else read false false fuel ts with
    | none => none
    | some (k, ts) =>
      (readFlowValue .flowMappingEnd fuel ts).map fun r => ((k, r.1), r.2)
  | fuel + 1, ts => (read false false fuel ts).map fun r => ((r.1, missing), r.2)
termination_by structural fuel => fuel

end

end Node

/-! ### Documents -/

/-- A document as it is written: its directives and its node. -/
structure Source where
  directives : List Directive
  root : Node

namespace Source

def takeDirectives : List Token → List Directive × List Token
  | .directive d :: ts => (d :: (takeDirectives ts).1, (takeDirectives ts).2)
  | ts => ([], ts)

def isBoundary : Token → Bool
  | .directive _ | .documentStart | .documentEnd => true
  | _ => false

/-- The fuel that suffices for tokens: a few calls for each. -/
def fuelFor (ts : List Token) : Nat := 4 * ts.length + 4

/-- Reads a document's node behind the mark of its beginning; it may be left out. -/
def readContent (ts : List Token) : Option (Node × List Token) :=
  match ts with
  | [] => some (.missing, [])
  | t :: r => if isBoundary t then some (.missing, t :: r) else Node.read true false (fuelFor ts) ts

/-- Reads the first document: none when there is no document, an outer none when
it is malformed. -/
def read (ts : List Token) : Option (Option (Source × List Token)) :=
  match ts with
  | [] => some none
  | t :: _ =>
    match takeDirectives ts with
    | (ds, .documentStart :: ts) => (readContent ts).map fun r => some (⟨ds, r.1⟩, r.2)
    | ([], ts) =>
      if isBoundary t then none
      else (Node.read true false (fuelFor ts) ts).map fun r => some (⟨[], r.1⟩, r.2)
    | _ => none

/-- The only document of a text: none when there is no document, an outer none
when the text is malformed or holds more than one. -/
def ofTokens? (ts : List Token) : Option (Option Source) :=
  match read ts with
  | none => none
  | some none => some none
  | some (some (s, rest)) => if rest.all (· = .documentEnd) then some (some s) else none

end Source

end Mediation.Yaml
