import Mediation.Yaml.Node

/-!
# Values

What a document stands for: its directives are checked, its tags are written out
in full, and every alias is replaced by the number of the anchor that it means.

An anchor is numbered by how many names are known when it stands. A name that is
used again gets such a number too, which the next new name then gets as well; of
several nodes with one number the last one counts, also for the aliases in front
of it.
-/

namespace Mediation.Yaml

inductive Value where
  | alias (number : Nat)
  | scalar (s : Scalar)
  | sequence (items : List Value)
  | mapping (entries : List (Value × Value))

/-! ### Anchors -/

/-- The anchors so far: the number of each name, the nodes by their numbers, the
latest first, and how many there are. A node is given by its rank among those
with an anchor; its value is known when it has ended. -/
structure Anchors where
  numbers : List (String × Nat)
  ranks : List (Nat × Nat)
  count : Nat
  values : List (Nat × Value)

namespace Anchors

def none : Anchors := ⟨[], [], 0, []⟩

/-- A node begins; its rank, if it has an anchor. -/
def enter (a : Anchors) : Option String → Option Nat × Anchors
  | .none => (.none, a)
  | some name =>
    let number := a.numbers.length
    (some a.count,
      { a with
        numbers := (name, number) :: a.numbers.filter fun n => n.1 ≠ name
        ranks := (number, a.count) :: a.ranks
        count := a.count + 1 })

def leave (a : Anchors) (rank : Option Nat) (v : Value) : Value × Anchors :=
  match rank with
  | .none => (v, a)
  | some n => (v, { a with values := (n, v) :: a.values })

def value? (a : Anchors) (number : Nat) : Option Value :=
  (a.ranks.lookup number).bind fun rank => a.values.lookup rank

end Anchors

/-! ### Nodes -/

/-- The tag of a node in full; none when its handle has no meaning. -/
def Properties.tag? (handles : List (String × String)) (p : Properties) : Option (Option String) :=
  match p.tag with
  | .none => some .none
  | some t => (t.resolve? handles).map some

/-- The tag of a scalar: a mark alone does not count. -/
def scalarTag (tag : Option String) : Option String := tag.filter (· ≠ "!")

mutual

def Node.value? (handles : List (String × String)) : Node → Anchors → Option (Value × Anchors)
  | .alias name, a => (a.numbers.lookup name).map fun n => (.alias n, a)
  | .nothing p, a =>
    (p.tag? handles).map fun tag =>
      let (rank, a) := a.enter p.anchor
      a.leave rank (.scalar ⟨"", .plain, tag⟩)
  | .scalar p text style, a =>
    (p.tag? handles).map fun tag =>
      let (rank, a) := a.enter p.anchor
      a.leave rank (.scalar ⟨text, style, scalarTag tag⟩)
  | .sequence p items, a =>
    (p.tag? handles).bind fun _ =>
      let (rank, a) := a.enter p.anchor
      (itemValues handles items a).map fun r => r.2.leave rank (.sequence r.1)
  | .mapping p entries, a =>
    (p.tag? handles).bind fun _ =>
      let (rank, a) := a.enter p.anchor
      (entryValues handles entries a).map fun r => r.2.leave rank (.mapping r.1)

def itemValues (handles : List (String × String)) :
    List Node → Anchors → Option (List Value × Anchors)
  | [], a => some ([], a)
  | n :: ns, a =>
    match n.value? handles a with
    | none => none
    | some (v, a) => (itemValues handles ns a).map fun r => (v :: r.1, r.2)

def entryValues (handles : List (String × String)) :
    List (Node × Node) → Anchors → Option (List (Value × Value) × Anchors)
  | [], a => some ([], a)
  | (k, n) :: ns, a =>
    match k.value? handles a with
    | none => none
    | some (k, a) =>
      match n.value? handles a with
      | none => none
      | some (v, a) => (entryValues handles ns a).map fun r => ((k, v) :: r.1, r.2)

end

/-! ### Documents -/

/-- A document: its value, and the anchors that its aliases mean. -/
structure Document where
  root : Value
  anchors : Anchors

def Document.resolve (d : Document) : Value → Value
  | .alias n => (d.anchors.value? n).getD (.alias n)
  | v => v

def handlesOf (ds : List Directive) : List (String × String) :=
  ds.filterMap fun
    | .handle name meaning => some (name, meaning)
    | .version _ _ => none

def versionsOf (ds : List Directive) : List (Nat × Nat) :=
  ds.filterMap fun
    | .version major minor => some (major, minor)
    | .handle _ _ => none

/-- Whether directives may stand in front of a document: no handle is given twice,
and one version at most, which has to be 1.1 or 1.2. -/
def directivesAgree (ds : List Directive) : Bool :=
  ((handlesOf ds).map Prod.fst).Nodup && (versionsOf ds).length ≤ 1
    && (versionsOf ds).all fun v => v = (1, 1) || v = (1, 2)

/-- The document of a source; none when it is malformed. -/
def Document.ofSource? (s : Source) : Option Document :=
  if directivesAgree s.directives then
    (s.root.value? (handlesOf s.directives ++ standardHandles) .none).map fun r => ⟨r.1, r.2⟩
  else none

/-- The only document of a text: none when there is no document, an outer none
when the text is malformed or holds more than one. -/
def Document.ofText? (text : String) : Option (Option Document) :=
  let cs := text.toList
  if cs.all isReadable then
    match (Token.ofChars? (uniformBreaks cs)).bind Source.ofTokens? with
    | none => none
    | some none => some none
    | some (some s) => (Document.ofSource? s).map some
  else none

end Mediation.Yaml
