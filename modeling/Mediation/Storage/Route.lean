import Mediation.Storage.Disk

/-!
# Routes

A path as it is written is a `Route`: names that are followed one after the
other, each from the directory that the last one led to. Where it leads depends
on the disk: `a/../b` is nowhere while there is no directory `a`.
-/

namespace Mediation

/-- Names to follow, from the root or from a place; a slash at the end asks for a directory. -/
structure Route where
  fromRoot : Bool
  names : List String
  endsInSlash : Bool
  deriving DecidableEq

namespace Route

def maxNameBytes : Nat := 255

def maxBytes : Nat := 4095

/-- The route of a text; no text that is empty, too long or holds a NUL is one. -/
def ofString? (s : String) : Option Route :=
  let cs := s.toList
  if s.utf8ByteSize = 0 ∨ maxBytes < s.utf8ByteSize ∨ '\x00' ∈ cs then none
  else some ⟨cs.head? = some '/', namesOf s, cs.getLast? = some '/'⟩

def text (r : Route) : String :=
  (if r.fromRoot then "/" else "") ++ "/".intercalate r.names

def outer (r : Route) : List Route :=
  let names := r.names.filter (· ≠ ".")
  (List.range (names.length - 1)).reverse.map fun n => ⟨r.fromRoot, names.take (n + 1), false⟩

end Route

namespace Disk

/-- Goes on from a place by a name; the place must be a directory. -/
def enter (d : Disk) (p : Path) (name : String) : Except Obstacle Path :=
  match d.find? p with
  | none => .error .missing
  | some (.file _) => .error .barred
  | some .directory =>
    if Route.maxNameBytes < name.utf8ByteSize then .error .barred else .ok (p.enter name)

def follow (d : Disk) (home : Path) (r : Route) : Except Obstacle Path :=
  r.names.foldlM d.enter (if r.fromRoot then [] else home)

def locate (d : Disk) (home : Path) (s : String) : Except Obstacle Path :=
  match Route.ofString? s with
  | none => .error .barred
  | some r => (d.follow home r).bind fun p => if r.endsInSlash then d.enter p "." else .ok p

def readAt (d : Disk) (home : Path) (s : String) : Except ReadError String :=
  match d.locate home s with
  | .error o => .error (.nowhere o)
  | .ok p => d.read p

def writeAt? (d : Disk) (home : Path) (s text : String) : Option Disk :=
  match d.locate home s with
  | .error _ => none
  | .ok p => d.write? p text

/-- Makes the directory that a written route leads to, if there is none. -/
def makeDirectory (d : Disk) (home : Path) (s : String) : Except Obstacle Disk :=
  match Route.ofString? s with
  | none => .error .barred
  | some r => (d.follow home r).bind fun p =>
    match d.find? p with
    | none => .ok ⟨d.entries.insert p .directory⟩
    | some .directory => .ok d
    | some (.file _) => .error .barred

end Disk

end Mediation
