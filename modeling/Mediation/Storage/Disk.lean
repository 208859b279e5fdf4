import Mediation.Table

/-!
# Files and directories

A `Disk` holds files and directories by their paths. What fails on it fails
without a trace: a write needs the directory around the file, and neither a
file nor a directory takes the place of the other.
-/

namespace Mediation

/-- Where a file or directory lies: the names from the root on. -/
abbrev Path := List String

/-- The names that slashes divide; the empty ones say nothing and are left out. -/
def namesOf (s : String) : List String :=
  ((s.toList.splitOn '/').filter (· ≠ [])).map String.ofList

/-- Goes on from a path by a name: `.` stays, `..` leads back. -/
def Path.enter (p : Path) (name : String) : Path :=
  if name = "." then p else if name = ".." then p.dropLast else p ++ [name]

def Path.ofString (s : String) : Path := (namesOf s).foldl Path.enter []

def Path.way (p : Path) : List Path := (List.range (p.length + 1)).map p.take

inductive Entry where
  | file (text : String)
  | directory
  deriving DecidableEq

/-- Why nothing can be reached at a path: nothing is there, or it leads through
what is no directory or cannot be a name. -/
inductive Obstacle where
  | missing
  | barred
  deriving DecidableEq, Repr

inductive ReadError where
  | nowhere (o : Obstacle)
  | unreadable
  deriving DecidableEq, Repr

/-- Files and directories; the root is always a directory. -/
structure Disk where
  entries : Table Path Entry

namespace Disk

def empty : Disk := ⟨.empty⟩

instance : Inhabited Disk := ⟨empty⟩

def find? (d : Disk) (p : Path) : Option Entry :=
  if p = [] then some .directory else d.entries.get? p

def isDirectory (d : Disk) (p : Path) : Bool := d.find? p = some .directory

def exists? (d : Disk) (p : Path) : Bool := (d.find? p).isSome

def isBlocked (d : Disk) (p : Path) : Bool :=
  (Path.way p.dropLast).any fun q => (d.find? q).any fun e => e ≠ .directory

def read (d : Disk) (p : Path) : Except ReadError String :=
  match d.find? p with
  | some (.file text) => .ok text
  | some .directory => .error .unreadable
  | none => .error (.nowhere (if d.isBlocked p then .barred else .missing))

/-- Writes a file, in place of one that is there. -/
def write? (d : Disk) (p : Path) (text : String) : Option Disk :=
  if d.isDirectory p ∨ ¬ d.isDirectory p.dropLast then none
  else some ⟨d.entries.insert p (.file text)⟩

def createDirectories? (d : Disk) (p : Path) : Option Disk :=
  (Path.way p).foldlM (fun d q =>
    match d.find? q with
    | none => some ⟨d.entries.insert q .directory⟩
    | some .directory => some d
    | some (.file _) => none) d

def place? (d : Disk) (p : Path) (text : String) : Option Disk :=
  (d.createDirectories? p.dropLast).bind fun d => d.write? p text

def below (d : Disk) (p : Path) : List (Path × Entry) :=
  d.entries.entries.filter fun e => p.isPrefixOf e.1 && e.1 ≠ p

def removeTree (d : Disk) (p : Path) : Disk := ⟨d.entries.filterKeys fun q => !p.isPrefixOf q⟩

/-- Whether an entry may be moved to a path: a file not onto a directory, a
directory only onto an empty one. -/
def mayReplace (d : Disk) (e : Entry) (target : Path) : Bool :=
  match d.find? target, e with
  | none, _ => d.isDirectory target.dropLast
  | some .directory, .directory => (d.below target).isEmpty
  | some (.file _), .file _ => true
  | _, _ => false

def rename? (d : Disk) (source target : Path) : Option Disk :=
  match d.find? source with
  | none => none
  | some e =>
    if source = target then some d
    else if source.isPrefixOf target ∨ ¬ d.mayReplace e target then none
    else
      let moved := (source, e) :: d.below source
      some (moved.foldl (fun d q => ⟨d.entries.insert (target ++ q.1.drop source.length) q.2⟩)
        (d.removeTree source))

def listing (d : Disk) (p : Path) : List (Path × Entry) :=
  (d.below p).map fun e => (e.1.drop p.length, e.2)

/-! ### Lookup -/

theorem find?_write?_self {d d' : Disk} {p : Path} {text : String}
    (h : d.write? p text = some d') : d'.find? p = some (.file text) := by
  unfold write? at h
  split at h
  · cases h
  · rename_i hn
    cases h
    have hp : p ≠ [] := by
      rintro rfl
      simp [isDirectory, find?] at hn
    simp [find?, hp]

theorem find?_write?_of_ne {d d' : Disk} {p q : Path} {text : String}
    (h : d.write? p text = some d') (hq : q ≠ p) : d'.find? q = d.find? q := by
  unfold write? at h
  split at h
  · cases h
  · cases h
    simp only [find?]
    split
    · rfl
    · exact Table.get?_insert_of_ne _ _ hq

end Disk

end Mediation
