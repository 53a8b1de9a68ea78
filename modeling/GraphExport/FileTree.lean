import GraphExport.Data.SortedMap

/-!
# GraphExport.FileTree

Files and directories as a value: a map from paths to contents. An operation that a file system
would refuse gives nothing.
-/

namespace GraphExport

/-- A place in the file system: the names on the way to it, the last one first. A way from the very
top begins with the empty name; no names at all mean the place that ways without it begin at. The
number of names is kept beside them, so that places at different depths are told apart at once. -/
structure Path where
  climb : List String
  depth : Nat := climb.length
  depth_eq : depth = climb.length := by rfl

namespace Path

theorem ext_climb {p q : Path} (h : p.climb = q.climb) : p = q := by
  obtain ⟨climb, _, rfl⟩ := p
  obtain ⟨_, _, rfl⟩ := q
  cases h
  rfl

instance : DecidableEq Path := fun p q =>
  if hd : p.depth = q.depth then
    if h : p.climb = q.climb then isTrue (ext_climb h) else isFalse fun e => h (e ▸ rfl)
  else isFalse fun e => hd (e ▸ rfl)

instance : Ord Path := ⟨compareLex (compareOn (·.depth)) (compareOn (·.climb))⟩

instance : Std.TransOrd Path :=
  inferInstanceAs (Std.TransCmp (compareLex (compareOn fun p : Path => p.depth)
    (compareOn fun p : Path => p.climb)))

instance : Std.LawfulEqOrd Path where
  compare_self {p} := (Std.ReflCmp.compare_self : compareLex (compareOn fun p : Path => p.depth)
    (compareOn fun p : Path => p.climb) p p = .eq)
  eq_of_compare {p q} h := by
    have h : compareLex (compareOn fun p : Path => p.depth) (compareOn fun p : Path => p.climb) p q
      = .eq := h
    rw [compareLex_eq_eq] at h
    exact ext_climb (Std.LawfulEqOrd.eq_of_compare h.2)

def ofNames (names : List String) : Path := { climb := names.reverse }

instance : Inhabited Path := ⟨ofNames []⟩

def names (p : Path) : List String := p.climb.reverse

def top : Path := ofNames [""]

def text (p : Path) : String :=
  match p.climb with
  | [""] => "/"
  | climb => "/".intercalate climb.reverse

/-- The place that is reached from one place by the names of another. -/
def join (p q : Path) : Path := { climb := q.climb ++ p.climb }

def child (p : Path) (name : String) : Path :=
  { climb := name :: p.climb
    depth := p.depth + 1
    depth_eq := by rw [p.depth_eq, List.length_cons] }

def parent (p : Path) : Path := { climb := p.climb.tail }

def name (p : Path) : String := p.climb.headD ""

def withSuffix (p : Path) (suffix : String) : Path := p.parent.child (p.name ++ suffix)

/-- Where a file is written before it takes its place. -/
def temporary (p : Path) : Path := p.withSuffix ".tmp"

/-- The paths on the way down to a path, with the path itself, from the top. -/
def ancestors (p : Path) : List Path :=
  ((List.range p.depth).map fun i => { climb := p.climb.drop i }).reverse

/-- The part of a path below a directory. -/
def below? (dir p : Path) : Option Path :=
  if dir.depth < p.depth && p.climb.drop (p.depth - dir.depth) = dir.climb then
    some { climb := p.climb.take (p.depth - dir.depth) }
  else none

end Path

inductive Entry where
  | directory
  | file (content : String)
  deriving DecidableEq

abbrev FileTree := SortedMap Path Entry

namespace FileTree

/-- File systems allow names of so many bytes. -/
def maxNameBytes : Nat := 255

def isShort (name : String) : Bool := name.utf8ByteSize ≤ maxNameBytes

/-- File systems take paths of so many bytes. -/
def maxPathBytes : Nat := 4095

def isSound (path : String) : Bool := path ≠ "" && path.utf8ByteSize ≤ maxPathBytes

def isDirectory (t : FileTree) (p : Path) : Bool :=
  p.climb.isEmpty || t.get? p = some .directory

def isFile (t : FileTree) (p : Path) : Bool :=
  match t.get? p with
  | some (.file _) => true
  | _ => false

def read? (t : FileTree) (p : Path) : Option String :=
  match t.get? p with
  | some (.file content) => some content
  | _ => none

/-- Makes a directory and all that are on the way to it, unless a file is in the way. -/
def makeDirectories (t : FileTree) (p : Path) : Option FileTree :=
  if !isSound p.text || p.ancestors.any t.isFile then none
  else some (p.ancestors.foldl (fun t q => t.insert q .directory) t)

/-- Makes an empty file, in place of one that is there. -/
def makeFile (t : FileTree) (p : Path) : Option FileTree :=
  if isSound p.text && isShort p.name && t.isDirectory p.parent &&
      !t.isDirectory p then
    some (t.insert p (.file ""))
  else none

/-- Adds to the end of a file. What is written to a file that was removed is lost. -/
def append (t : FileTree) (p : Path) (text : String) : FileTree :=
  match t.get? p with
  | some (.file content) => t.insert p (.file (content ++ text))
  | _ => t

/-- Moves a file, in place of one that is there. -/
def moveFile (t : FileTree) (old new : Path) : Option FileTree :=
  match t.get? old with
  | some (.file content) =>
    if t.isDirectory new then none else some ((t.erase old).insert new (.file content))
  | _ => none

def clear (t : FileTree) (p : Path) : FileTree := t.filter fun q _ => (p.below? q).isNone

/-- A directory and what is below it, as seen when it is known as `home`. -/
def view (t : FileTree) (dir home : Path) : FileTree :=
  .ofList ((home, .directory) :: t.entries.filterMap fun (p, e) =>
    (dir.below? p).map fun q => (home.join q, e))

/-- The tree in which a directory has what is below `home` in another one. -/
def withView (t : FileTree) (dir home : Path) (inside : FileTree) : FileTree :=
  inside.entries.foldl (fun t (p, e) =>
    match home.below? p with
    | some q => t.insert (dir.join q) e
    | none => t) (t.clear dir)

def filesBelow (t : FileTree) (dir : Path) : List (Path × String) :=
  t.entries.filterMap fun
    | (p, .file content) => (dir.below? p).map (·, content)
    | (_, .directory) => none

end FileTree

end GraphExport
