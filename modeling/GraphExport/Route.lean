import GraphExport.FileTree
import GraphExport.Text.Cut

/-!
# GraphExport.Route

Paths as they are written, and the places that they lead to. Where a path leads depends on the
files: each piece of it has to be followed from a directory that is there, also a piece that goes
back up. So `a/../b` leads nowhere while there is no directory `a`.
-/

namespace GraphExport

/-- A path as it is written: the pieces between its slashes, and the place to start from. -/
structure Route where
  start : Path
  pieces : List String
  deriving DecidableEq, Inhabited

namespace Route

/-- Reads a path. It starts at the top if it begins with a slash, else in the directory `here`. -/
def ofText (here : Path) (s : String) : Route :=
  ⟨if s.startsWith "/" then .top else here, Text.pieces '/' s⟩

def text (r : Route) : String := "/".intercalate r.pieces

def name (r : Route) : String := r.pieces.getLastD ""

/-- A piece that leads to a place of that name. Other pieces stay where they are or go up. -/
def isName (piece : String) : Bool := piece ≠ "" && piece ≠ "." && piece ≠ ".."

/-- The route without the slashes at its end. -/
def trim (r : Route) : Route := { r with pieces := (r.pieces.reverse.dropWhile (· = "")).reverse }

/-- The pieces that lead from one place to another. -/
def moves (r : Route) : List String := r.pieces.filter fun piece => piece ≠ "" && piece ≠ "."

/-- The directory as all that is below it knows it: by the text of the route, to which names are
added after a slash. -/
def home (r : Route) : Path :=
  .ofNames ["/".intercalate (if r.name = "" then r.pieces.dropLast else r.pieces)]

end Route

namespace Path

/-- One level up. There is nothing above the top. -/
def up (p : Path) : Path := if p = .top then p else p.parent

end Path

namespace FileTree

def at? (t : FileTree) (p : Path) : Option Entry :=
  if p.climb.isEmpty then some .directory else t.get? p

/-- Follows one piece of a route. There has to be a directory to follow it from, and one above. -/
def follow? (t : FileTree) : Path × Entry → String → Option (Path × Entry)
  | (_, .file _), _ => none
  | (p, .directory), piece =>
    if piece = "" || piece = "." then some (p, .directory)
    else if piece = ".." then some (p.up, .directory)
    else
      let q := p.child piece
      (t.get? q).map (q, ·)

def walk? (t : FileTree) (start : Path) (pieces : List String) : Option (Path × Entry) := do
  pieces.foldlM t.follow? (start, ← t.at? start)

/-- The place that a route leads to and what is there. -/
def reach? (t : FileTree) (r : Route) : Option (Path × Entry) :=
  if isSound r.text then t.walk? r.start r.pieces else none

/-- The place that a route leads to, if something is there. -/
def find? (t : FileTree) (r : Route) : Option Path := (t.reach? r).map (·.1)

def open? (t : FileTree) (r : Route) : Option Entry := (t.reach? r).map (·.2)

/-- Makes the directory that a route leads to. The route has to end in the name of the new one: the
marks for here and above name no place that could be made. -/
def makeDirectory (t : FileTree) (r : Route) : Option (Path × FileTree) :=
  let last := r.trim
  if isSound r.text && Route.isName last.name && isShort last.name then
    match t.walk? r.start last.pieces.dropLast with
    | some (p, .directory) =>
      let q := p.child last.name
      if t.contains q then none else some (q, t.insert q .directory)
    | _ => none
  else none

/-- Moves on from a directory to the one above or to one in it, which is made if it is missing. -/
def passOn (state : FileTree × Path) (move : String) : Option (FileTree × Path) :=
  let (t, p) := state
  if move = ".." then some (t, p.up)
  else
    let q := p.child move
    match t.get? q with
    | some .directory => some (t, q)
    | some (.file _) => none
    | none => if isShort move then some (t.insert q .directory, q) else none

/-- Makes sure that a route leads to a directory, and makes what is missing on the way to it. -/
def openWay (t : FileTree) (r : Route) : Option (Path × FileTree) := do
  guard (isSound r.text && t.isDirectory r.start)
  let (t, _) ← r.moves.dropLast.foldlM passOn (t, r.start)
  match t.reach? r with
  | some (p, .directory) => some (p, t)
  | _ => t.makeDirectory r

/-- Removes the directory `p` that a route leads to, and tells whether that worked. All that is in
it goes first. The directory itself is then removed by its name, which a route may lack that ends in
a mark for here or above; a way there that went with the rest is no fault. -/
def removeDirectory (t : FileTree) (r : Route) (p : Path) : Bool × FileTree :=
  let t := t.clear p
  match t.walk? r.start r.trim.pieces.dropLast with
  | none => (true, t)
  | some _ => if Route.isName r.trim.name then (true, t.erase p) else (false, t)

end FileTree

end GraphExport
