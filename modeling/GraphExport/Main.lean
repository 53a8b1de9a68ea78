import GraphExport.Command.Outcome

/-!
# GraphExport.Main

The program: reads the files that a command line names, runs it, and writes what changed.
-/

namespace GraphExport

/-- What is at a place: a file with its content, or a directory with the names in it. -/
def lookAt (p : Path) : IO (Option (Entry × List String)) := do
  match ← (IO.FS.readBinFile p.text).toBaseIO with
  | .ok bytes => return some (.file ((String.fromUTF8? bytes).getD ""), [])
  | .error _ =>
    match ← (IO.FS.realPath p.text >>= (·.readDir)).toBaseIO with
    | .error _ => return none
    | .ok children => return some (.directory, children.toList.map (·.fileName))

/-- Takes a file, or a directory with what is in it down to a depth, into a tree. -/
def snapshot : Nat → Path → FileTree → IO FileTree
  | 0, _, t => return t
  | depth + 1, p, t => do
    match ← lookAt p with
    | none => return t
    | some (entry, names) =>
      names.foldlM (fun t name => snapshot depth (p.child name) t) (t.insert p entry)

/-- Takes what a route passes and leads to into a tree, with what is there down to a depth. -/
def survey (depth : Nat) (r : Route) (t : FileTree) : IO FileTree := do
  let mut place := r.start
  let mut t := t
  for piece in r.pieces do
    place :=
      if Route.isName piece then place.child piece
      else if piece = ".." then place.up
      else place
    t ← snapshot 1 place t
  snapshot depth place t

/-- How far down a job looks into the output directory: to the files of each kind, or, when all is
to be removed, as far as there can be something. -/
def outputDepth (o : JobOrder) : Nat := if o.clean then FileTree.maxPathBytes else 3

/-- The part of the file system that a job looks at. -/
def surroundings (here : Path) : Request → IO FileTree
  | .help => return ∅
  | .job _ o => do
    let t ← survey 1 o.queries (← survey 1 o.input (((∅ : FileTree).makeDirectories here).getD ∅))
    survey (outputDepth o) o.config.dir t

/-- Makes the file system go from one tree to the other. What is in the way of something of another
kind goes first. -/
def commit (old new : FileTree) : IO Unit := do
  for (p, e) in old.entries.reverse do
    match e, new.get? p with
    | .file _, some (.file _) | .directory, some .directory => pure ()
    | .file _, _ => IO.FS.removeFile p.text
    | .directory, _ => IO.FS.removeDir p.text
  for (p, e) in new.entries do
    unless old.get? p = some e do
      match e with
      | .file content => IO.FS.writeFile p.text content
      | .directory => IO.FS.createDirAll p.text

def workingDirectory : IO Path := do
  let names := Text.pieces '/' (← IO.currentDir).toString
  return .ofNames ("" :: names.filter (· ≠ ""))

/-- No decompressor is at hand, so a compressed dump is refused like one that is damaged. -/
def noDecompressor : Decompressor := fun _ => none

def perform (args : List String) : IO Outcome := do
  let here ← workingDirectory
  match Request.ofArguments here args with
  | .error fault => return .misused fault
  | .ok request =>
    let old ← surroundings here request
    let (outcome, new) := request.run noDecompressor old
    commit old new
    return outcome

end GraphExport

open GraphExport in
def main (args : List String) : IO UInt32 := do
  let start ← IO.monoMsNow
  let outcome ← perform args
  let stop ← IO.monoMsNow
  IO.print (outcome.output ((stop - start) / 10))
  IO.eprint outcome.complaint
  return outcome.exitCode.toUInt32
