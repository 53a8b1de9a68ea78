import GraphExport.FileTree
import GraphExport.Output.Line

/-!
# GraphExport.Output.Writer

Writers: one file for the elements of one label. The columns of the file are the writer's own
schema, which grows with the rows; a suspended writer holds no file handle. The number of files that
all workers together may hold open is bounded.
-/

namespace GraphExport

/-- The file handles of all workers together. -/
structure HandleBudget where
  /-- The most handles at a time; zero means any number. -/
  max : Nat
  openCount : Nat := 0
  /-- The most handles that were ever open at a time. -/
  highWater : Nat := 0
  deriving DecidableEq

namespace HandleBudget

def isUnlimited (b : HandleBudget) : Bool := b.max = 0

def acquire? (b : HandleBudget) : Option HandleBudget :=
  if !b.isUnlimited && b.max ≤ b.openCount then none
  else some { b with
    openCount := b.openCount + 1
    highWater := Nat.max b.highWater (b.openCount + 1) }

def release (b : HandleBudget) : HandleBudget := { b with openCount := b.openCount - 1 }

end HandleBudget

/-- What the writers of a job share: the files, the number of files named so far, the handles. -/
structure Disk where
  tree : FileTree
  filesNamed : Nat
  budget : HandleBudget

namespace Disk

def append (d : Disk) (p : Path) (text : String) : Disk := { d with tree := d.tree.append p text }

end Disk

structure FileSchema where
  path : Path
  format : Format
  schema : LabelSchema
  deriving DecidableEq

structure LabelWriter where
  label : Label
  kind : OutputKind
  format : Format
  path : Path
  schema : LabelSchema
  isOpen : Bool
  /-- The number of rows written. -/
  rows : Nat
  /-- The time of the last use, by the clock of the pool. -/
  lastUsed : Nat

/-- A character that may stand in the name of a file. -/
def isFileSafe (c : Char) : Bool := c.isAlphanum || c = '_' || c = '-'

def fileSafe : List Char → List Char
  | [] => []
  | c :: rest =>
    if isFileSafe c then c :: fileSafe rest
    else
      match rest with
      | [] => ['_']
      | d :: _ => if isFileSafe d then '_' :: fileSafe rest else fileSafe rest

def Label.fileName (l : Label) : String :=
  let name := String.ofList (fileSafe l.qualifiedText.toList)
  if name = "" then "unlabelled" else name

namespace LabelWriter

/-- The name of the `n`th file of a job. -/
def fileNameOf (label : Label) (n : Nat) (format : Format) : String :=
  label.fileName ++ "-" ++ toString n ++ "." ++ format.extension

/-- Opens a new file for a label in the directory of its kind. With a seed the file has the seed's
columns from the start. -/
def create (dir : Path) (format : Format) (kind : OutputKind) (label : Label)
    (seed : Option LabelSchema) (d : Disk) : Except Failure LabelWriter × Disk :=
  let home := dir.child kind.name
  match d.tree.makeDirectories home with
  | none => (.error ⟨.io, ["Failed to create directory: " ++ home.text]⟩, d)
  | some tree =>
    let n := d.filesNamed + 1
    let path := home.child (fileNameOf label n format)
    let d := { d with tree, filesNamed := n }
    match d.tree.makeFile path with
    | none => (.error ⟨.io, ["Failed to create " ++ path.text]⟩, d)
    | some tree =>
      let schema :=
        match seed with
        | some s => s.columnsOf
        | none => { label }
      let d := { d with tree }
      let d :=
        match format with
        | .csv => d.append path (Csv.line (csvHeader kind label schema))
        | .json => d
      (.ok { label, kind, format, path, schema, isOpen := true, rows := 0, lastUsed := 0 }, d)

/-- Opens the file again, to write after the rows it has. -/
def reopen (w : LabelWriter) (d : Disk) : Except Failure LabelWriter :=
  if w.isOpen then .ok w
  else if d.tree.isFile w.path then .ok { w with isOpen := true }
  else .error ⟨.io, ["Failed to reopen " ++ w.path.text]⟩

def suspend (w : LabelWriter) : LabelWriter := { w with isOpen := false }

/-- The writer after one more row, and the row's line. -/
def row (w : LabelWriter) (schema : LabelSchema) : LabelWriter :=
  { w with schema, rows := w.rows + 1 }

def writeElement (w : LabelWriter) (e : Element) : Except Failure (LabelWriter × String) := do
  let _ ← e.id
  if w.kind = .edges then
    let _ ← e.source
    let _ ← e.target
  let properties ← e.properties
  if w.isOpen then
    let schema := w.schema.update properties false
    let line ← elementLine w.format w.kind w.label schema e
    .ok (w.row schema, line)
  else .error (Cause.writerClosed w.path.text)

def writeColumns (w : LabelWriter) (columns : PropertyMap) :
    Except Failure (LabelWriter × String) :=
  if w.isOpen then
    let schema := w.schema.update columns true
    .ok (w.row schema, columnsLine w.format schema columns)
  else .error (Cause.writerClosed w.path.text)

def fileSchema (w : LabelWriter) : FileSchema := ⟨w.path, w.format, w.schema⟩

end LabelWriter

end GraphExport
