import GraphExport.Csv
import GraphExport.Schema.Fragments

/-!
# GraphExport.Output.Reconcile

Bringing CSV files in line with the master schema of their label. A file whose header is another
one is written anew: columns in the order of the master, empty cells where the file has none.
-/

namespace GraphExport

/-- Where each column of the master stands in the rows of a file. -/
def columnPositions (kind : OutputKind) (label : Label) (canonical file : LabelSchema) :
    List (Option Nat) :=
  canonical.names.map fun name =>
    (file.names.idxOf? name).map ((structuralColumns kind label).length + ·)

/-- A row under the columns of the master. -/
def realign (structural : Nat) (positions : List (Option Nat)) (record : List String) :
    List String :=
  (List.range structural).map (record.getD · "") ++
    positions.map fun p => (p.map (record.getD · "")).getD ""

/-- The new text of a file, or none where its header is right. An empty file stays as it is. -/
def realigned? (kind : OutputKind) (label : Label) (canonical file : LabelSchema)
    (content : String) : Option String :=
  let expected := Csv.line (csvHeader kind label canonical)
  let (header, body) := Text.throughFirst '\n' content.toList
  if header.isEmpty || header = expected.toList then none
  else
    let positions := columnPositions kind label canonical file
    let structural := (structuralColumns kind label).length
    some (String.join (expected ::
      (Csv.records body).map fun record => Csv.line (realign structural positions record)))

/-- Brings one file in line; tells whether it had to change. -/
def reconcileFile (kind : OutputKind) (label : Label) (canonical : LabelSchema)
    (file : FileSchema) (t : FileTree) : Except Failure Bool × FileTree :=
  match t.get? file.path with
  | none => (.error ⟨.io, ["Failed to open " ++ file.path.text]⟩, t)
  | some .directory => (.error ⟨.io, ["Failed to read " ++ file.path.text]⟩, t)
  | some (.file content) =>
    match realigned? kind label canonical file.schema content with
    | none => (.ok false, t)
    | some text =>
      let temporary := file.path.temporary
      match t.makeFile temporary with
      | none => (.error ⟨.io, ["Failed to create " ++ temporary.text]⟩, t)
      | some t =>
        let t := t.append temporary text
        match t.moveFile temporary file.path with
        | none => (.error ⟨.io, ["Failed to replace " ++ file.path.text]⟩, t)
        | some t => (.ok true, t)

def Masters.jobs (m : Masters) : List (Label × LabelSchema × FileSchema) :=
  m.entries.flatMap fun (label, master) =>
    master.files.values.map fun file => (label, master.schema, file)

/-- Brings files in line one after the other, up to the first failure. -/
def reconcileAll (kind : OutputKind) :
    List (Label × LabelSchema × FileSchema) → FileTree → Except Failure Unit × FileTree
  | [], t => (.ok (), t)
  | (label, canonical, file) :: rest, t =>
    match reconcileFile kind label canonical file t with
    | (.ok _, t) => reconcileAll kind rest t
    | (.error f, t) => (.error f, t)

/-- Brings all files of a kind in line. Lines of JSON name their fields, so there is nothing to do
for them. -/
def reconcile (format : Format) (kind : OutputKind) (m : Masters) (t : FileTree) :
    Except Failure Collection × FileTree :=
  match format with
  | .json => (.ok m.schemas, t)
  | .csv =>
    match reconcileAll kind m.jobs t with
    | (.ok _, t) => (.ok m.schemas, t)
    | (.error f, t) => (.error f, t)

end GraphExport
