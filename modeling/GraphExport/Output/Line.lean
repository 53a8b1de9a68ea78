import GraphExport.Csv
import GraphExport.Element
import GraphExport.Schema.LabelSchema

/-!
# GraphExport.Output.Line

The lines of output files: property values as CSV cells, the header of a CSV file, and the line that
an element or a result row takes. The items of a list are put together in one cell with `;`, and a
`;` inside an item is marked by a backslash. A header has the structural columns of its kind, then
the columns of its schema.
-/

namespace GraphExport

/-! ## Cells -/

/-- An item with its separators marked. -/
def markSeparators (s : List Char) : List Char :=
  s.flatMap fun c => if c = ';' then ['\\', ';'] else [c]

def joinCell (items : List String) : String :=
  String.ofList (Text.glue [';'] (items.map fun s => markSeparators s.toList))

def cell : Json → String
  | .arr items => joinCell (items.map Json.plain)
  | v => v.plain

/-! ## Headers -/

def structuralColumns (kind : OutputKind) (label : Label) : List String :=
  match kind with
  | .nodes => ["~id", "~label"]
  | .edges =>
    if label.hasEndpoints then ["~id", "~label", "~from", "~to", "~fromLabels", "~toLabels"]
    else ["~id", "~label", "~from", "~to"]
  | .results => []

/-- The name of a property column; typed but for results. -/
def columnTitle (kind : OutputKind) (name : String) (c : Column) : String :=
  match kind with
  | .results => name
  | _ => name ++ ":" ++ c.dataType.headerName ++ if c.multiValue then "[]" else ""

def csvHeader (kind : OutputKind) (label : Label) (schema : LabelSchema) : List String :=
  structuralColumns kind label ++ schema.columns.entries.map fun e => columnTitle kind e.1 e.2

/-! ## Rows -/

/-- The cells of the columns of a schema; a property that is not there has an empty cell. -/
def propertyCells (properties : PropertyMap) (schema : LabelSchema) : List String :=
  schema.names.map fun name => ((properties.get? name).map cell).getD ""

/-- The structural cells of an element. -/
def structuralCells (kind : OutputKind) (label : Label) (e : Element) :
    Except Failure (List String) := do
  let id ← e.id
  match kind with
  | .edges =>
    let source ← e.source
    let target ← e.target
    let ends :=
      if label.hasEndpoints then [joinCell label.source.tags, joinCell label.target.tags] else []
    .ok ([id, label.text, source, target] ++ ends)
  | _ => .ok [id, label.text]

def csvRecord (kind : OutputKind) (label : Label) (schema : LabelSchema) (e : Element) :
    Except Failure (List String) := do
  let cells ← structuralCells kind label e
  let properties ← e.properties
  .ok (cells ++ propertyCells properties schema)

def elementObject (kind : OutputKind) (label : Label) (e : Element) :
    Except Failure PropertyMap := do
  let id ← e.id
  let parts ← match kind with
    | .edges => do
      let source ← e.source
      let target ← e.target
      let ends : List (String × Json) :=
        if label.hasEndpoints then
          [("~fromLabels", .strings label.source.tags), ("~toLabels", .strings label.target.tags)]
        else []
      .ok ([("~label", .str label.text), ("~from", .str source), ("~to", .str target)] ++ ends)
    | _ => .ok [("~label", .strings label.own.tags)]
  let properties ← e.properties
  .ok (.ofList (("~id", .str id) :: parts ++ [("properties", .ofMap properties)]))

def jsonLine (m : PropertyMap) : String := (Json.ofMap m).compact ++ "\n"

def elementLine (format : Format) (kind : OutputKind) (label : Label) (schema : LabelSchema)
    (e : Element) : Except Failure String :=
  match format with
  | .csv => (csvRecord kind label schema e).map Csv.line
  | .json => (elementObject kind label e).map jsonLine

def columnsLine (format : Format) (schema : LabelSchema) (columns : PropertyMap) : String :=
  match format with
  | .csv => Csv.line (propertyCells columns schema)
  | .json => jsonLine columns

end GraphExport
