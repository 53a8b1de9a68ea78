import GraphExport.Job.NamedQueries
import GraphExport.Route
import GraphExport.Schema.Collection
import GraphExport.Source.Graph

/-!
# GraphExport.Job.Load

Reading the inputs of a job from files: graph dumps, named queries, schemas. A dump may be
compressed by bzip2. How that is undone is no part of this library, so whatever reads a dump is
given a function that does it.
-/

namespace GraphExport

/-- The part of a file name after the last dot. A dot at the very start begins no extension. -/
def extension? (name : String) : Option String :=
  match (Text.cutAt '.' name.toList).reverse with
  | last :: rest =>
    if rest.all (·.isEmpty) && rest.length ≤ 1 then none else some (String.ofList last)
  | [] => none

/-- The file holds a compressed dump, which is not read as text. -/
def isCompressed (r : Route) : Bool := extension? r.name = some "bz2"

/-- What a compressed file holds; nothing where it cannot be decompressed. The bytes of the file
come as characters, one for each. -/
def Decompressor : Type := String → Option String

/-- Reads the content of a dump. What cannot be decompressed cannot be parsed either. -/
def Graph.ofFile (unzip : Decompressor) (compressed : Bool) (content : String) :
    Except Failure Graph :=
  if compressed then
    match unzip content with
    | some text => Graph.ofDump text
    | none => .error Cause.json
  else Graph.ofDump content

/-- Reads a graph. A directory can be opened, but it is no dump. -/
def Graph.load (unzip : Decompressor) (r : Route) (t : FileTree) : Except Failure Graph :=
  match t.open? r with
  | none => .error ⟨.io, ["Failed to open graph dump: " ++ r.text]⟩
  | some (.file content) =>
    within ("Failed to parse graph dump: " ++ r.text) (Graph.ofFile unzip (isCompressed r) content)
  | some .directory => .error ⟨.json, ["Failed to parse graph dump: " ++ r.text]⟩

/-- Reads named queries. The whole text is read first, and a directory has none. -/
def NamedQueries.load (r : Route) (t : FileTree) : Except Failure (List NamedQueries) :=
  match t.open? r with
  | some (.file content) =>
    within ("Invalid queries file: " ++ r.text) (NamedQueries.ofText content)
  | _ => .error ⟨.io, ["Failed to read queries file: " ++ r.text]⟩

def GraphSchema.ofJson (v : Json) : Except Failure GraphSchema :=
  match GraphSchema.decode.fromJson? v with
  | some g => .ok g
  | none => .error ⟨.json, ["Failed to parse schema"]⟩

/-- Reads a graph schema. A directory can be opened, but it is no schema. -/
def GraphSchema.load (r : Route) (t : FileTree) : Except Failure GraphSchema :=
  let invalid : Failure := ⟨.json, ["Failed to parse schema file: " ++ r.text]⟩
  match t.open? r with
  | none => .error ⟨.io, ["Failed to open schema file: " ++ r.text]⟩
  | some (.file content) =>
    match GraphSchema.decode.fromText? content with
    | some g => .ok g
    | none => .error invalid
  | some .directory => .error invalid

end GraphExport
