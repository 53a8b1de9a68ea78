import GraphExport.Json.Basic
import GraphExport.Label.Basic
import GraphExport.Output.Kind

/-!
# GraphExport.Stats

What a job counts: elements and properties by kind and label, elements that were skipped, queries
that were given up.
-/

namespace GraphExport

/-- The elements of one label, and how many of them have each property. -/
structure LabelStats where
  count : Nat := 0
  properties : SortedMap String Nat := ∅
  deriving DecidableEq

def LabelStats.record (s : LabelStats) (properties : PropertyMap) : LabelStats where
  count := s.count + 1
  properties := properties.keys.foldl (fun m name => m.alter name fun n => n.getD 0 + 1)
    s.properties

structure Stats where
  elements : PerKind Nat := .fill 0
  properties : Nat := 0
  skipped : Nat := 0
  abandoned : Nat := 0
  labels : PerKind (SortedMap Label LabelStats) := .fill ∅
  deriving DecidableEq

namespace Stats

def record (s : Stats) (kind : OutputKind) (label : Label) (properties : PropertyMap) : Stats :=
  { s with
    elements := s.elements.modify kind (· + 1)
    properties := s.properties + properties.size
    labels := s.labels.modify kind fun m =>
      m.alter label fun l => (l.getD {}).record properties }

def skip (s : Stats) : Stats := { s with skipped := s.skipped + 1 }

def abandon (s : Stats) : Stats := { s with abandoned := s.abandoned + 1 }

def countOf (s : Stats) (kind : OutputKind) (label : Label) : Nat :=
  (((s.labels.get kind).get? label).map (·.count)).getD 0

/-! ## JSON -/

def number (n : Nat) : Json := .int n

def labelJson (label : Label) (s : LabelStats) : Json :=
  .obj [("count", number s.count), ("description", .str label.qualifiedText),
    ("properties", .arr (s.properties.entries.map fun e =>
      .obj [("count", number e.2), ("property", .str e.1)]))]

def details (s : Stats) (kind : OutputKind) : Json :=
  .arr ((s.labels.get kind).entries.map fun e => labelJson e.1 e.2)

/-- The statistics as a JSON value, keys in order; results are left out when there are none. -/
def toJson (s : Stats) : Json :=
  let results := if 0 < s.elements.results then [("results", s.details .results)] else []
  .obj [("stats", .obj [
    ("details", .obj ([("edges", s.details .edges), ("nodes", s.details .nodes)] ++ results)),
    ("edges", number s.elements.edges),
    ("nodes", number s.elements.nodes),
    ("properties", number s.properties)])]

/-! ## Text -/

def countLine (title : String) (n : Nat) : String := "  " ++ title ++ ": " ++ toString n ++ "\n"

/-- The counts of the labels of a kind, if it has any. -/
def labelLines (s : Stats) (title : String) (kind : OutputKind) : String :=
  match (s.labels.get kind).entries with
  | [] => ""
  | entries =>
    title ++ ":\n" ++ String.join (entries.map fun e => countLine e.1.qualifiedText e.2.count)

def text (s : Stats) : String :=
  "Source:\n" ++ countLine "Nodes" s.elements.nodes ++ countLine "Edges" s.elements.edges ++
    (if 0 < s.elements.results then countLine "Results" s.elements.results else "") ++
    "Export:\n" ++ countLine "Properties" s.properties ++
    countLine "Skipped elements" s.skipped ++
    (if 0 < s.abandoned then countLine "Abandoned queries" s.abandoned else "") ++
    s.labelLines "Nodes" .nodes ++ s.labelLines "Edges" .edges

end Stats

end GraphExport
