import GraphExport.Output.Kind
import GraphExport.Schema.LabelSchema

/-!
# GraphExport.Schema.Collection

The schemas of all labels of one kind, by label, and the three collections that make up the schema
of a whole graph.
-/

namespace GraphExport

abbrev Collection := SortedMap Label LabelSchema

namespace Collection

def update (c : Collection) (label : Label) (properties : PropertyMap) (allowTokens : Bool) :
    Collection :=
  c.alter label fun s => (s.getD { label }).update properties allowTokens

/-- Widens the entry of the schema's label, or makes one. -/
def add (c : Collection) (s : LabelSchema) : Collection :=
  c.alter s.label fun
    | some t => t.union s
    | none => s

def union (c other : Collection) : Collection := other.values.foldl add c

def toJson (c : Collection) : Json := .arr (c.values.map LabelSchema.toJson)

def decode : Decode Collection := fun depth v =>
  (Decode.list LabelSchema.decode depth v).map fun l => l.foldl add ∅

end Collection

abbrev GraphSchema := PerKind Collection

namespace GraphSchema

def empty : GraphSchema := .fill ∅

/-- The graph schema as a JSON value; results are left out when there are none. -/
def toJson (g : GraphSchema) : Json :=
  let results := if g.results.isEmpty then [] else [("results", g.results.toJson)]
  .obj ([("nodes", g.nodes.toJson), ("edges", g.edges.toJson)] ++ results)

/-- Reads a graph schema; each of its parts may be missing. -/
def decode : Decode GraphSchema := fun depth v => do
  let (depth, slots) ← Decode.slots [["nodes"], ["edges"], ["results"]] depth v
  match slots with
  | [nodes, edges, results] =>
    some {
      nodes := ← Decode.withDefault Collection.decode ∅ depth nodes
      edges := ← Decode.withDefault Collection.decode ∅ depth edges
      results := ← Decode.withDefault Collection.decode ∅ depth results }
  | _ => none

end GraphSchema

end GraphExport
