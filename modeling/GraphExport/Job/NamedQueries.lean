import GraphExport.Job.Config
import GraphExport.Json.Decode
import GraphExport.Source.Traversal

/-!
# GraphExport.Job.NamedQueries

Named groups of queries, and splitting a query into one query for each window of a plan.
-/

namespace GraphExport

/-- A query and the name that its results are filed under. -/
structure NamedQuery where
  name : String
  query : String
  deriving DecidableEq

structure NamedQueries where
  name : String
  queries : List String
  deriving DecidableEq

namespace NamedQueries

def flat (g : NamedQueries) : List NamedQuery := g.queries.map fun query => ⟨g.name, query⟩

def toJson (g : NamedQueries) : Json :=
  .obj [("name", .str g.name), ("queries", .strings g.queries)]

def decodeMany : Decode NamedQueries := fun depth v => do
  let (depth, slots) ← Decode.namedSlots [["name"], ["queries"]] depth v
  match slots with
  | [name, queries] =>
    some ⟨← Decode.required .string depth name, ← Decode.required (.list .string) depth queries⟩
  | _ => none

def decodeOne : Decode NamedQueries := fun depth v => do
  let (depth, slots) ← Decode.namedSlots [["name"], ["query"]] depth v
  match slots with
  | [name, query] =>
    some ⟨← Decode.required .string depth name, [← Decode.required .string depth query]⟩
  | _ => none

def decode : Decode NamedQueries := .firstOf [decodeMany, decodeOne]

def ofText (text : String) : Except Failure (List NamedQueries) :=
  match (Decode.list decode).fromText? text with
  | some groups => .ok groups
  | none => .error ⟨.json, ["Failed to parse named queries"]⟩

end NamedQueries

/-! ## Splitting -/

structure PlanCache where
  nodes : Option Plan := none
  edges : Option Plan := none

namespace PlanCache

def get? (c : PlanCache) : ElementKind → Option Plan
  | .nodes => c.nodes
  | .edges => c.edges

def set (c : PlanCache) (kind : ElementKind) (p : Plan) : PlanCache :=
  match kind with
  | .nodes => { c with nodes := some p }
  | .edges => { c with edges := some p }

/-- The plan of a kind, made when it is first asked for. -/
def planFor (client : Client) (config : Config) (kind : ElementKind) (c : PlanCache) :
    Except Failure (Plan × PlanCache) :=
  match c.get? kind with
  | some p => .ok (p, c)
  | none =>
    match Plan.forFilter client (config.filter kind) config.windows config.workers with
    | .ok p => .ok (p, c.set kind p)
    | .error f => .error f

end PlanCache

/-- The queries for the windows of a plan: each has its window as the first step after the source
step. -/
def splitAt (source rest query : String) (windows : List Window) : List String :=
  windows.map fun w => if w.isAll then query else source ++ "." ++ w.text ++ rest

/-- The source step of a query with the blanks before it, the rest, and the kind it starts from. -/
def cutQuery (query : String) : Option (ElementKind × String × String) :=
  match Traversal.cutSource query.toList with
  | none => none
  | some (kind, rest) =>
    let s := query.toList
    some (kind, String.ofList (s.take (s.length - rest.length)), String.ofList rest)

/-- Splits queries. One that does not start at all elements of a kind is kept as it is. The plan of
a kind serves all queries that start from it, so it goes back to its first window after each. -/
def splitQueries (client : Client) (config : Config) :
    List String → PlanCache → Except Failure (List String) × PlanCache
  | [], c => (.ok [], c)
  | query :: queries, c =>
    match cutQuery query with
    | none =>
      let (result, c) := splitQueries client config queries c
      (result.map (query :: ·), c)
    | some (kind, source, rest) =>
      match c.planFor client config kind with
      | .error f => (.error f, c)
      | .ok (plan, c) =>
        let (result, c) := splitQueries client config queries (c.set kind plan.drained.reset)
        (result.map (splitAt source rest query plan.remaining ++ ·), c)

def NamedQueries.split (client : Client) (config : Config) (g : NamedQueries) (c : PlanCache) :
    Except Failure NamedQueries × PlanCache :=
  let (result, c) := splitQueries client config g.queries c
  (result.map fun queries => { g with queries }, c)

end GraphExport
