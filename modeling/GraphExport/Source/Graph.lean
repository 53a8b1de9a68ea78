import GraphExport.Json.Decode
import GraphExport.Source.Client
import GraphExport.Source.Traversal

/-!
# GraphExport.Source.Graph

A graph held in memory, read from a JSON dump. Elements keep the order of the dump, and that is the
order in which queries deliver them.
-/

namespace GraphExport

structure Graph where
  nodes : List Node
  edges : List Edge

namespace Graph

/-! ## Reading a dump -/

def decodeNode : Decode Node := fun depth v => do
  let (depth, slots) ← Decode.slots [["id"], ["labels", "label"], ["properties"]] depth v
  match slots with
  | [id, labels, properties] =>
    let id ← Decode.required .value depth id
    let labels ← Decode.withDefault .value .null depth labels
    let properties ← Decode.withDefault .properties ∅ depth properties
    some { id := id.plain, tags := labels.tags, properties }
  | _ => none

/-- An edge as it is in a dump, which says nothing of the tags of its end points. -/
def decodeEdge : Decode Edge := fun depth v => do
  let (depth, slots) ← Decode.slots [["id"], ["label"], ["from"], ["to"], ["properties"]] depth v
  match slots with
  | [id, label, source, target, properties] =>
    let id ← Decode.required .value depth id
    let tag ← Decode.required .string depth label
    let source ← Decode.required .value depth source
    let target ← Decode.required .value depth target
    let properties ← Decode.withDefault .properties ∅ depth properties
    some { id := id.plain, tag, source := source.plain, target := target.plain, sourceTags := [],
           targetTags := [], properties }
  | _ => none

/-- The tags of the node with an id. Of several nodes with that id the last one counts. -/
def tagsOf (nodes : List Node) (id : String) : List String :=
  ((nodes.reverse.find? fun n => n.id = id).map (·.tags)).getD []

def link (nodes : List Node) (edges : List Edge) : Graph where
  nodes := nodes
  edges := edges.map fun e =>
    { e with sourceTags := tagsOf nodes e.source, targetTags := tagsOf nodes e.target }

def decode : Decode Graph := fun depth v => do
  let (depth, slots) ← Decode.slots [["nodes"], ["edges"]] depth v
  match slots with
  | [nodes, edges] =>
    some (link (← Decode.withDefault (.list decodeNode) [] depth nodes)
      (← Decode.withDefault (.list decodeEdge) [] depth edges))
  | _ => none

def ofDump (text : String) : Except Failure Graph :=
  match decode.fromText? text with
  | some g => .ok g
  | none => .error Cause.json

/-! ## Element queries -/

def nodeLabel (n : Node) : Label := .ofTags n.tags

def edgeLabel (e : Edge) : Label := .withEndpoints e.tag e.sourceTags e.targetTags

/-- The elements of a kind whose label is one of several; with no labels every element. -/
def matching (g : Graph) (kind : ElementKind) (labels : List Label) : List Element :=
  match kind with
  | .nodes => (g.nodes.filter fun n => acceptedAtSource labels (nodeLabel n)).map .node
  | .edges => (g.edges.filter fun e => acceptedAtSource labels (edgeLabel e)).map .edge

/-! ## Traversals -/

def hasTag (tags : List String) : Element → Bool
  | .node n => n.tags.any tags.contains
  | .edge e => tags.contains e.tag
  | _ => false

def applyStep (items : List Element) : Step → List Element
  | .hasLabel tags => items.filter (hasTag tags)
  | .range window => window.slice items
  | .limit n => items.take n

/-- Several tags of a vertex come back from a traversal as one. -/
def joinTags (tags : List String) : Json := .str ("::".intercalate tags)

def vertexRef (id : String) (tags : List String) : Json :=
  .obj [("~id", .str id), ("~label", joinTags tags)]

def propertyFields (m : PropertyMap) : List (RowKey × Json) :=
  m.entries.map fun e => (.property e.1, e.2)

/-- The row of an element: with its id and label, with its end points, or with neither. -/
def rowOf (withTokens withEndpoints : Bool) : Element → Row
  | .node n =>
    let tokens := if withTokens then [(.id, .str n.id), (.label, joinTags n.tags)] else []
    .ofList (tokens ++ propertyFields n.properties)
  | .edge e =>
    let tokens := if withTokens then [(.id, .str e.id), (.label, .str e.tag)] else []
    let ends :=
      if withEndpoints then
        [(.source, vertexRef e.source e.sourceTags), (.target, vertexRef e.target e.targetTags)]
      else []
    .ofList (tokens ++ ends ++ propertyFields e.properties)
  | _ => ∅

def idOf : Element → Json
  | .node n => .str n.id
  | .edge e => .str e.id
  | _ => .null

/-- The answers that a projection makes of elements. -/
def project (items : List Element) : Projection → List Answer
  | .count => [.value (.int items.length)]
  | .id => items.map fun e => .value (idOf e)
  | .elementMap => items.map fun e => .row (rowOf true true e)
  | .valueMapWithTokens => items.map fun e => .row (rowOf true false e)
  | .valueMap => items.map fun e => .row (rowOf false false e)

def run (g : Graph) (t : Traversal) : List Answer :=
  project (t.steps.foldl applyStep (g.matching t.kind [])) t.projection

def submit (g : Graph) (query : String) : Delivery Answer :=
  match Traversal.parse? query with
  | some t => { items := g.run t }
  | none => { items := [], failure := some (Cause.unsupported (Text.trim query)) }

def client (g : Graph) : Client where
  count q := .ok (g.matching q.kind q.labels).length
  elements q := { items := q.window.slice (g.matching q.kind q.labels) }
  answers := g.submit

end Graph

end GraphExport
