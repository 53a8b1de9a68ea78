import GraphExport.Failure
import GraphExport.Json.Printer
import GraphExport.Label.Basic
import GraphExport.Output.Kind

/-!
# GraphExport.Element

Graph elements in the shapes in which a source may deliver them, and the one way to read their
parts: id, tags, end points, properties. A part that is not there is a `Defect` of the element.
-/

namespace GraphExport

/-! ## Values as text -/

namespace Json

/-- A value as plain text: strings without quotes, null as nothing. -/
def plain : Json → String
  | .str s => s
  | .null => ""
  | v => v.compact

/-- A value as tags: the items of a list, none for null, else the value itself. -/
def tags : Json → List String
  | .arr items => items.map plain
  | .null => []
  | v => [v.plain]

end Json

/-! ## Rows -/

/-- The key of a field in the row of a query. Tokens are kept apart from properties of that
name. -/
inductive RowKey where
  | id
  | label
  | target
  | source
  | property (name : String)
  deriving DecidableEq

namespace RowKey

def name : RowKey → String
  | .id => "~id"
  | .label => "~label"
  | .target => "~in"
  | .source => "~out"
  | .property name => name

def isToken : RowKey → Bool
  | .property _ => false
  | _ => true

/-- Tokens come first, in the order id, label, target, source. -/
def rank : RowKey → Nat
  | .id => 0
  | .label => 1
  | .target => 2
  | .source => 3
  | .property _ => 4

def order : RowKey → RowKey → Ordering := compareLex (compareOn rank) (compareOn name)

instance : Std.TransCmp order := by unfold order; infer_instance

instance : Ord RowKey := ⟨order⟩

instance : Std.TransOrd RowKey := inferInstanceAs (Std.TransCmp order)

instance : Std.LawfulEqOrd RowKey where
  compare_self {k} := by
    have h : order k k = .eq := Std.ReflCmp.compare_self
    exact h
  eq_of_compare {a b} h := by
    have h : order a b = .eq := h
    simp only [order, compareLex, compareOn, Ordering.then_eq_eq] at h
    have h₁ := Std.LawfulEqOrd.eq_of_compare h.1
    have h₂ := Std.LawfulEqOrd.eq_of_compare h.2
    cases a <;> cases b <;> simp_all [rank, name]

end RowKey

abbrev Row := SortedMap RowKey Json

/-- The row as named columns, tokens among them only when allowed. Of two keys of one name the later
one stays. -/
def Row.columns (row : Row) (allowTokens : Bool) : PropertyMap :=
  .ofList ((row.entries.filter fun e => allowTokens || !e.1.isToken).map fun e => (e.1.name, e.2))

/-- What a query delivers: maps, or values of another kind. -/
inductive Answer where
  | row (row : Row)
  | value (v : Json)

def Answer.asRow : Answer → Except Failure Row
  | .row r => .ok r
  | .value v => .error (Cause.unexpectedRow v.kindName)

/-! ## Elements -/

structure Node where
  id : String
  tags : List String
  properties : PropertyMap

structure Edge where
  id : String
  tag : String
  source : String
  target : String
  sourceTags : List String
  targetTags : List String
  properties : PropertyMap

inductive Element where
  | node (node : Node)
  | edge (edge : Edge)
  /-- A map of parts by wire name: id, label, end points, properties. -/
  | projected (kind : ElementKind) (map : PropertyMap)
  /-- A row that does not name both end points. -/
  | nodeRow (row : Row)
  /-- A row that names both end points. -/
  | edgeRow (row : Row)

inductive Endpoint where
  | source
  | target
  deriving DecidableEq

/-- The keys of an end point's id and tags in a projected edge. -/
def Endpoint.wireKeys : Endpoint → String × String
  | .source => ("~from", "~fromLabels")
  | .target => ("~to", "~toLabels")

def Endpoint.rowKey : Endpoint → RowKey
  | .source => .source
  | .target => .target

namespace Element

/-- A row that names both end points is an edge. -/
def ofRow (row : Row) : Element :=
  if row.contains .target && row.contains .source then .edgeRow row else .nodeRow row

def kind : Element → ElementKind
  | .node _ | .nodeRow _ => .nodes
  | .edge _ | .edgeRow _ => .edges
  | .projected kind _ => kind

def noId : String := "?"

def id : Element → Except Failure String
  | .node n => .ok n.id
  | .edge x => .ok x.id
  | .projected _ map =>
    match map.get? "~id" with
    | some v => .ok v.plain
    | none => .error (Cause.malformed noId (.missing "~id"))
  | .nodeRow r | .edgeRow r =>
    match r.get? .id with
    | some v => .ok v.plain
    | none => .error (Cause.malformed noId (.missingToken "id"))

def defect {α : Type} (e : Element) (defect : Defect) : Except Failure α :=
  match e.id with
  | .ok id => .error (Cause.malformed id defect)
  | .error _ => .error (Cause.malformed noId defect)

/-- The element's own tags. An edge has exactly one. -/
def tags (e : Element) : Except Failure (List String) :=
  match e with
  | .node n => .ok n.tags
  | .edge x => .ok [x.tag]
  | .projected kind map =>
    match map.get? "~label" with
    | none => e.defect (.missing "~label")
    | some v =>
      match kind with
      | .nodes => .ok v.tags
      | .edges => .ok [v.plain]
  | .nodeRow r | .edgeRow r =>
    match r.get? .label with
    | some v => .ok [v.plain]
    | none => e.defect (.missingToken "label")

def properties (e : Element) : Except Failure PropertyMap :=
  match e with
  | .node n => .ok n.properties
  | .edge x => .ok x.properties
  | .projected _ map =>
    match map.get? "properties" with
    | none | some .null => .ok ∅
    | some (.obj fields) => .ok (.ofList fields)
    | some v => e.defect (.propertiesNotMap v.kindName)
  | .nodeRow r | .edgeRow r => .ok (r.columns false)

def endpoint (e : Element) (side : Endpoint) : Except Failure (String × List String) :=
  match e with
  | .edge x =>
    match side with
    | .source => .ok (x.source, x.sourceTags)
    | .target => .ok (x.target, x.targetTags)
  | .projected .edges map =>
    match map.get? side.wireKeys.1 with
    | none => e.defect (.missing side.wireKeys.1)
    | some v => .ok (v.plain, ((map.get? side.wireKeys.2).map Json.tags).getD [])
  | .edgeRow r =>
    match r.get? side.rowKey with
    | none => e.defect (.missingToken side.rowKey.name)
    | some (.obj fields) =>
      let vertex : PropertyMap := .ofList fields
      match vertex.get? "~id" with
      | none => e.defect .endpointWithoutId
      | some v => .ok (v.plain, ((vertex.get? "~label").map Json.tags).getD [])
    | some v => .ok (v.plain, [])
  | _ => e.defect .notAnEdge

/-- The id of the vertex that an edge starts from. -/
def source (e : Element) : Except Failure String := (e.endpoint .source).map (·.1)

/-- The id of the vertex that an edge leads to. -/
def target (e : Element) : Except Failure String := (e.endpoint .target).map (·.1)

def sourceTags (e : Element) : Except Failure (List String) := (e.endpoint .source).map (·.2)

def targetTags (e : Element) : Except Failure (List String) := (e.endpoint .target).map (·.2)

end Element

end GraphExport
