import GraphExport.Element

/-!
# GraphExport.Label.Filter

How an element gets its label, and which labels are exported.
-/

namespace GraphExport

inductive LabelStrategy where
  /-- Nodes, by their tags. -/
  | node
  /-- Edges, by their tag. -/
  | edge
  /-- Edges, by their tag and the tags of their end points. -/
  | edgeWithEndpoints
  deriving DecidableEq, Inhabited

namespace LabelStrategy

def kind : LabelStrategy → ElementKind
  | .node => .nodes
  | .edge | .edgeWithEndpoints => .edges

def isForEdges (s : LabelStrategy) : Bool := s.kind = .edges

def labelOf (s : LabelStrategy) (e : Element) : Except Failure Label :=
  match s with
  | .node | .edge =>
    match e.tags with
    | .ok tags => .ok (.ofTags tags)
    | .error f => .error f
  | .edgeWithEndpoints =>
    match e.tags with
    | .error f => .error f
    | .ok tags =>
      match e.sourceTags with
      | .error f => .error f
      | .ok source =>
        match e.targetTags with
        | .error f => .error f
        | .ok target => .ok (.withEndpoints (tags.headD "") source target)

end LabelStrategy

/-- Which labels of one kind are exported. -/
inductive LabelFilter where
  | all (strategy : LabelStrategy)
  /-- Labels that one of these matches. Where there are none, no label is exported. -/
  | specified (strategy : LabelStrategy) (labels : List Label)
  deriving DecidableEq

namespace LabelFilter

/-- The filter for labels that were asked for one by one. Where none was, it is for all. -/
def ofLabels (strategy : LabelStrategy) (labels : List Label) : LabelFilter :=
  if labels.isEmpty then .all strategy else .specified strategy labels

def strategy : LabelFilter → LabelStrategy
  | .all strategy | .specified strategy _ => strategy

def labels : LabelFilter → List Label
  | .all _ => []
  | .specified _ labels => labels

def isSpecified : LabelFilter → Bool
  | .all _ => false
  | .specified _ _ => true

def kind (f : LabelFilter) : ElementKind := f.strategy.kind

def labelOf (f : LabelFilter) (e : Element) : Except Failure Label := f.strategy.labelOf e

def accepts (f : LabelFilter) (label : Label) : Bool :=
  match f with
  | .all _ => true
  | .specified _ labels => labels.any (·.isMatchedBy label)

end LabelFilter

end GraphExport
