import GraphExport.Label.Filter
import GraphExport.Window

/-!
# GraphExport.Source.Query

The query for all elements of a kind, cut to a window and restricted to labels, and its text as a
traversal.
-/

namespace GraphExport

/-- What a source that is asked for some labels delivers: what one of them matches. A source that is
asked for no labels delivers everything. -/
def acceptedAtSource (labels : List Label) (candidate : Label) : Bool :=
  labels.isEmpty || labels.any (·.isMatchedBy candidate)

structure ElementQuery where
  kind : ElementKind
  window : Window
  /-- The labels that the source is asked for; none means every label. -/
  labels : List Label := []

namespace ElementQuery

def accepts (q : ElementQuery) (label : Label) : Bool := acceptedAtSource q.labels label

end ElementQuery

/-- Asks the source for the labels of the filter only. -/
def LabelFilter.apply (f : LabelFilter) (q : ElementQuery) : ElementQuery :=
  match f with
  | .all _ => q
  | .specified _ labels => { q with labels }

/-! ## Text -/

/-- The step that keeps elements of a tag. -/
def tagStep (tag : String) : String := ".hasLabel('" ++ tag ++ "')"

/-- The steps that keep elements of a label. -/
def Label.steps (l : Label) : String :=
  String.join (l.own.tags.map tagStep) ++
    String.join (l.source.tags.map fun t => ".where(__.outV()" ++ tagStep t ++ ")") ++
    String.join (l.target.tags.map fun t => ".where(__.inV()" ++ tagStep t ++ ")")

/-- The steps that keep elements of one label out of several. -/
def labelSteps : List Label → String
  | [] => ""
  | [l] => l.steps
  | labels => ".or(" ++ ", ".intercalate (labels.map fun l => "__" ++ l.steps) ++ ")"

/-- The step that a traversal of a kind starts from. -/
def ElementKind.sourceStep : ElementKind → String
  | .nodes => "g.V()"
  | .edges => "g.E()"

def ElementQuery.text (q : ElementQuery) : String :=
  q.kind.sourceStep ++ labelSteps q.labels ++
    if q.window.isAll then "" else "." ++ q.window.text

end GraphExport
