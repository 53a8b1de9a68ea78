/-!
# GraphExport.Output.Kind

The two kinds of graph elements, the three kinds of output, which are nodes, edges, and the rows of
queries whose results are not shaped like elements, and the two row formats of output files.
-/

namespace GraphExport

universe u v

inductive ElementKind where
  | nodes
  | edges
  deriving DecidableEq, Repr, Inhabited

inductive OutputKind where
  | nodes
  | edges
  | results
  deriving DecidableEq, Repr, Inhabited

/-- The word for a kind; it also names the directory of the kind's files. -/
def ElementKind.name : ElementKind → String
  | .nodes => "nodes"
  | .edges => "edges"

/-- The kind of output that elements of a kind go to. -/
def ElementKind.output : ElementKind → OutputKind
  | .nodes => .nodes
  | .edges => .edges

namespace OutputKind

def name : OutputKind → String
  | .nodes => "nodes"
  | .edges => "edges"
  | .results => "results"

def all : List OutputKind := [.nodes, .edges, .results]

end OutputKind

/-! ## Formats -/

inductive Format where
  | csv
  /-- One JSON object a line. -/
  | json
  deriving DecidableEq, Inhabited

def Format.extension : Format → String
  | .csv => "csv"
  | .json => "json"

def Format.description : Format → String
  | .csv => "CSV"
  | .json => "line-JSON"

/-! ## One for each kind -/

structure PerKind (α : Type u) where
  nodes : α
  edges : α
  results : α
  deriving DecidableEq, Inhabited

namespace PerKind

variable {α : Type u} {β : Type v}

def get (t : PerKind α) : OutputKind → α
  | .nodes => t.nodes
  | .edges => t.edges
  | .results => t.results

def set (t : PerKind α) (kind : OutputKind) (a : α) : PerKind α :=
  match kind with
  | .nodes => { t with nodes := a }
  | .edges => { t with edges := a }
  | .results => { t with results := a }

def modify (t : PerKind α) (kind : OutputKind) (f : α → α) : PerKind α :=
  t.set kind (f (t.get kind))

def map (f : α → β) (t : PerKind α) : PerKind β := ⟨f t.nodes, f t.edges, f t.results⟩

/-- The values with their kinds, in the order nodes, edges, results. -/
def toList (t : PerKind α) : List (OutputKind × α) :=
  [(.nodes, t.nodes), (.edges, t.edges), (.results, t.results)]

def fill (a : α) : PerKind α := ⟨a, a, a⟩

@[simp] theorem get_set_self (t : PerKind α) (kind : OutputKind) (a : α) :
    (t.set kind a).get kind = a := by
  cases kind <;> rfl

theorem get_set_of_ne (t : PerKind α) {kind other : OutputKind} (a : α) (h : other ≠ kind) :
    (t.set kind a).get other = t.get other := by
  cases kind <;> cases other <;> first | rfl | exact absurd rfl h

end PerKind

end GraphExport
