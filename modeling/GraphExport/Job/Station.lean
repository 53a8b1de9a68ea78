import GraphExport.Job.Crew
import GraphExport.Schema.Collection
import GraphExport.Source.Client

/-!
# GraphExport.Job.Station

What happens to one element or one row: it is counted, classified by label, and written to the file
of its label, or recorded in a schema when the schema alone is wanted. A malformed element is
skipped; it costs nothing but itself.
-/

namespace GraphExport

/-- The filter for each element kind; elements of a kind without one are passed over. -/
structure KindFilters where
  nodes : Option LabelFilter
  edges : Option LabelFilter

namespace KindFilters

def get (f : KindFilters) : ElementKind → Option LabelFilter
  | .nodes => f.nodes
  | .edges => f.edges

/-- One filter, for its own kind. -/
def single (filter : LabelFilter) : KindFilters :=
  match filter.kind with
  | .nodes => ⟨some filter, none⟩
  | .edges => ⟨none, some filter⟩

end KindFilters

/-- A worker's writers together with what all workers share. -/
structure Station where
  pool : Pool
  shared : Shared

inductive Verdict where
  | ignore
  | write (label : Label) (properties : PropertyMap)

/-- Classifies an element. All its parts are read before anything is written. -/
def classify (filters : KindFilters) (e : Element) : Except Failure Verdict :=
  match filters.get e.kind with
  | none => .ok .ignore
  | some filter =>
    match filter.labelOf e with
    | .error f => .error f
    | .ok label =>
      if !filter.accepts label then .ok .ignore
      else do
        let _ ← e.id
        if e.kind = .edges then
          let _ ← e.source
          let _ ← e.target
        .ok (.write label (← e.properties))

namespace Station

def tick (s : Station) : Station :=
  { s with shared := { s.shared with progress := s.shared.progress.tick } }

def tally (f : Stats → Stats) (s : Station) : Station :=
  { s with shared := { s.shared with stats := f s.shared.stats } }

/-- Counts what was written, or hands the failure on. -/
def record (s : Station) (kind : OutputKind) (label : Label) (properties : PropertyMap)
    (written : Except Failure Unit × Pool × Disk) : Except Failure Unit × Station :=
  let (result, pool, disk) := written
  let s := { s with pool, shared := { s.shared with disk } }
  match result with
  | .error f => (.error f, s)
  | .ok _ => (.ok (), s.tally (·.record kind label properties))

/-- Writes an element to the file of its label, or skips it. -/
def put (filters : KindFilters) (e : Element) (s : Station) : Except Failure Unit × Station :=
  match classify filters e with
  | .ok .ignore => (.ok (), s)
  | .ok (.write label properties) =>
    s.record e.kind.output label properties
      (s.pool.writeElement e.kind.output label e s.shared.disk)
  | .error f =>
    if f.isElementLocal then (.ok (), s.tally Stats.skip) else (.error f, s)

/-- Writes a row as the element that it has the shape of. -/
def putRow (filters : KindFilters) (a : Answer) (s : Station) : Except Failure Unit × Station :=
  match a.asRow with
  | .error f => (.error f, s)
  | .ok row => s.put filters (.ofRow row)

def fileRow (name : String) (allowTokens : Bool) (a : Answer) (s : Station) :
    Except Failure Unit × Station :=
  match a.asRow with
  | .error f => (.error f, s)
  | .ok row =>
    let columns := row.columns allowTokens
    s.record .results (.single name) columns
      (s.pool.writeColumns .results (.single name) columns s.shared.disk)

end Station

/-! ## Schemas alone -/

/-- Records an element in the schema of its label. A malformed element leaves no trace. -/
def scanElement (filters : KindFilters) (allowTokens : Bool) (e : Element) (g : GraphSchema) :
    GraphSchema :=
  match filters.get e.kind with
  | none => g
  | some filter =>
    match filter.labelOf e, e.properties with
    | .ok label, .ok properties =>
      if filter.accepts label then
        g.modify e.kind.output fun c => c.update label properties allowTokens
      else g
    | _, _ => g

def scanRow (filters : KindFilters) (allowTokens : Bool) (a : Answer) (g : GraphSchema) :
    Except Failure Unit × GraphSchema :=
  match a.asRow with
  | .error f => (.error f, g)
  | .ok row => (.ok (), scanElement filters allowTokens (.ofRow row) g)

def scanFiledRow (name : String) (allowTokens : Bool) (a : Answer) (c : Collection) :
    Except Failure Unit × Collection :=
  match a.asRow with
  | .error f => (.error f, c)
  | .ok row => (.ok (), c.update (.single name) (row.columns allowTokens) true)

end GraphExport
