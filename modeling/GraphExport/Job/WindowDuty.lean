import GraphExport.Job.Config
import GraphExport.Job.Station

/-!
# GraphExport.Job.WindowDuty

Work by windows: a worker takes windows from the plan and streams the elements of each, into files
or into schemas. A window that was not filled shows that the source has no more elements.
-/

namespace GraphExport

namespace Plan

def claim (p : Plan) : Option Window × Plan :=
  let (w, p) := p.next
  (if w.isNone then none else some w, p)

/-- The window was not filled, or it was the last one. -/
def isLast (w : Window) (count : Nat) (p : Plan) : Bool := w.exceeds count || p.isExhausted

end Plan

def windowQuery (kind : ElementKind) (filter : LabelFilter) (w : Window) : ElementQuery :=
  filter.apply { kind, window := w }

/-- The context of a failure on a query. -/
def taskContext (number : Nat) (text : String) : String :=
  "Task " ++ toString number ++ " failed on " ++ text

/-- Writes the elements of windows to files. -/
def exportDuty (client : Client) (filter : LabelFilter) (kind : ElementKind) :
    Duty Plan Window Pool (PerKind Fragments) where
  claim := Plan.claim
  perform number w pool shared :=
    let query := windowQuery kind filter w
    let (result, s) := (client.elements query).feed
      (fun e (s : Station) => s.tick.put (.single filter) e) ⟨pool, shared⟩
    (within (taskContext number query.text) result, s.pool, s.shared)
  isLast := Plan.isLast
  close pool shared :=
    let (fragments, pool, disk) := pool.close shared.disk
    (fragments, pool, { shared with disk })

/-- Counts an element and records it in a schema. -/
def scanStep (filter : LabelFilter) (e : Element) (s : GraphSchema × Shared) :
    Except Failure Unit × GraphSchema × Shared :=
  (.ok (), scanElement (.single filter) false e s.1,
    { s.2 with progress := s.2.progress.tick })

/-- Records the elements of windows in schemas. -/
def scanDuty (client : Client) (filter : LabelFilter) (kind : ElementKind) :
    Duty Plan Window GraphSchema Collection where
  claim := Plan.claim
  perform number w schema shared :=
    let query := windowQuery kind filter w
    let (result, schema, shared) := (client.elements query).feed (scanStep filter) (schema, shared)
    (within (taskContext number query.text) result, schema, shared)
  isLast := Plan.isLast
  close schema shared := (schema.get kind.output, .empty, shared)

end GraphExport
