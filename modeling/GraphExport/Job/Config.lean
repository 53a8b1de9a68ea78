import GraphExport.Label.Filter
import GraphExport.Output.Kind
import GraphExport.Route
import GraphExport.Source.Client
import GraphExport.Window.Plan

/-!
# GraphExport.Job.Config

The settings of a job, which of them can work together, and the plans that follow from them.
-/

namespace GraphExport

/-- How the elements of a kind are cut into windows. -/
structure WindowSettings where
  /-- The width of a window; `-1` derives it from the number of elements and of workers. -/
  width : Int := -1
  skip : Nat := 0
  limit : Option Nat := none
  /-- Estimates that spare the source a count. -/
  approxNodes : Option Nat := none
  approxEdges : Option Nat := none
  deriving DecidableEq

def WindowSettings.estimate (s : WindowSettings) : ElementKind → Option Nat
  | .nodes => s.approxNodes
  | .edges => s.approxEdges

structure Config where
  dir : Route
  format : Format := .csv
  workers : Nat := 4
  windows : WindowSettings := {}
  /-- The most files open at a time; zero means any number. -/
  maxHandles : Nat := 0
  /-- Find the schema in a pass of its own, before any file is written. -/
  twoPass : Bool := false
  nodeFilter : LabelFilter := .all .node
  edgeFilter : LabelFilter := .all .edge
  deriving DecidableEq

namespace Config

/-- Widths are derived where none is set and several workers share the elements. -/
def derivesWidth (workers : Nat) (s : WindowSettings) : Bool := s.width = -1 && 1 < workers

def fault? (c : Config) : Option ConfigFault :=
  if c.workers = 0 then some .noWorkers
  else if c.windows.width = 0 || c.windows.width < -1 then some (.windowWidth c.windows.width)
  else if c.windows.limit = some 0 then some .zeroLimit
  else if c.windows.approxNodes = some 0 || c.windows.approxEdges = some 0 then some .zeroEstimate
  else if c.nodeFilter.strategy.isForEdges then some .nodeFilterStrategy
  else if !c.edgeFilter.strategy.isForEdges then some .edgeFilterStrategy
  else none

def queryFault? (c : Config) (structured : Bool) : Option ConfigFault :=
  match c.fault? with
  | some fault => some fault
  | none =>
    if structured then none
    else if c.nodeFilter.isSpecified || c.edgeFilter.isSpecified then some .filterNeedsStructure
    else if c.edgeFilter.strategy = .edgeWithEndpoints then some .endpointsNeedStructure
    else none

def check (fault : Option ConfigFault) : Except Failure Unit :=
  match fault with
  | some fault => .error (Cause.config fault)
  | none => .ok ()

def validate (c : Config) : Except Failure Unit := check c.fault?

def validateForQueries (c : Config) (structured : Bool) : Except Failure Unit :=
  check (c.queryFault? structured)

def filter (c : Config) : ElementKind → LabelFilter
  | .nodes => c.nodeFilter
  | .edges => c.edgeFilter

end Config

namespace Plan

/-- Fewer elements than this are not worth several workers. -/
def minCountForWorkers : Nat := 1000

/-- The number of elements to plan for. The source is asked only where neither an estimate nor a
limit was set. -/
def estimate (client : Client) (filter : LabelFilter) (s : WindowSettings) :
    Except Failure Nat :=
  match s.estimate filter.kind, s.limit with
  | some n, _ => .ok n
  | none, some limit => .ok limit
  | none, none =>
    within ("Failed to count " ++ filter.kind.name)
      (client.count (filter.apply { kind := filter.kind, window := .all }))

def forFilter (client : Client) (filter : LabelFilter) (s : WindowSettings) (workers : Nat) :
    Except Failure Plan :=
  match estimate client filter s with
  | .error f => .error f
  | .ok n =>
    let workers := if n < minCountForWorkers then 1 else workers
    let width :=
      if Config.derivesWidth workers s then wrapWord (wrapWord (n / workers : Nat) + 1) else s.width
    .ok (make filter.kind width s.skip s.limit n workers)

end Plan

end GraphExport
