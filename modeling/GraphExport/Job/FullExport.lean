import GraphExport.Job.WindowDuty

/-!
# GraphExport.Job.FullExport

The export of all nodes and then all edges that the filters admit. Each kind has its phase: a plan
is made, the crew works it off, and the files are brought in line with the merged schema.
-/

namespace GraphExport

structure Summary where
  schema : GraphSchema
  stats : Stats
  /-- The most files that were open at a time. -/
  maxOpenFiles : Nat

def Shared.summary (s : Shared) (schema : GraphSchema) : Summary :=
  { schema, stats := s.stats, maxOpenFiles := s.disk.budget.highWater }

/-- The order in which the workers of a phase take their first steps. After these each goes on by
itself, so no turns at all mean one worker after the other. -/
structure Turns where
  scan : List Nat := []
  write : List Nat := []

/-- Writes a JSON file whole. It gets a temporary name first, so that no reader sees half of it. -/
def writeArtifact (path : Path) (v : Json) (t : FileTree) : Except Failure Unit × FileTree :=
  let temporary := path.temporary
  match t.makeFile temporary with
  | none => (.error ⟨.io, ["Failed to create " ++ temporary.text]⟩, t)
  | some t =>
    let t := t.append temporary v.pretty
    match t.moveFile temporary path with
    | none => (.error ⟨.io, ["Failed to move " ++ path.text ++ " into place"]⟩, t)
    | some t => (.ok (), t)

namespace Job

def writeArtifacts (dir : Path) (schema : GraphSchema) (stats : Stats) (t : FileTree) :
    Except Failure Unit × FileTree :=
  match writeArtifact (dir.child "schema.json") schema.toJson t with
  | (.error f, t) => (.error f, t)
  | (.ok _, t) => writeArtifact (dir.child "stats.json") stats.toJson t

/-- Does a job in its output directory, which is made first. The job sees that directory and what
is below it, and nothing else. -/
def inOutput {α : Type} (dir : Route) (t : FileTree)
    (job : Path → FileTree → Except Failure α × FileTree) : Except Failure α × FileTree :=
  match t.openWay dir with
  | none => (.error ⟨.io, ["Failed to create output directory: " ++ dir.text]⟩, t)
  | some (place, t) =>
    let (result, inside) := job dir.home (t.view place dir.home)
    (result, t.withView place dir.home inside)

def reconcileKind (format : Format) (kind : OutputKind) (context : String)
    (fragments : List Fragments) (t : FileTree) : Except Failure Collection × FileTree :=
  let (result, t) := reconcile format kind (.ofFragments fragments) t
  (within context result, t)

end Job

namespace FullExport

/-- Finds the schemas of a kind in a pass of its own. -/
def scanKind (client : Client) (filter : LabelFilter) (kind : ElementKind) (turns : List Nat)
    (plan : Plan) (shared : Shared) : Except Failure Collection :=
  let duty := scanDuty client filter kind
  let crew := Crew.start plan.workers .empty plan { shared with progress := {} }
  let crew := (crew.play duty turns).finish duty plan.windowsLeft
  crew.results.map fun scanned => scanned.foldl Collection.union ∅

/-- The writers that every worker starts with. -/
def freshPool (dir : Path) (format : Format) (kind : OutputKind) (seed : Option Collection) :
    Pool :=
  let pool : Pool := { dir, format, kinds := [kind] }
  match seed with
  | some schemas => pool.seedWith kind schemas
  | none => pool

def writeKind (client : Client) (c : Config) (dir : Path) (filter : LabelFilter)
    (turns : List Nat) (plan : Plan) (seed : Option Collection) (shared : Shared) :
    Except Failure Collection × Shared :=
  let kind := filter.kind
  let duty := exportDuty client filter kind
  let crew := Crew.start plan.workers (freshPool dir c.format kind.output seed) plan
    { shared with progress := {} }
  let crew := (crew.play duty turns).finish duty plan.windowsLeft
  let shared := crew.floor.shared
  match crew.results with
  | .error f => (.error f, shared)
  | .ok left =>
    let (result, tree) := Job.reconcileKind c.format kind.output
      ("Failed to reconcile " ++ kind.name ++ " files") (left.map (·.get kind.output))
      shared.disk.tree
    (result, { shared with disk := { shared.disk with tree } })

def exportKind (client : Client) (c : Config) (dir : Path) (filter : LabelFilter) (turns : Turns)
    (shared : Shared) : Except Failure Collection × Shared :=
  match Plan.forFilter client filter c.windows c.workers with
  | .error f => (.error f, shared)
  | .ok plan =>
    if c.twoPass then
      match scanKind client filter filter.kind turns.scan plan shared with
      | .error f => (.error f, shared)
      | .ok seed => writeKind client c dir filter turns.write plan (some seed) shared
    else writeKind client c dir filter turns.write plan none shared

def exportAll (client : Client) (c : Config) (dir : Path) (turns : ElementKind → Turns)
    (shared : Shared) : Except Failure GraphSchema × Shared :=
  match exportKind client c dir c.nodeFilter (turns .nodes) shared with
  | (.error f, shared) => (.error f, shared)
  | (.ok nodes, shared) =>
    match exportKind client c dir c.edgeFilter (turns .edges) shared with
    | (.error f, shared) => (.error f, shared)
    | (.ok edges, shared) => (.ok ⟨nodes, edges, ∅⟩, shared)

def work (client : Client) (c : Config) (turns : ElementKind → Turns) (dir : Path) (t : FileTree) :
    Except Failure Summary × FileTree :=
  let disk : Disk := { tree := t, filesNamed := 0, budget := { max := c.maxHandles } }
  match exportAll client c dir turns { disk } with
  | (.error f, shared) => (.error f, shared.disk.tree)
  | (.ok schema, shared) =>
    match Job.writeArtifacts dir schema shared.stats shared.disk.tree with
    | (.error f, t) => (.error f, t)
    | (.ok _, t) => (.ok (shared.summary schema), t)

/-- The whole job, with the first steps of its workers in a given order. -/
def runWith (client : Client) (c : Config) (turns : ElementKind → Turns) (t : FileTree) :
    Except Failure Summary × FileTree :=
  match c.validate with
  | .error f => (.error f, t)
  | .ok _ => Job.inOutput c.dir t (work client c turns)

def run (client : Client) (c : Config) (t : FileTree) : Except Failure Summary × FileTree :=
  runWith client c (fun _ => {}) t

end FullExport

end GraphExport
