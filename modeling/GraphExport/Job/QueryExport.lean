import GraphExport.Job.FullExport
import GraphExport.Job.NamedQueries

/-!
# GraphExport.Job.QueryExport

The export of the results of named queries. The queries form a queue that the workers drain. A
query that fails is given up, and the worker takes the next one; only a failing disk stops the job.
-/

namespace GraphExport

namespace QueryExport

def filters (c : Config) : KindFilters := ⟨some c.nodeFilter, some c.edgeFilter⟩

/-- Runs a query for its schema alone, and seeds the pool with it. -/
def seed (client : Client) (c : Config) (structured : Bool) (q : NamedQuery) (pool : Pool) :
    Except Failure Unit × Pool :=
  if structured then
    match (client.answers q.query).feed (scanRow (filters c) false) GraphSchema.empty with
    | (.error f, _) => (.error f, pool)
    | (.ok _, schema) =>
      (.ok (), (pool.seedWith .nodes schema.nodes).seedWith .edges schema.edges)
  else
    match (client.answers q.query).feed (scanFiledRow q.name true) ∅ with
    | (.error f, _) => (.error f, pool)
    | (.ok _, results) => (.ok (), pool.seedWith .results results)

def writeRows (client : Client) (c : Config) (structured : Bool) (q : NamedQuery) (s : Station) :
    Except Failure Nat × Station :=
  if structured then
    (client.answers q.query).feed (fun a (s : Station) => s.tick.putRow (filters c) a) s
  else
    (client.answers q.query).feed (fun a (s : Station) => s.tick.fileRow q.name true a) s

/-- Runs a query, in two passes if the files are to have their headers right from the start. -/
def execute (client : Client) (c : Config) (structured : Bool) (q : NamedQuery) (s : Station) :
    Except Failure Nat × Station :=
  if c.twoPass then
    match seed client c structured q s.pool with
    | (.error f, pool) => (.error f, { s with pool })
    | (.ok _, pool) => writeRows client c structured q { s with pool }
  else writeRows client c structured q s

/-- Runs a query. One that fails is given up, unless the disk failed. -/
def attempt (client : Client) (c : Config) (structured : Bool) (number : Nat) (q : NamedQuery)
    (s : Station) : Except Failure Nat × Station :=
  match execute client c structured q s with
  | (.ok count, s) => (.ok count, s)
  | (.error f, s) =>
    if f.isFatal then (.error (f.within (taskContext number ("query " ++ q.name))), s)
    else if f.cause = .handlesBusy then (.error f, s)
    else (.ok 0, s.tally Stats.abandon)

/-- Draining the queue of queries. -/
def duty (client : Client) (c : Config) (structured : Bool) :
    Duty (List NamedQuery) NamedQuery Pool (PerKind Fragments) where
  claim
    | [] => (none, [])
    | q :: queue => (some q, queue)
  perform number q pool shared :=
    let (result, s) := attempt client c structured number q ⟨pool, shared⟩
    (result, s.pool, s.shared)
  isLast _ _ _ := false
  close pool shared :=
    let (fragments, pool, disk) := pool.close shared.disk
    (fragments, pool, { shared with disk })

def queue (client : Client) (c : Config) (split : Bool) :
    List NamedQueries → PlanCache → Except Failure (List NamedQuery)
  | [], _ => .ok []
  | group :: groups, cache =>
    let (group, cache) := if split then group.split client c cache else (.ok group, cache)
    match group with
    | .error f => .error f
    | .ok group => (queue client c split groups cache).map (group.flat ++ ·)

/-- The kinds of output that a query job writes. -/
def kinds (structured : Bool) : List OutputKind :=
  if structured then [.nodes, .edges] else [.results]

def reconcileKinds (format : Format) (left : List (PerKind Fragments)) (t : FileTree) :
    Except Failure GraphSchema × FileTree :=
  match Job.reconcileKind format .nodes "Failed to reconcile node files" (left.map (·.nodes)) t with
  | (.error f, t) => (.error f, t)
  | (.ok nodes, t) =>
    match Job.reconcileKind format .edges "Failed to reconcile edge files"
      (left.map (·.edges)) t with
    | (.error f, t) => (.error f, t)
    | (.ok edges, t) =>
      match Job.reconcileKind format .results "Failed to reconcile result files"
        (left.map (·.results)) t with
      | (.error f, t) => (.error f, t)
      | (.ok results, t) => (.ok ⟨nodes, edges, results⟩, t)

def drain (client : Client) (c : Config) (dir : Path) (structured : Bool) (turns : List Nat)
    (queue : List NamedQuery) (disk : Disk) : Except Failure (List (PerKind Fragments)) × Shared :=
  let pool : Pool := { dir, format := c.format, kinds := kinds structured }
  let d := duty client c structured
  let crew := Crew.start c.workers pool queue { disk }
  let crew := (crew.play d turns).finish d queue.length
  (crew.results, crew.floor.shared)

def work (client : Client) (c : Config) (groups : List NamedQueries) (structured split : Bool)
    (turns : List Nat) (dir : Path) (t : FileTree) : Except Failure Summary × FileTree :=
  match queue client c split groups {} with
  | .error f => (.error f, t)
  | .ok queue =>
    let disk : Disk := { tree := t, filesNamed := 0, budget := { max := c.maxHandles } }
    match drain client c dir structured turns queue disk with
    | (.error f, shared) => (.error f, shared.disk.tree)
    | (.ok left, shared) =>
      match reconcileKinds c.format left shared.disk.tree with
      | (.error f, t) => (.error f, t)
      | (.ok schema, t) =>
        match Job.writeArtifacts dir schema shared.stats t with
        | (.error f, t) => (.error f, t)
        | (.ok _, t) => (.ok (shared.summary schema), t)

/-- The whole job, with the first steps of its workers in a given order. -/
def runWith (client : Client) (c : Config) (groups : List NamedQueries) (structured split : Bool)
    (turns : List Nat) (t : FileTree) : Except Failure Summary × FileTree :=
  match c.validateForQueries structured with
  | .error f => (.error f, t)
  | .ok _ => Job.inOutput c.dir t (work client c groups structured split turns)

def run (client : Client) (c : Config) (groups : List NamedQueries) (structured split : Bool)
    (t : FileTree) : Except Failure Summary × FileTree :=
  runWith client c groups structured split [] t

end QueryExport

end GraphExport
