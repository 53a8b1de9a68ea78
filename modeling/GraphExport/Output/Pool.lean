import GraphExport.Output.Reconcile

/-!
# GraphExport.Output.Pool

The writers of one worker, one for each kind and label. Where all file handles are in use the pool
suspends the writer that it has not used for the longest time, and opens it again when it is next
asked for.
-/

namespace GraphExport

structure Pool where
  dir : Path
  format : Format
  kinds : List OutputKind
  writers : PerKind (SortedMap Label LabelWriter) := .fill ∅
  /-- The columns that new files have from the start. -/
  seeds : PerKind Collection := .fill ∅
  /-- The number of requests so far. -/
  clock : Nat := 0
  evictions : Nat := 0

namespace Pool

def writer? (p : Pool) (kind : OutputKind) (label : Label) : Option LabelWriter :=
  (p.writers.get kind).get? label

def setWriter (p : Pool) (w : LabelWriter) : Pool :=
  { p with writers := p.writers.modify w.kind fun m => m.insert w.label w }

/-- Files made from now on start with the columns of these schemas. -/
def seedWith (p : Pool) (kind : OutputKind) (schemas : Collection) : Pool :=
  { p with seeds := p.seeds.modify kind fun c => c.union schemas }

def all (p : Pool) : List LabelWriter :=
  p.writers.nodes.values ++ p.writers.edges.values ++ p.writers.results.values

def size (p : Pool) : Nat := p.all.length

def openWriters (p : Pool) : List LabelWriter := p.all.filter (·.isOpen)

def openCount (p : Pool) : Nat := p.openWriters.length

def older (a b : LabelWriter) : LabelWriter := if b.lastUsed < a.lastUsed then b else a

/-- The open writer that was not used for the longest time. -/
def leastRecent? (p : Pool) : Option LabelWriter :=
  match p.openWriters with
  | [] => none
  | w :: rest => some (rest.foldl older w)

/-- Takes a handle. If none is free the pool gives up one of its own; if it has none it has to
wait. -/
def acquire (p : Pool) (d : Disk) : Except Failure Unit × Pool × Disk :=
  match d.budget.acquire? with
  | some budget => (.ok (), p, { d with budget })
  | none =>
    match p.leastRecent? with
    | none => (.error Cause.handlesBusy, p, d)
    | some victim =>
      let p := { p.setWriter victim.suspend with evictions := p.evictions + 1 }
      let d := { d with budget := d.budget.release }
      match d.budget.acquire? with
      | some budget => (.ok (), p, { d with budget })
      | none => (.error Cause.handlesBusy, p, d)

/-- Files a writer under the time of this request. -/
def use (p : Pool) (w : LabelWriter) (d : Disk) : Except Failure LabelWriter × Pool × Disk :=
  let w := { w with lastUsed := p.clock }
  (.ok w, p.setWriter w, d)

/-- Gives a handle back after a failure. -/
def refuse (f : Failure) (p : Pool) (d : Disk) : Except Failure LabelWriter × Pool × Disk :=
  (.error f, p, { d with budget := d.budget.release })

/-- The open writer of a kind and label, made or opened again as needed. -/
def get (p : Pool) (kind : OutputKind) (label : Label) (d : Disk) :
    Except Failure LabelWriter × Pool × Disk :=
  let p := { p with clock := p.clock + 1 }
  match p.writer? kind label with
  | some w =>
    if w.isOpen then p.use w d
    else
      match p.acquire d with
      | (.error f, p, d) => (.error f, p, d)
      | (.ok _, p, d) =>
        match w.reopen d with
        | .ok w => p.use w d
        | .error f => refuse f p d
  | none =>
    if p.kinds.contains kind then
      match p.acquire d with
      | (.error f, p, d) => (.error f, p, d)
      | (.ok _, p, d) =>
        match LabelWriter.create p.dir p.format kind label ((p.seeds.get kind).get? label) d with
        | (.ok w, d) => p.use w d
        | (.error f, d) => refuse f p d
    else (.error (Cause.noWriters kind.name), p, d)

def writeWith (write : LabelWriter → Except Failure (LabelWriter × String)) (p : Pool)
    (kind : OutputKind) (label : Label) (d : Disk) : Except Failure Unit × Pool × Disk :=
  match p.get kind label d with
  | (.error f, p, d) => (.error f, p, d)
  | (.ok w, p, d) =>
    match write w with
    | .error f => (.error f, p, d)
    | .ok (w, line) => (.ok (), p.setWriter w, d.append w.path line)

def writeElement (p : Pool) (kind : OutputKind) (label : Label) (e : Element) (d : Disk) :
    Except Failure Unit × Pool × Disk :=
  p.writeWith (·.writeElement e) kind label d

def writeColumns (p : Pool) (kind : OutputKind) (label : Label) (columns : PropertyMap)
    (d : Disk) : Except Failure Unit × Pool × Disk :=
  p.writeWith (·.writeColumns columns) kind label d

/-- The schemas of the files of some writers. -/
def fragmentsOf (writers : SortedMap Label LabelWriter) : Fragments :=
  writers.values.foldl (fun f w => f.add w.path.text w.fileSchema) ∅

/-- Closes all writers, gives their handles back, and tells which files were written. -/
def close (p : Pool) (d : Disk) : PerKind Fragments × Pool × Disk :=
  (p.writers.map fragmentsOf,
    { p with writers := .fill ∅ },
    { d with budget := p.openWriters.foldl (fun b _ => b.release) d.budget })

end Pool

end GraphExport
