import GraphExport.Job.FullExport
import GraphExport.Proofs.Confined
import GraphExport.Proofs.Output.Ledger
import GraphExport.Proofs.Output.Names

/-!
# GraphExport.Proofs.Output.Apart

The files of the kinds are apart. What is written to the files of one kind, and what is done to
bring them in line, reads and changes no place that has to do with another kind.

* `OutputKind.Houses`: the directory of a kind and what is directly in it. `OutputKind.Reaches`: the
  same with all that is on the way. `OutputKind.apart_of_ne`: a way to one kind does not lead to
  another.
* `confined_reconcile`: files are brought in line in the directory of their kind.
* `Ledger.confined_write`: a row is written on the way to its kind.
* `Ledger.only`, `Ledger.write_only`: a row of a kind is written as it is in a pool of its own.
* `Ledger.SameOf`: the files of another kind are the same. `Ledger.SameOf.write`: a row leaves them
  so.
-/

namespace GraphExport

/-! ## The places of a kind -/

namespace OutputKind

/-- The directory of a kind and what is directly in it. -/
def Houses (kind : OutputKind) (dir p : Path) : Prop :=
  p = dir.child kind.name ∨ ∃ name, p = (dir.child kind.name).child name

/-- The same, with the directories on the way. -/
def Reaches (kind : OutputKind) (dir p : Path) : Prop :=
  p ∈ (dir.child kind.name).ancestors ∨ kind.Houses dir p

variable {kind other : OutputKind} {dir p : Path}

theorem name_inj (h : kind.name = other.name) : kind = other := by
  cases kind <;> cases other <;> first | rfl | exact absurd h (by decide)

/-- A way to one kind does not lead to another. -/
theorem apart_of_ne (hne : kind ≠ other) (h : kind.Reaches dir p) : ¬ other.Houses dir p := by
  have hlength : ∀ {q : Path}, other.Houses dir q →
      dir.climb.length + 1 ≤ q.climb.length ∧ (q.climb.length = dir.climb.length + 1 →
        q = dir.child other.name) := by
    rintro q (rfl | ⟨name, rfl⟩)
    · exact ⟨by simp, fun _ => rfl⟩
    · exact ⟨by simp, fun heq => by simp at heq⟩
  have hdir : dir.child kind.name ≠ dir.child other.name :=
    fun heq => hne (name_inj (Path.child_inj heq).2)
  intro hother
  obtain ⟨hle, hsame⟩ := hlength hother
  rcases h with hmem | rfl | ⟨name, rfl⟩
  · -- A directory on the way is no deeper than the one that it leads to.
    simp only [Path.ancestors, List.mem_reverse, List.mem_map, List.mem_range] at hmem
    obtain ⟨i, -, rfl⟩ := hmem
    simp only [Path.climb_child, List.length_drop, List.length_cons] at hle hsame
    obtain rfl : i = 0 := by omega
    have hclimb := congrArg Path.climb (hsame (Nat.sub_zero _))
    exact hdir (Path.ext_climb hclimb)
  · exact hdir (hsame (by simp))
  · rcases hother with heq | ⟨name', heq⟩
    · have := congrArg (fun q : Path => q.climb.length) heq
      simp at this
    · exact hdir (Path.child_inj heq).1

end OutputKind

/-! ## Bringing files in line -/

section Reconcile

variable {kind : OutputKind} {dir : Path}

theorem confined_reconcileFile (label : Label) (canonical : LabelSchema) {file : FileSchema}
    (h : ∃ name, file.path = (dir.child kind.name).child name) :
    Confined (kind.Houses dir) (reconcileFile kind label canonical file) := by
  obtain ⟨name, hpath⟩ := h
  have hfile : kind.Houses dir file.path := hpath ▸ .inr ⟨name, rfl⟩
  have htemporary : kind.Houses dir file.path.temporary := by
    rw [hpath, Path.temporary_child]
    exact .inr ⟨_, rfl⟩
  have hparent : file.path.temporary.parent = dir.child kind.name := by
    rw [hpath, Path.temporary_child]
    exact Path.ext_climb rfl
  refine .read hfile fun found => ?_
  rcases found with _ | _ | content
  · exact ⟨_, .pure _, fun t ht => by simp only [reconcileFile, ht]; rfl⟩
  · exact ⟨_, .pure _, fun t ht => by simp only [reconcileFile, ht]; rfl⟩
  · cases hrealigned : realigned? kind label canonical file.schema content with
    | none => exact ⟨_, .pure _, fun t ht => by simp only [reconcileFile, ht, hrealigned]; rfl⟩
    | some text =>
      refine ⟨_, .makeFile (p := file.path.temporary) ?_ htemporary (.pure _)
        (.append htemporary text (.moveFile htemporary hfile (.pure _) (.pure _))),
        fun t ht => by simp only [reconcileFile, ht, hrealigned]; rfl⟩
      rw [hparent]
      exact .inl rfl

theorem confined_reconcileAll {jobs : List (Label × LabelSchema × FileSchema)}
    (h : ∀ job ∈ jobs, ∃ name, job.2.2.path = (dir.child kind.name).child name) :
    Confined (kind.Houses dir) (reconcileAll kind jobs) := by
  induction jobs with
  | nil => exact .pure _
  | cons job rest ih =>
    obtain ⟨label, canonical, file⟩ := job
    have hfirst := confined_reconcileFile label canonical (h _ List.mem_cons_self)
    have hrest := ih fun job hjob => h job (List.mem_cons_of_mem _ hjob)
    refine (hfirst.bind (Confined.onward (fun _ => reconcileAll kind rest) .error)
      fun t => Confined.onward_of fun _ _ => hrest).congr fun t => ?_
    rw [reconcileAll]
    rcases reconcileFile kind label canonical file t with ⟨_ | _, _⟩ <;> rfl

theorem confined_reconcile (format : Format) {m : Masters}
    (h : ∀ job ∈ m.jobs, ∃ name, job.2.2.path = (dir.child kind.name).child name) :
    Confined (kind.Houses dir) (reconcile format kind m) := by
  cases format with
  | json => exact .pure _
  | csv =>
    refine ((confined_reconcileAll h).map fun result => result.map fun _ => m.schemas).congr
      fun t => ?_
    rw [reconcile]
    rcases reconcileAll kind m.jobs t with ⟨_ | _, _⟩ <;> rfl

end Reconcile

/-! ## Writing files -/

/-- The rest of a disk. -/
def Disk.bare (d : Disk) : Disk := { d with tree := ∅ }

namespace LabelWriter

/-- The writer of the `n`th file. -/
def fresh (dir : Path) (format : Format) (kind : OutputKind) (label : Label)
    (seed : Option LabelSchema) (n : Nat) : LabelWriter where
  label := label
  kind := kind
  format := format
  path := (dir.child kind.name).child (fileNameOf label n format)
  schema :=
    match seed with
    | some s => s.columnsOf
    | none => { label }
  isOpen := true
  rows := 0
  lastUsed := 0

/-- The file of a new writer gets its first line, if it has one. -/
def begin (w : LabelWriter) (t : FileTree) : FileTree :=
  match w.format with
  | .csv => t.append w.path (Csv.line (csvHeader w.kind w.label w.schema))
  | .json => t

theorem create_eq (dir : Path) (format : Format) (kind : OutputKind) (label : Label)
    (seed : Option LabelSchema) (d : Disk) :
    create dir format kind label seed d =
      match d.tree.makeDirectories (dir.child kind.name) with
      | none =>
        (.error ⟨.io, ["Failed to create directory: " ++ (dir.child kind.name).text]⟩, d)
      | some t =>
        let w := fresh dir format kind label seed (d.filesNamed + 1)
        match t.makeFile w.path with
        | none => (.error ⟨.io, ["Failed to create " ++ w.path.text]⟩,
            { d with tree := t, filesNamed := d.filesNamed + 1 })
        | some t => (.ok w, { d with tree := w.begin t, filesNamed := d.filesNamed + 1 }) := by
  unfold create fresh
  dsimp only
  generalize d.tree.makeDirectories (dir.child kind.name) = made
  cases made with
  | none => rfl
  | some t =>
    dsimp only
    generalize t.makeFile _ = made
    cases made with
    | none => rfl
    | some t => cases format <;> rfl

/-- A new file is made on the way to its kind. -/
theorem confined_create (dir : Path) (format : Format) (kind : OutputKind) (label : Label)
    (seed : Option LabelSchema) (filesNamed : Nat) (budget : HandleBudget) :
    Confined (kind.Reaches dir) fun t =>
      let made := create dir format kind label seed ⟨t, filesNamed, budget⟩
      ((made.1, made.2.bare), made.2.tree) := by
  let w := fresh dir format kind label seed (filesNamed + 1)
  have hpath : kind.Reaches dir w.path := .inr (.inr ⟨_, rfl⟩)
  have hparent : kind.Reaches dir w.path.parent := .inr (.inl (Path.ext_climb rfl))
  have hbegin : ∀ a : Except Failure LabelWriter × Disk,
      Confined (kind.Reaches dir) fun t => (a, w.begin t) := by
    intro a
    cases format with
    | csv => exact .append hpath _ (.pure a)
    | json => exact .pure a
  have hsteps : Confined (kind.Reaches dir) _ := .makeDirectories (fun q hq => .inl hq)
    (.pure (.error ⟨.io, ["Failed to create directory: " ++ (dir.child kind.name).text]⟩,
      ⟨∅, filesNamed, budget⟩))
    (.makeFile hparent hpath
      (.pure (.error ⟨.io, ["Failed to create " ++ w.path.text]⟩, ⟨∅, filesNamed + 1, budget⟩))
      (hbegin (.ok w, ⟨∅, filesNamed + 1, budget⟩)))
  refine hsteps.congr fun t => ?_
  rw [create_eq]
  dsimp only
  generalize t.makeDirectories (dir.child kind.name) = made
  cases made with
  | none => rfl
  | some t =>
    dsimp only [w]
    generalize t.makeFile _ = made
    cases made <;> rfl

end LabelWriter

namespace Ledger

/-- The files of a kind are in its directory. -/
def Housed (L : Ledger) (kind : OutputKind) : Prop :=
  ∀ label f, L.file? kind label = some f → ∃ name, f.path = (L.dir.child kind.name).child name

variable {L : Ledger} {kind : OutputKind} {label : Label}

theorem housed_setFile (h : L.Housed kind) {f : FileSchema}
    (hf : ∃ name, f.path = (L.dir.child kind.name).child name) (label : Label) :
    (L.setFile kind label f).Housed kind := by
  intro l g hg
  rcases file?_setFile_eq_some hg with ⟨-, -, rfl⟩ | ⟨-, hold⟩
  · exact hf
  · exact h l g hold

/-- A file that is asked for is in the directory of its kind. -/
theorem housed_get (h : L.Housed kind) (label : Label) :
    (L.get kind label).2.Housed kind ∧ (L.get kind label).2.dir = L.dir ∧
      ∀ f, (L.get kind label).1 = .ok f → ∃ name, f.path = (L.dir.child kind.name).child name := by
  unfold get
  split
  · rename_i f hf
    exact ⟨h, rfl, fun g hg => Except.ok.inj hg ▸ h label f hf⟩
  · split
    · split
      · rename_i w d hcreate
        have hpath : ∃ name, w.fileSchema.path = (L.dir.child kind.name).child name :=
          ⟨_, congrArg FileSchema.path (LabelWriter.create_start hcreate).1⟩
        exact ⟨housed_setFile (L := L.on d) h hpath label, rfl,
          fun g hg => Except.ok.inj hg ▸ hpath⟩
      · exact ⟨h, rfl, fun _ hg => by cases hg⟩
    · exact ⟨h, rfl, fun _ hg => by cases hg⟩

/-- What is found and kept, and the tree by itself. -/
def parted {α : Type} (outcome : α × Ledger) : (α × Ledger) × FileTree :=
  ((outcome.1, outcome.2.onTree ∅), outcome.2.tree)

/-- What comes of a new file. -/
def created (L : Ledger) (kind : OutputKind) (label : Label) :
    Except Failure LabelWriter × Disk → Except Failure FileSchema × Ledger
  | (.ok w, d) => (.ok w.fileSchema, (L.on d).setFile kind label w.fileSchema)
  | (.error f, d) => (.error f, L.on d)

theorem confined_get (L : Ledger) (kind : OutputKind) (label : Label) :
    Confined (kind.Reaches L.dir) fun t => parted ((L.onTree t).get kind label) := by
  have hfile : ∀ t, (L.onTree t).file? kind label = L.file? kind label := fun _ => rfl
  cases hf : L.file? kind label with
  | some f => exact (Confined.pure (.ok f, L.onTree ∅)).congr fun t => by rw [get, hfile, hf]; rfl
  | none =>
    cases hkind : L.kinds.contains kind with
    | false =>
      refine (Confined.pure (.error (Cause.noWriters kind.name), L.onTree ∅)).congr fun t => ?_
      have hbarred : ¬ (L.onTree t).kinds.contains kind = true := by
        rw [show (L.onTree t).kinds = L.kinds from rfl, hkind]
        exact Bool.false_ne_true
      rw [get, hfile, hf]
      simp only [if_neg hbarred]
      rfl
    | true =>
      refine ((LabelWriter.confined_create L.dir L.format kind label ((L.seeds.get kind).get? label)
        L.filesNamed { max := 0 }).map (L.created kind label)).congr fun t => ?_
      have hserved : (L.onTree t).kinds.contains kind = true := hkind
      rw [get, hfile, hf]
      simp only [if_pos hserved]
      have hcreate : LabelWriter.create (L.onTree t).dir (L.onTree t).format kind label
          (((L.onTree t).seeds.get kind).get? label) (L.onTree t).disk =
            LabelWriter.create L.dir L.format kind label ((L.seeds.get kind).get? label)
              ⟨t, L.filesNamed, { max := 0 }⟩ := rfl
      rw [hcreate]
      rcases LabelWriter.create L.dir L.format kind label ((L.seeds.get kind).get? label)
        ⟨t, L.filesNamed, { max := 0 }⟩ with ⟨_ | _, d⟩ <;> rfl

/-- A row is added to a file. -/
def addRow (L : Ledger) (kind : OutputKind) (label : Label) (i : Item) (f : FileSchema) :
    FileTree → (Except Failure Unit × Ledger) × FileTree :=
  Confined.onward
    (fun e t => ((.ok (), L.setFile kind label { f with schema := e.1 }), t.append f.path e.2))
    (fun e => (.error e, L)) (i.entry f.format kind label f.schema)

/-- A row is written on the way to its kind. -/
theorem confined_write (h : L.Housed kind) (label : Label) (i : Item) :
    Confined (kind.Reaches L.dir) fun t => parted ((L.onTree t).act (.write kind label i)) := by
  refine ((confined_get L kind label).bind
    (fun found =>
      Confined.onward (found.2.addRow kind label i) (fun f => (.error f, found.2)) found.1)
    fun t => Confined.onward_of fun f hf => Confined.onward_of fun e _ => ?_).congr fun t => ?_
  · have hpath := (housed_get (L := L.onTree t) h label).2.2 f hf
    exact .append (.inr (.inr hpath)) e.2 (.pure _)
  · dsimp only [parted, act]
    rcases (L.onTree t).get kind label with ⟨_ | f, L'⟩
    · rfl
    · dsimp only [Confined.onward, addRow]
      cases i.entry f.format kind label f.schema <;> rfl

theorem housed_act (h : L.Housed kind) (label : Label) (i : Item) :
    (L.act (.write kind label i)).2.Housed kind := by
  obtain ⟨hhoused, hdir, hfile⟩ := housed_get h label
  simp only [act]
  rcases hget : L.get kind label with ⟨result, L₁⟩
  rw [hget] at hhoused hdir hfile
  cases result with
  | error f => exact hhoused
  | ok f =>
    obtain ⟨name, hname⟩ := hfile f rfl
    dsimp only
    split
    · exact hhoused
    · rename_i schema line _
      exact housed_setFile (f := { f with schema }) hhoused
        ⟨name, hname.trans (by rw [show L₁.dir = L.dir from hdir])⟩ label

theorem Filed.housed {base : Ledger} {log : PoolLog} (h : L.Filed base log) (kind : OutputKind) :
    L.Housed kind := by
  intro label f hf
  obtain ⟨n, -, hpath⟩ := h.named hf
  exact ⟨_, h.place ▸ hpath⟩

/-! ## One kind by itself -/

/-- The files of one kind, in a pool of their own. -/
def only (L : Ledger) (kind : OutputKind) : Ledger :=
  { L with
    kinds := [kind]
    seeds := (PerKind.fill ∅).set kind (L.seeds.get kind)
    files := (PerKind.fill ∅).set kind (L.files.get kind) }

theorem set_modify {α : Type} (a : α) (t : PerKind α) (kind : OutputKind) (f : α → α) :
    (PerKind.fill a).set kind ((t.modify kind f).get kind) =
      ((PerKind.fill a).set kind (t.get kind)).modify kind f := by
  cases kind <;> rfl

theorem setFile_only (L : Ledger) (kind : OutputKind) (label : Label) (f : FileSchema) :
    (L.only kind).setFile kind label f = (L.setFile kind label f).only kind := by
  simp only [setFile, only, set_modify]

theorem get_only (hkind : kind ∈ L.kinds) (label : Label) :
    (L.only kind).get kind label = ((L.get kind label).1, (L.get kind label).2.only kind) := by
  have hfile : (L.only kind).file? kind label = L.file? kind label := by simp [file?, only]
  have hcreate : LabelWriter.create (L.only kind).dir (L.only kind).format kind label
      (((L.only kind).seeds.get kind).get? label) (L.only kind).disk =
        LabelWriter.create L.dir L.format kind label ((L.seeds.get kind).get? label) L.disk := by
    simp only [only, PerKind.get_set_self]
    rfl
  have hserved : L.kinds.contains kind = true := by simpa using hkind
  have honly : (L.only kind).kinds.contains kind = true := by simp [only]
  unfold get
  rw [hfile]
  cases L.file? kind label with
  | some f => rfl
  | none =>
    simp only [if_pos hserved, if_pos honly, hcreate]
    rcases LabelWriter.create L.dir L.format kind label ((L.seeds.get kind).get? label) L.disk with
      ⟨_ | w, d⟩
    · rfl
    · exact Prod.ext rfl (setFile_only (L.on d) kind label w.fileSchema)

/-- A row of a kind needs no files of other kinds. -/
theorem write_only (hkind : kind ∈ L.kinds) (label : Label) (i : Item) :
    (L.only kind).act (.write kind label i) =
      ((L.act (.write kind label i)).1, (L.act (.write kind label i)).2.only kind) := by
  simp only [act, get_only hkind]
  rcases L.get kind label with ⟨_ | f, L'⟩
  · rfl
  · dsimp only
    cases i.entry f.format kind label f.schema with
    | error e => rfl
    | ok e => simp only [setFile_only]; rfl

theorem seed_only (schemas : Collection) : ((L.only kind).act (.seed kind schemas)).2 =
    (L.act (.seed kind schemas)).2.only kind := by
  simp only [act, only, set_modify]

theorem fragments_only : (L.only kind).fragments.get kind = L.fragments.get kind := by
  rw [get_fragments, get_fragments, only, PerKind.get_set_self]

/-- The files of another kind are the same. -/
structure SameOf (other : OutputKind) (L L' : Ledger) : Prop where
  seeds : L'.seeds.get other = L.seeds.get other
  files : L'.files.get other = L.files.get other

variable {other : OutputKind}

theorem SameOf.fragments {L L' : Ledger} (h : SameOf other L L') :
    L'.fragments.get other = L.fragments.get other := by
  rw [get_fragments, get_fragments, h.files]

theorem SameOf.refl (L : Ledger) : SameOf other L L := ⟨rfl, rfl⟩

theorem SameOf.trans {L L' L'' : Ledger} (h : SameOf other L L') (h' : SameOf other L' L'') :
    SameOf other L L'' :=
  ⟨h'.seeds.trans h.seeds, h'.files.trans h.files⟩

theorem SameOf.setFile (hne : other ≠ kind) (L : Ledger) (label : Label) (f : FileSchema) :
    SameOf other L (L.setFile kind label f) :=
  ⟨rfl, PerKind.get_set_of_ne _ _ hne⟩

theorem SameOf.get (hne : other ≠ kind) (L : Ledger) (label : Label) :
    SameOf other L (L.get kind label).2 := by
  unfold Ledger.get
  split
  · exact .refl L
  · split
    · split
      · rename_i w d _
        have hset := SameOf.setFile hne (L.on d) label w.fileSchema
        exact ⟨hset.seeds, hset.files⟩
      · exact ⟨rfl, rfl⟩
    · exact .refl L

theorem SameOf.write (hne : other ≠ kind) (L : Ledger) (label : Label) (i : Item) :
    SameOf other L (L.act (.write kind label i)).2 := by
  have hget := SameOf.get hne L label
  simp only [act]
  rcases hfound : L.get kind label with ⟨result, L₁⟩
  rw [hfound] at hget
  cases result with
  | error f => exact hget
  | ok f =>
    dsimp only
    split
    · exact hget
    · rename_i schema _ _
      have hset := hget.trans (.setFile hne L₁ label { f with schema })
      exact ⟨hset.seeds, hset.files⟩

theorem SameOf.seed (hne : other ≠ kind) (L : Ledger) (schemas : Collection) :
    SameOf other L (L.act (.seed kind schemas)).2 :=
  ⟨PerKind.get_set_of_ne _ _ hne, rfl⟩

end Ledger

end GraphExport
