import GraphExport.Proofs.Output.Realign

/-!
# GraphExport.Proofs.Output.Rewrite

What the rewrite of one file makes of the file and of the other files.

* `reconcileFile_ok`: the file has its new text, the temporary file is gone, all else is untouched.
* `LabelWriter.reconcile_session`: a file that is written row by row, with its writer suspended and
  opened again at any time, and put in line with a master schema then, has exactly the rows that
  were written, unless the rewrite loses a byte order mark.
-/

namespace GraphExport

namespace Path

theorem climb_temporary (p : Path) : p.temporary.climb = (p.name ++ ".tmp") :: p.climb.tail := rfl

theorem temporary_ne (p : Path) : p.temporary ≠ p := by
  intro h
  have hclimb := congrArg climb h
  rw [climb_temporary] at hclimb
  cases hp : p.climb with
  | nil => rw [hp] at hclimb; cases hclimb
  | cons first rest =>
    rw [hp, Path.name, hp, List.headD_cons] at hclimb
    have hlength := congrArg String.length (List.cons.inj hclimb).1
    rw [String.length_append] at hlength
    have : ".tmp".length = 4 := by decide
    omega

end Path

section File

variable {kind : OutputKind} {label : Label} {canonical : LabelSchema} {file : FileSchema}
  {t t' : FileTree}

/-- The rewrite of a file that is there succeeds if the temporary file can be made. -/
theorem exists_reconcileFile (kind : OutputKind) (label : Label) (canonical : LabelSchema)
    {file : FileSchema} {content : String} (h : t.get? file.path = some (.file content))
    (hpath : file.path.climb ≠ []) (htemporary : (t.makeFile file.path.temporary).isSome) :
    ∃ changed t', reconcileFile kind label canonical file t = (.ok changed, t') := by
  simp only [reconcileFile, h]
  cases hr : realigned? kind label canonical file.schema content with
  | none => exact ⟨false, t, rfl⟩
  | some text =>
    obtain ⟨t₁, ht₁⟩ := Option.isSome_iff_exists.1 htemporary
    obtain ⟨rfl, -⟩ := FileTree.makeFile_eq_some ht₁
    have hold : (t.insert file.path.temporary (.file "")).get? file.path.temporary =
        some (.file "") := SortedMap.get?_insert_self _ _ _
    have hnew : FileTree.isDirectory ((t.insert file.path.temporary (.file "")).insert
        file.path.temporary (.file ("" ++ text))) file.path = false := by
      have hfile : ((t.insert file.path.temporary (.file "")).insert
          file.path.temporary (.file ("" ++ text))).get? file.path = some (.file content) := by
        rw [SortedMap.get?_insert_of_ne _ file.path.temporary_ne.symm,
          SortedMap.get?_insert_of_ne _ file.path.temporary_ne.symm, h]
      exact FileTree.isDirectory_eq_false_of_file hfile hpath
    simp only [ht₁]
    rw [FileTree.append_of_file hold,
      FileTree.moveFile_of_file (SortedMap.get?_insert_self _ _ _) hnew]
    exact ⟨true, _, rfl⟩

theorem reconcileFile_ok {changed : Bool}
    (h : reconcileFile kind label canonical file t = (.ok changed, t')) :
    ∃ content, t.get? file.path = some (.file content) ∧
      t'.get? file.path =
        some (.file ((realigned? kind label canonical file.schema content).getD content)) ∧
      ∀ q, q ≠ file.path → t'.get? q = t.get? q ∨ (q = file.path.temporary ∧ t'.get? q = none) := by
  unfold reconcileFile at h
  split at h
  · cases h
  · cases h
  · rename_i content hfile
    refine ⟨content, hfile, ?_⟩
    split at h
    · rename_i hr
      cases h
      exact ⟨by rw [hr, hfile]; rfl, fun q _ => .inl rfl⟩
    · rename_i text hr
      simp only at h
      split at h
      · cases h
      · rename_i t₁ ht₁
        split at h
        · cases h
        · rename_i t₂ ht₂
          cases h
          obtain ⟨hplaced, hothers⟩ := FileTree.get?_replaced ht₁ ht₂
          exact ⟨by rw [hr]; exact hplaced, hothers⟩

end File

/-! ## A writer and its rewrite -/

/-- What may be done with a writer. -/
inductive WriterAct where
  | element (e : Element)
  | columns (columns : PropertyMap)
  | suspend
  | reopen

namespace WriterAct

/-- Elements go to files of nodes and edges, rows of results to files of results. -/
def Suits (kind : OutputKind) : WriterAct → Prop
  | element _ => kind ≠ .results
  | columns _ => kind = .results
  | suspend => True
  | reopen => True

/-- The row that is written. -/
def row? (kind : OutputKind) (label : Label) : WriterAct → Option WrittenRow
  | element e => (WrittenRow.ofElement kind label e).toOption
  | columns m => some (.ofColumns m)
  | suspend => none
  | reopen => none

end WriterAct

namespace LabelWriter

def act (w : LabelWriter) (d : Disk) : WriterAct → Except Failure (LabelWriter × Disk)
  | .element e => (w.writeElement e).map fun (w, line) => (w, d.append w.path line)
  | .columns m => (w.writeColumns m).map fun (w, line) => (w, d.append w.path line)
  | .suspend => .ok (w.suspend, d)
  | .reopen => (w.reopen d).map fun w => (w, d)

def acts : List WriterAct → LabelWriter → Disk → Except Failure (LabelWriter × Disk)
  | [], w, d => .ok (w, d)
  | a :: rest, w, d =>
    match w.act d a with
    | .error f => .error f
    | .ok (w, d) => acts rest w d

/-- A new file without columns, and what is done with its writer. -/
def session (dir : Path) (kind : OutputKind) (label : Label) (todo : List WriterAct) (d : Disk) :
    Except Failure (LabelWriter × Disk) :=
  match LabelWriter.create dir .csv kind label none d with
  | (.error f, _) => .error f
  | (.ok w, d) => acts todo w d

theorem Keeps.act {w w' : LabelWriter} {d d' : Disk} {b : Book} (hw : w.Keeps d.tree b)
    {a : WriterAct} (hsuits : a.Suits b.kind) (h : w.act d a = .ok (w', d')) :
    w'.Keeps d'.tree { b with rows := b.rows ++ (a.row? b.kind b.label).toList } ∧
      w'.path = w.path := by
  cases a with
  | element e =>
    obtain ⟨⟨w₁, line⟩, hwrite, heq⟩ := map_eq_ok h
    cases heq
    obtain ⟨r, hr, -, rfl, rfl⟩ := writeElement_ok hw.format hwrite
    have hkind : b.kind ≠ .results := hsuits
    rw [hw.kind, hw.label] at hr
    have hgrow : w.schema.update r.properties false = r.grow w.kind w.schema := by
      simp [WrittenRow.grow, hw.kind, hkind]
    refine ⟨?_, rfl⟩
    rw [WriterAct.row?, hr, hgrow]
    exact hw.write (WrittenRow.fits_ofElement hkind hr)
  | columns m =>
    obtain ⟨⟨w₁, line⟩, hwrite, heq⟩ := map_eq_ok h
    cases heq
    obtain ⟨-, rfl, rfl⟩ := writeColumns_ok hw.format hwrite
    have hkind : b.kind = .results := hsuits
    have hgrow : w.schema.update m true = (WrittenRow.ofColumns m).grow w.kind w.schema := by
      simp [WrittenRow.grow, hw.kind, hkind, WrittenRow.ofColumns]
    refine ⟨?_, rfl⟩
    rw [WriterAct.row?, hgrow]
    exact hw.write (by rw [hkind]; rfl)
  | suspend =>
    cases h
    refine ⟨?_, rfl⟩
    simp only [WriterAct.row?, Option.toList_none, List.append_nil]
    exact { hw with }
  | reopen =>
    obtain ⟨w₁, hopen, heq⟩ := map_eq_ok h
    cases heq
    simp only [WriterAct.row?, Option.toList_none, List.append_nil]
    unfold reopen at hopen
    split at hopen
    · cases hopen
      exact ⟨hw, rfl⟩
    · split at hopen
      · cases hopen
        exact ⟨{ hw with }, rfl⟩
      · cases hopen

theorem Keeps.acts {todo : List WriterAct} {w w' : LabelWriter} {d d' : Disk} {b : Book}
    (hw : w.Keeps d.tree b) (hsuits : ∀ a ∈ todo, a.Suits b.kind)
    (h : LabelWriter.acts todo w d = .ok (w', d')) :
    w'.Keeps d'.tree { b with rows := b.rows ++ todo.filterMap (·.row? b.kind b.label) } ∧
      w'.path = w.path := by
  induction todo generalizing w d b with
  | nil =>
    cases h
    simpa using hw
  | cons a rest ih =>
    unfold LabelWriter.acts at h
    split at h
    · cases h
    · rename_i w₁ d₁ hact
      obtain ⟨hkeeps, hpath⟩ := hw.act (hsuits a (by simp)) hact
      obtain ⟨hrest, hpath'⟩ := ih hkeeps (fun a' ha' => hsuits a' (List.mem_cons_of_mem _ ha')) h
      refine ⟨?_, hpath'.trans hpath⟩
      simp only at hrest
      cases hrow : a.row? b.kind b.label with
      | none => simpa [List.filterMap_cons, hrow] using hrest
      | some r => simpa [List.filterMap_cons, hrow] using hrest

variable {dir : Path} {kind : OutputKind} {label : Label} {todo : List WriterAct} {d d' : Disk}
  {w : LabelWriter}

/-- The book of a file that started without columns. -/
def sessionBook (kind : OutputKind) (label : Label) (todo : List WriterAct) : Book :=
  { kind, label, seed := { label }, rows := todo.filterMap (·.row? kind label) }

theorem keeps_session (hsuits : ∀ a ∈ todo, a.Suits kind)
    (h : session dir kind label todo d = .ok (w, d')) :
    w.Keeps d'.tree (sessionBook kind label todo) ∧ w.path.climb ≠ [] := by
  unfold session at h
  split at h
  · cases h
  · rename_i w₀ d₀ hcreate
    have hnew := keeps_create hcreate
    obtain ⟨-, -, -, -, hw₀, -⟩ := create_ok hcreate
    obtain ⟨hkeeps, hpath⟩ := hnew.acts hsuits h
    refine ⟨?_, by rw [hpath, hw₀]; simp [Path.child]⟩
    rw [hw₀] at hkeeps
    simpa [sessionBook] using hkeeps

/-- A file that is written row by row and put in line with a master schema then has exactly the rows
that were written, unless the rewrite loses a byte order mark. -/
theorem reconcile_session {canonical : LabelSchema} (hsuits : ∀ a ∈ todo, a.Suits kind)
    (hsession : session dir kind label todo d = .ok (w, d'))
    (hnames : w.schema.names ⊆ canonical.names)
    (htemporary : (d'.tree.makeFile w.path.temporary).isSome) :
    ∃ changed t, reconcileFile kind label canonical w.fileSchema d'.tree = (.ok changed, t) ∧
      (t.read? w.path = some ((sessionBook kind label todo).alignedText canonical) ↔
        ¬ (sessionBook kind label todo).LosesMark canonical) := by
  obtain ⟨hkeeps, hpath⟩ := keeps_session hsuits hsession
  obtain ⟨changed, t, hreconcile⟩ := exists_reconcileFile kind label canonical
    (show d'.tree.get? w.fileSchema.path = _ from hkeeps.file) hpath htemporary
  refine ⟨changed, t, hreconcile, ?_⟩
  obtain ⟨content, hcontent, hfile, -⟩ := reconcileFile_ok hreconcile
  have htext : content = (sessionBook kind label todo).text := by
    have := hcontent.symm.trans hkeeps.file
    simpa using this
  have hschema : w.fileSchema.schema = (sessionBook kind label todo).schema := hkeeps.schema
  have hsubset : (sessionBook kind label todo).schema.names ⊆ canonical.names := by
    rw [← hschema]
    exact hnames
  have hiff := Book.realigned_eq_aligned hkeeps.fits rfl hsubset
  rw [← hiff, FileTree.read?_eq_some, show w.path = w.fileSchema.path from rfl, hfile, htext,
    hschema]
  simp [sessionBook]

def markedNode : Element :=
  .node { id := "\uFEFF1", tags := ["t"], properties := .ofList [("p", .str "x")] }

/-- The id of a first row that begins with a byte order mark is cut short. -/
theorem reconcile_session_marked :
    let todo := [.element markedNode]
    let book := sessionBook .nodes (.single "t") todo
    ∃ w d',
      session (.ofNames ["out"]) .nodes (.single "t") todo ⟨∅, 0, { max := 0 }⟩ = .ok (w, d') ∧
      ∃ changed t,
        reconcileFile .nodes (.single "t") book.schema w.fileSchema d'.tree = (.ok changed, t) ∧
        t.read? w.path ≠ some (book.alignedText book.schema) := by
  intro todo book
  obtain ⟨p, hp, hcheck⟩ : ∃ p, session (.ofNames ["out"]) .nodes (.single "t") todo
      ⟨∅, 0, { max := 0 }⟩ = .ok p ∧
        (decide (p.1.schema.names ⊆ book.schema.names) &&
          (p.2.tree.makeFile p.1.path.temporary).isSome) = true := by
    have h : ((session (.ofNames ["out"]) .nodes (.single "t") todo
        ⟨∅, 0, { max := 0 }⟩).map fun p => decide (p.1.schema.names ⊆ book.schema.names) &&
          (p.2.tree.makeFile p.1.path.temporary).isSome).toOption = some true := by decide +kernel
    cases hs : session (.ofNames ["out"]) .nodes (.single "t") todo ⟨∅, 0, { max := 0 }⟩ with
    | error f => rw [hs] at h; cases h
    | ok p => rw [hs] at h; exact ⟨p, rfl, by simpa [Except.map, Except.toOption] using h⟩
  rw [Bool.and_eq_true, decide_eq_true_eq] at hcheck
  have hsuits : ∀ a ∈ todo, a.Suits .nodes := by
    intro a ha
    rw [List.mem_singleton.1 ha]
    simp [WriterAct.Suits]
  obtain ⟨changed, t, ht, hiff⟩ := reconcile_session hsuits hp hcheck.1 hcheck.2
  refine ⟨p.1, p.2, hp, changed, t, ht, fun h => hiff.1 h ⟨by decide +kernel, ?_⟩⟩
  exact ⟨_, _, rfl, by decide +kernel⟩

end LabelWriter

end GraphExport
