import GraphExport.Proofs.Output.Ledger
import GraphExport.Proofs.Output.OpenFiles

/-!
# GraphExport.Proofs.Output.Transparency

The number of handles that a pool may have makes no difference to what it writes. A pool that
suspends its writers and opens them again does to its files what its ledger shows, and the ledger
knows of no handles.

* `Pool.ledger`: the files of a pool as a ledger.
* `Pool.act_ledger`: an act of the pool is that act of the ledger.
* `Pool.play_ledger`: the same for all that a pool does.
* `Pool.session_transparent`: sessions under different bounds give the same files and fragments.
-/

namespace GraphExport

namespace Ledger

theorem setFile_of_file? {L : Ledger} {kind : OutputKind} {label : Label} {f : FileSchema}
    (h : L.file? kind label = some f) : L.setFile kind label f = L := by
  have hinsert : (L.files.get kind).insert label f = L.files.get kind := SortedMap.insert_of_get? h
  have hmodify : (L.files.modify kind fun m => m.insert label f) = L.files := by
    rw [PerKind.modify, hinsert]
    cases kind <;> rfl
  rw [setFile, hmodify]

end Ledger

namespace Pool

/-- The files of a pool. -/
def ledger (p : Pool) (d : Disk) : Ledger where
  dir := p.dir
  format := p.format
  kinds := p.kinds
  seeds := p.seeds
  files := p.writers.map fun m => m.mapValues fun _ w => w.fileSchema
  tree := d.tree
  filesNamed := d.filesNamed

section

variable {p p' : Pool} {kind : OutputKind} {label : Label} {w : LabelWriter} {d d' : Disk}

theorem file?_ledger (p : Pool) (d : Disk) (kind : OutputKind) (label : Label) :
    (p.ledger d).file? kind label = (p.writer? kind label).map LabelWriter.fileSchema := by
  have hget : (p.ledger d).files.get kind =
      (p.writers.get kind).mapValues fun _ w => w.fileSchema := by
    cases kind <;> rfl
  rw [Ledger.file?, hget, SortedMap.get?_mapValues]
  rfl

theorem ledger_setWriter (p : Pool) (w : LabelWriter) (d : Disk) :
    (p.setWriter w).ledger d = (p.ledger d).setFile w.kind w.label w.fileSchema := by
  have hfiles : (p.setWriter w).writers.map (fun m => m.mapValues fun _ w => w.fileSchema) =
      (p.ledger d).files.modify w.kind fun m => m.insert w.label w.fileSchema := by
    unfold setWriter ledger PerKind.modify
    cases w.kind <;> simp only [PerKind.set, PerKind.get, PerKind.map, SortedMap.mapValues_insert]
  rw [Ledger.setFile, ← hfiles]
  rfl

/-- A writer under the same file. -/
theorem ledger_setWriter_of_eq {v : LabelWriter} (hw : p.writer? w.kind w.label = some v)
    (hfile : w.fileSchema = v.fileSchema) : (p.setWriter w).ledger d = p.ledger d := by
  rw [ledger_setWriter, hfile]
  refine Ledger.setFile_of_file? ?_
  rw [file?_ledger, hw]
  rfl

/-- Handles change hands, and the files stay as they are. -/
theorem Taken.ledger (htaken : p.Taken d p' d') (h : p.Keyed) : p'.ledger d' = p.ledger d := by
  cases htaken with
  | free => rfl
  | @evicted victim _ _ hvictim =>
    obtain ⟨hwriter, -⟩ := h.of_leastRecent? hvictim
    exact ledger_setWriter_of_eq (w := victim.suspend) (v := victim) hwriter rfl

/-- A new file does not depend on the handles. -/
theorem get_ledger_of_none (hnone : p.writer? kind label = none) (hkind : kind ∈ p.kinds) :
    (p.ledger d).get kind label =
      match p.fetch kind label d with
      | (.ok w, d₂) => (.ok w.fileSchema, ((p.ledger d).on d₂).setFile kind label w.fileSchema)
      | (.error f, d₂) => (.error f, (p.ledger d).on d₂) := by
  have hcreate : LabelWriter.create p.dir p.format kind label ((p.seeds.get kind).get? label)
      (p.ledger d).disk = ((p.fetch kind label d).1,
        { (p.fetch kind label d).2 with budget := { max := 0 } }) := by
    simp only [fetch, hnone]
    exact LabelWriter.create_withBudget _ _ _ _ _ d _
  have hcontains : p.kinds.contains kind = true := by simpa using hkind
  have hget : (p.ledger d).get kind label =
      match LabelWriter.create p.dir p.format kind label ((p.seeds.get kind).get? label)
        (p.ledger d).disk with
      | (.ok w, d₂) => (.ok w.fileSchema, ((p.ledger d).on d₂).setFile kind label w.fileSchema)
      | (.error f, d₂) => (.error f, (p.ledger d).on d₂) := by
    rw [Ledger.get, file?_ledger, hnone]
    exact if_pos hcontains
  rw [hget, hcreate]
  rcases p.fetch kind label d with ⟨_ | _, _⟩ <;> rfl

/-- A request of the pool is that request of the ledger. -/
theorem Requested.ledger {result : Except Failure LabelWriter}
    (hreq : p.Requested kind label d result p' d') (hkeyed : p.Keyed) (hbalanced : p.Balanced d)
    (hfiles : ∀ {kind label f}, (p.ledger d).file? kind label = some f →
      d.tree.isFile f.path = true) :
    (p.ledger d).get kind label = (result.map LabelWriter.fileSchema, p'.ledger d') := by
  have htick : p.tick.Keyed := hkeyed
  -- A file that was written before can be opened again.
  have hreopen : ∀ {p₁ d₁ w}, p.tick.Taken d p₁ d₁ → p.NeedsHandle kind label →
      p.writer? kind label = some w →
      p.fetch kind label d₁ = (.ok { w with isOpen := true }, d₁) := by
    intro p₁ d₁ w htaken hneeds hw
    have hfile : d₁.tree.isFile w.path = true := by
      rw [htaken.files.1]
      exact hfiles (f := w.fileSchema) (by rw [file?_ledger, hw]; rfl)
    simp [fetch, hw, LabelWriter.reopen, hneeds.1 w hw, hfile]
  cases hreq with
  | @ready w hw hopen =>
    obtain ⟨rfl, rfl⟩ := hkeyed hw
    have hsame : (p.tick.setWriter { w with lastUsed := p.tick.clock }).ledger d = p.ledger d :=
      ledger_setWriter_of_eq (p := p.tick) hw rfl
    rw [hsame, Ledger.get, file?_ledger, hw]
    rfl
  | barred hnone hkind =>
    have hcontains : ¬ p.kinds.contains kind = true := by simpa using hkind
    rw [Ledger.get, file?_ledger, hnone]
    exact if_neg hcontains
  | busy _ hwaits =>
    exact absurd hwaits (Balanced.not_waits (p := p.tick) ⟨hbalanced.count, hbalanced.bound⟩)
  | @refused _ d₁ d₂ f hneeds htaken hfetch =>
    cases hw : p.writer? kind label with
    | some w =>
      rw [hreopen htaken hneeds hw] at hfetch
      cases hfetch
    | none =>
      rw [htaken.fetch] at hfetch
      rcases hmade : p.fetch kind label d with ⟨made, d₃⟩
      rw [hmade] at hfetch
      cases hfetch
      have hsame : p'.ledger d₁ = p.ledger d := htaken.ledger htick
      rw [get_ledger_of_none hw (hneeds.2 hw), hmade, ← hsame]
      rfl
  | @served p₁ d₁ _ w hneeds htaken hfetch =>
    have hsame : p₁.ledger d₁ = p.ledger d := htaken.ledger htick
    cases hw : p.writer? kind label with
    | some v =>
      rw [hreopen htaken hneeds hw] at hfetch
      cases hfetch
      obtain ⟨rfl, rfl⟩ := hkeyed hw
      have hwriter : p₁.writer? v.kind v.label = some v := by
        rw [htaken.writer?_of_closed htick hneeds.1]
        exact hw
      have hused : (p₁.setWriter { v with isOpen := true, lastUsed := p₁.clock }).ledger d' =
          p₁.ledger d' := ledger_setWriter_of_eq hwriter rfl
      rw [hused, hsame, Ledger.get, file?_ledger, hw]
      rfl
    | none =>
      obtain ⟨-, rfl, rfl⟩ := hkeyed.fetch hfetch
      rw [htaken.fetch] at hfetch
      rcases hmade : p.fetch w.kind w.label d with ⟨made, d₃⟩
      rw [hmade] at hfetch
      cases hfetch
      rw [get_ledger_of_none hw (hneeds.2 hw), hmade, ledger_setWriter, ← hsame]
      rfl

/-- An act of the pool is that act of the ledger. -/
theorem act_ledger {a : PoolAct} {done : Except Failure Unit} (hact : p.act a d = (done, p', d'))
    (hkeyed : p.Keyed) (hbalanced : p.Balanced d)
    (hfiles : ∀ {kind label f}, (p.ledger d).file? kind label = some f →
      d.tree.isFile f.path = true) :
    (p.ledger d).act a = (done, p'.ledger d') ∧ p'.Balanced d' := by
  cases a with
  | seed kind schemas =>
    cases hact
    exact ⟨rfl, hbalanced.count, hbalanced.bound⟩
  | get kind label =>
    rcases hget : p.get kind label d with ⟨got, p₁, d₁⟩
    have hreq := requested hget
    simp only [act, hget, Prod.mk.injEq] at hact
    obtain ⟨rfl, rfl, rfl⟩ := hact
    refine ⟨?_, (hbalanced.requested hkeyed hreq).2⟩
    rw [Ledger.act, hreq.ledger hkeyed hbalanced hfiles]
    cases got <;> rfl
  | write kind label i =>
    rw [act_write] at hact
    rcases writeWith_cases hact with ⟨f, hget, rfl⟩ | ⟨w, p₁, d₁, hget, hwritten⟩
    · have hreq := requested hget
      refine ⟨?_, (hbalanced.requested hkeyed hreq).2⟩
      rw [Ledger.act, hreq.ledger hkeyed hbalanced hfiles]
      rfl
    · have hreq := requested hget
      obtain ⟨hw, hopen, rfl, rfl⟩ := hreq.writer? hkeyed
      obtain ⟨-, hbalanced₁⟩ := hbalanced.requested hkeyed hreq
      obtain ⟨hcount, hbudget⟩ := hwritten.openCount hw hopen
      refine ⟨?_, by rw [hbudget, hcount]; exact hbalanced₁.count,
        by rw [hbudget]; exact hbalanced₁.bound⟩
      have hwrite := Item.writeTo_of_isOpen hopen i
      rw [Ledger.act, hreq.ledger hkeyed hbalanced hfiles]
      simp only [Except.map, LabelWriter.fileSchema]
      cases hentry : i.entry w.format w.kind w.label w.schema with
      | error f =>
        rw [hentry] at hwrite
        cases hwritten with
        | failed hfail =>
          rw [hwrite] at hfail
          cases hfail
          rfl
        | done hdone =>
          rw [hwrite] at hdone
          cases hdone
      | ok e =>
        rw [hentry] at hwrite
        cases hwritten with
        | failed hfail =>
          rw [hwrite] at hfail
          cases hfail
        | done hdone =>
          rw [hwrite] at hdone
          cases hdone
          rw [ledger_setWriter]
          rfl

end

/-! ## Sessions -/

/-- What a pool does act by act, and how each act goes. -/
def play : List PoolAct → Pool → Disk → List (Except Failure Unit) × Pool × Disk
  | [], p, d => ([], p, d)
  | a :: rest, p, d =>
    let (done, p, d) := p.act a d
    let (results, p, d) := play rest p d
    (done :: results, p, d)

end Pool

/-- How the acts of a pool went, and what there is after it was closed. -/
structure Session where
  results : List (Except Failure Unit)
  fragments : PerKind Fragments
  tree : FileTree
  filesNamed : Nat

def Pool.session (p : Pool) (acts : List PoolAct) (d : Disk) : Session :=
  let (results, p, d) := p.play acts d
  let (fragments, _, d) := p.close d
  { results, fragments, tree := d.tree, filesNamed := d.filesNamed }

namespace Ledger

def play : List PoolAct → Ledger → List (Except Failure Unit) × Ledger
  | [], L => ([], L)
  | a :: rest, L => ((L.act a).1 :: (play rest (L.act a).2).1, (play rest (L.act a).2).2)

def session (L : Ledger) (acts : List PoolAct) : Session where
  results := (L.play acts).1
  fragments := (L.play acts).2.fragments
  tree := (L.play acts).2.tree
  filesNamed := (L.play acts).2.filesNamed

theorem length_play (acts : List PoolAct) (L : Ledger) : (L.play acts).1.length = acts.length := by
  induction acts generalizing L with
  | nil => rfl
  | cons a rest ih => rw [play, List.length_cons, ih, List.length_cons]

theorem Filed.play {base : Ledger} {log : PoolLog} {L : Ledger} (h : L.Filed base log)
    (acts : List PoolAct) : (L.play acts).2.Filed base (log ++ acts.zip (L.play acts).1) := by
  induction acts generalizing L log with
  | nil =>
    rw [List.zip_nil_left, List.append_nil]
    exact h
  | cons a rest ih =>
    have hnext := ih (h.act (a := a) rfl)
    rwa [List.append_assoc] at hnext

end Ledger

namespace Pool

/-- Whatever the pool does, it does to its files what the ledger shows. -/
theorem play_ledger (acts : List PoolAct) {p p' : Pool} {d d' : Disk}
    {results : List (Except Failure Unit)} {base : Ledger} {log : PoolLog} (hkeyed : p.Keyed)
    (hbalanced : p.Balanced d) (hfiled : (p.ledger d).Filed base log)
    (hplay : p.play acts d = (results, p', d')) :
    (p.ledger d).play acts = (results, p'.ledger d') := by
  induction acts generalizing p d results log with
  | nil =>
    cases hplay
    rfl
  | cons a rest ih =>
    rcases hact : p.act a d with ⟨done, p₁, d₁⟩
    rcases hrest : p₁.play rest d₁ with ⟨more, p₂, d₂⟩
    simp only [play, hact, hrest, Prod.mk.injEq] at hplay
    obtain ⟨rfl, rfl, rfl⟩ := hplay
    obtain ⟨hledger, hbalanced₁⟩ := act_ledger hact hkeyed hbalanced fun hf => by
      obtain ⟨-, text, -, htext, -⟩ := hfiled.file hf
      exact FileTree.isFile_of_get? htext
    have hfiled₁ := hfiled.act hledger
    rw [Ledger.play, hledger, ih (hkeyed.act hact) hbalanced₁ hfiled₁ hrest]

theorem fragments_close (p : Pool) (d : Disk) : (p.close d).1 = (p.ledger d).fragments := by
  have hvalues : ∀ m : SortedMap Label LabelWriter, fragmentsOf m =
      (m.mapValues fun _ w => w.fileSchema).values.foldl (fun F f => F.add f.path.text f) ∅ := by
    intro m
    rw [fragmentsOf, SortedMap.values, SortedMap.values, SortedMap.mapValues, List.foldl_map,
      List.foldl_map, List.foldl_map]
    rfl
  simp only [close, Ledger.fragments, ledger, PerKind.map, hvalues]

/-- A new pool has no files. -/
theorem filed_new (dir : Path) (format : Format) (kinds : List OutputKind) (d : Disk) :
    (ledger { dir, format, kinds } d).Filed (ledger { dir, format, kinds } d) [] := by
  have hnone : ∀ kind label, (ledger { dir, format, kinds } d).file? kind label = none := by
    intro kind label
    cases kind <;> rfl
  refine ⟨rfl, rfl, fun kind => by cases kind <;> rfl, fun hserved => ?_, fun hf => ?_,
    fun hf => ?_, fun hf => ?_, fun q _ => rfl⟩
  · simp [PoolLog.Serves] at hserved
  all_goals
    rw [hnone] at hf
    cases hf

theorem session_ledger (dir : Path) (format : Format) (kinds : List OutputKind)
    (acts : List PoolAct) (d : Disk) (h : Balanced { dir, format, kinds } d) :
    session { dir, format, kinds } acts d = (ledger { dir, format, kinds } d).session acts := by
  rcases hplay : play acts { dir, format, kinds } d with ⟨results, p', d'⟩
  have hledger :=
    play_ledger acts (keyed_new dir format kinds) h (filed_new dir format kinds d) hplay
  simp only [session, hplay, Ledger.session, hledger, ← fragments_close]
  rfl

end Pool

/-- Each kind and label has one file, which holds what was written for it in the order of the
writes. -/
structure Session.Complete (s : Session) (base : FileTree) (format : Format)
    (acts : List PoolAct) : Prop where
  answered : s.results.length = acts.length
  /-- Where nothing was asked for with success there may be no file. Otherwise there is one, whose
  first columns are those of a seed that was there before. -/
  file : ∀ kind label,
    let files := (s.fragments.get kind).filesOf label
    let items := PoolLog.items kind label (acts.zip s.results)
    (files.entries = [] ∧ ¬ PoolLog.Serves kind label (acts.zip s.results)) ∨
      ∃ f text before, files.entries = [(f.path.text, f)] ∧ f.format = format ∧
        s.tree.read? f.path = some text ∧
        (before <+: acts.zip s.results ∧ ¬ PoolLog.Serves kind label before) ∧
        (Content.start format kind label ((PoolLog.seeds kind before).get? label)).putAll
          format kind label items = .ok ⟨f.schema, text⟩ ∧
        f.schema.count = items.length
  distinct : ∀ {kind label id f kind' label' id' f'},
    (id, f) ∈ ((s.fragments.get kind).filesOf label).entries →
    (id', f') ∈ ((s.fragments.get kind').filesOf label').entries → f.path = f'.path →
      kind = kind' ∧ label = label'
  frame : ∀ q, (∀ kind label id f, (id, f) ∈ ((s.fragments.get kind).filesOf label).entries →
    f.path ≠ q) → s.tree.read? q = base.read? q

/-- What a ledger shows is complete. -/
theorem Ledger.complete_session {base : Ledger} (h : base.Filed base []) (acts : List PoolAct) :
    (base.session acts).Complete base.tree base.format acts := by
  have hfiled : (base.play acts).2.Filed base (acts.zip (base.play acts).1) := h.play acts
  have hentries : ∀ kind label,
      (((base.session acts).fragments.get kind).filesOf label).entries =
        (((base.play acts).2.file? kind label).map fun f => (f.path.text, f)).toList := by
    intro kind label
    rw [Ledger.session, hfiled.filesOf_fragments]
    cases (base.play acts).2.file? kind label <;> rfl
  have hmem : ∀ {kind label id f},
      (id, f) ∈ (((base.session acts).fragments.get kind).filesOf label).entries →
        (base.play acts).2.file? kind label = some f := by
    intro kind label id f hf
    rw [hentries] at hf
    cases hfile : (base.play acts).2.file? kind label with
    | none =>
      rw [hfile] at hf
      cases hf
    | some g =>
      rw [hfile] at hf
      cases List.mem_singleton.1 hf
      rfl
  refine ⟨length_play acts base, fun kind label => ?_,
    fun hf hf' => hfiled.distinct (hmem hf) (hmem hf'),
    fun q hq => hfiled.frame q fun kind label f hf => ?_⟩
  · cases hfile : (base.play acts).2.file? kind label with
    | none =>
      refine .inl ⟨?_, fun hserves => ?_⟩
      · rw [hentries, hfile]
        rfl
      · have := hfiled.served hserves
        rw [hfile] at this
        cases this
    | some f =>
      obtain ⟨hformat, text, before, htext, hbefore, hrows⟩ := hfiled.file hfile
      refine .inr ⟨f, text, before, ?_, hformat, FileTree.read?_eq_some.2 htext, hbefore, hrows,
        hfiled.count_schema hfile⟩
      rw [hentries, hfile]
      rfl
  · refine hq kind label f.path.text f ?_
    rw [hentries, hf]
    exact List.mem_singleton_self _

/-- The number of handles that a pool may have makes no difference to what it writes: the acts go
the same way, and files and fragments are the same, as without a bound. -/
theorem Pool.session_transparent (dir : Path) (format : Format) (kinds : List OutputKind)
    (tree : FileTree) (filesNamed : Nat) (acts : List PoolAct) (max : Nat) :
    let session := fun max => Pool.session { dir, format, kinds } acts ⟨tree, filesNamed, { max }⟩
    session max = session 0 ∧ (session max).Complete tree format acts := by
  intro session
  have hbalanced : ∀ max, Balanced { dir, format, kinds } ⟨tree, filesNamed, { max }⟩ :=
    fun max => ⟨rfl, .inr (Nat.zero_le _)⟩
  have hledger : ∀ max, session max =
      (Pool.ledger { dir, format, kinds } ⟨tree, filesNamed, { max := 0 }⟩).session acts :=
    fun max => Pool.session_ledger dir format kinds acts ⟨tree, filesNamed, { max }⟩ (hbalanced max)
  refine ⟨(hledger max).trans (hledger 0).symm, ?_⟩
  rw [hledger max]
  exact Ledger.complete_session (Pool.filed_new dir format kinds _) acts

/-- With one handle the first file is closed for the second and opened again after it. -/
example :
    let node (id tag : String) : PoolAct :=
      .write .nodes (.single tag) (.element (.node { id, tags := [tag], properties := .ofList [] }))
    let s := Pool.session { dir := .ofNames ["out"], format := .csv, kinds := [.nodes] }
      [node "1" "a", node "2" "b", node "3" "a"] ⟨∅, 0, { max := 1 }⟩
    s.tree.read? (.ofNames ["out", "nodes", "a-1.csv"]) = some "~id,~label\n1,a\n3,a\n" ∧
      s.tree.read? (.ofNames ["out", "nodes", "b-2.csv"]) = some "~id,~label\n2,b\n" := by
  decide +kernel

end GraphExport
