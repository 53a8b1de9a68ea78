import GraphExport.Proofs.Job.Output
import GraphExport.Proofs.Job.Stock

/-!
# GraphExport.Proofs.Job.Tables

The data files that the phases of a job write are tables under the headers of the schema.

* `Writes`: the files that were written, with their texts, and all others. `Writes.trans` puts one
  phase after another.
* `Reconciled.phase`, `Shelved.phase`: bringing a kind in line leaves tables.
* `FullExport.tables_exportAll`, `QueryExport.tables_drain`: so it is for what both jobs write, in
  every order of their workers' steps.
-/

namespace GraphExport

/-- A data file of a job, by what its path is made of. -/
structure DataFile where
  kind : OutputKind
  label : Label
  number : Nat

namespace DataFile

def path (dir : Path) (f : DataFile) : Path :=
  (dir.child f.kind.name).child (LabelWriter.fileNameOf f.label f.number .csv)

theorem kind_eq_of_path_eq {dir : Path} {f g : DataFile} (h : f.path dir = g.path dir) :
    f.kind = g.kind := by
  have hname := (Path.child_inj (Path.child_inj h).1).2
  revert hname
  cases f.kind <;> cases g.kind <;> decide

theorem path_ne_temporary (dir : Path) (f g : DataFile) : f.path dir ≠ (g.path dir).temporary := by
  intro h
  rw [path, path, Path.temporary_child] at h
  exact LabelWriter.fileNameOf_ne_temporary _ _ _ _ (Path.child_inj h).2

theorem path_eq_join (dir : Path) (f : DataFile) :
    f.path dir = dir.join ⟨[LabelWriter.fileNameOf f.label f.number .csv, f.kind.name], 2, rfl⟩ :=
  Path.ext_climb rfl

end DataFile

/-- The data files named by `left` have the texts that it gives them. Nothing else has changed, but
that a file may have gone whose name one of them had for a while. -/
structure Writes (dir : Path) (left : DataFile → String → Prop) (t t' : FileTree) : Prop where
  file : ∀ {f text}, left f text → t'.read? (f.path dir) = some text
  frame : ∀ q, (∀ f text, left f text → f.path dir ≠ q) → t'.read? q = t.read? q ∨
    ((∃ f text, left f text ∧ q = (f.path dir).temporary) ∧ t'.read? q = none)

namespace Writes

variable {dir : Path} {left left₁ left₂ : DataFile → String → Prop} {t t₁ t₂ : FileTree}

theorem read?_eq (h : Writes dir left t t₁) {f : DataFile}
    (hf : ∀ g text, left g text → g.path dir ≠ f.path dir) :
    t₁.read? (f.path dir) = t.read? (f.path dir) := by
  rcases h.frame _ hf with heq | ⟨⟨g, text, -, htemporary⟩, -⟩
  · exact heq
  · exact absurd htemporary (DataFile.path_ne_temporary dir f g)

theorem trans (h₁ : Writes dir left₁ t t₁) (h₂ : Writes dir left₂ t₁ t₂)
    (hkinds : ∀ f g text text', left₁ f text → left₂ g text' → g.kind ≠ f.kind) :
    Writes dir (fun f text => left₁ f text ∨ left₂ f text) t t₂ where
  file {f text} hf := by
    rcases hf with hf | hf
    · rw [h₂.read?_eq fun g text' hg heq =>
        hkinds f g text text' hf hg (DataFile.kind_eq_of_path_eq heq)]
      exact h₁.file hf
    · exact h₂.file hf
  frame q hq := by
    rcases h₂.frame q fun f text hf => hq f text (.inr hf) with heq | ⟨⟨f, text, hf, hq'⟩, hnone⟩
    · rcases h₁.frame q fun f text hf => hq f text (.inl hf) with
        heq' | ⟨⟨f, text, hf, hq'⟩, hnone⟩
      · exact .inl (heq.trans heq')
      · exact .inr ⟨⟨f, text, .inl hf, hq'⟩, heq.trans hnone⟩
    · exact .inr ⟨⟨f, text, .inr hf, hq'⟩, hnone⟩

theorem after (h : Writes dir left t₁ t₂)
    (hbefore : ∀ q, (∀ f text, left f text → f.path dir ≠ q) → t₁.read? q = t.read? q) :
    Writes dir left t t₂ where
  file := h.file
  frame q hq := by
    rw [← hbefore q hq]
    exact h.frame q hq

end Writes

/-- The texts are tables under the headers of the schema, and each label of the schema has one. -/
structure TablesOf (schema : GraphSchema) (left : DataFile → String → Prop) : Prop where
  table : ∀ {f text}, left f text → ∃ columns, (schema.get f.kind).get? f.label = some columns ∧
    IsTable (csvHeader f.kind f.label columns) text
  used : ∀ kind label columns, (schema.get kind).get? label = some columns →
    ∃ number text, left ⟨kind, label, number⟩ text

/-! ## A kind -/

/-- The files of a kind on the shelves, in line with the schemas. -/
def OnShelf (shelves : Nat → Shelf) (kind : OutputKind) (schemas : Collection) (f : DataFile)
    (text : String) : Prop :=
  f.kind = kind ∧ ∃ i s columns, shelves i kind f.label = some s ∧ s.number = f.number ∧
    schemas.get? f.label = some columns ∧
    text = (realigned? kind f.label columns s.book.schema s.book.text).getD s.book.text

/-- The files of a kind were written, as tables under the headers of these schemas. -/
structure PhaseDone (dir : Path) (kind : OutputKind) (schemas : Collection)
    (left : DataFile → String → Prop) (t t' : FileTree) : Prop where
  kind_eq : ∀ {f text}, left f text → f.kind = kind
  table : ∀ {f text}, left f text → ∃ columns, schemas.get? f.label = some columns ∧
    IsTable (csvHeader kind f.label columns) text
  used : ∀ {label columns}, schemas.get? label = some columns →
    ∃ number text, left ⟨kind, label, number⟩ text
  writes : Writes dir left t t'

/-- A text of the phase is a table under a header of a schema that has these schemas. -/
theorem PhaseDone.tableIn {dir : Path} {kind : OutputKind} {schemas : Collection}
    {left : DataFile → String → Prop} {t t' : FileTree} (h : PhaseDone dir kind schemas left t t')
    {f : DataFile} {text : String} (hf : left f text) {schema : GraphSchema}
    (hschema : schema.get kind = schemas) :
    ∃ columns, (schema.get f.kind).get? f.label = some columns ∧
      IsTable (csvHeader f.kind f.label columns) text := by
  rw [h.kind_eq hf, hschema]
  exact h.table hf

section Reconciled

variable {dir : Path} {kinds : List OutputKind} {base : FileTree} {shelves : Nat → Shelf} {d : Disk}
  {kind : OutputKind} {schemas : Collection} {t' : FileTree}

theorem Shelved.path_sheet (hs : Shelved dir kinds base shelves d) {i : Nat} {label : Label}
    {s : Sheet} (h : shelves i kind label = some s) :
    s.path dir = DataFile.path dir ⟨kind, label, s.number⟩ := by
  obtain ⟨hkind, hlabel, -⟩ := hs.placed h
  rw [Sheet.path, DataFile.path, hkind, hlabel]

theorem Reconciled.onShelf (h : Reconciled dir shelves kind schemas d.tree t') {i : Nat}
    {label : Label} {s : Sheet} (hsheet : shelves i kind label = some s) :
    ∃ text, OnShelf shelves kind schemas ⟨kind, label, s.number⟩ text := by
  obtain ⟨columns, hcolumns, -, -⟩ := h.file hsheet
  exact ⟨_, rfl, i, s, columns, hsheet, rfl, hcolumns, rfl⟩

theorem Reconciled.phase (h : Reconciled dir shelves kind schemas d.tree t')
    (hs : Shelved dir kinds base shelves d) :
    PhaseDone dir kind schemas (OnShelf shelves kind schemas) d.tree t' where
  kind_eq hf := hf.1
  table {f text} hf := by
    obtain ⟨-, i, s, columns, hsheet, -, hcolumns, rfl⟩ := hf
    obtain ⟨columns', hcolumns', hnames, -⟩ := h.file hsheet
    rw [hcolumns] at hcolumns'
    obtain rfl := Option.some.inj hcolumns'
    obtain ⟨hkind, hlabel, -⟩ := hs.placed hsheet
    have htable := Book.isTable_realigned (hs.fits hsheet) hnames
    rw [hkind, hlabel] at htable
    exact ⟨columns, hcolumns, htable⟩
  used hcolumns := by
    obtain ⟨⟨i, s, hsheet⟩, -⟩ := h.used hcolumns
    exact ⟨s.number, h.onShelf hsheet⟩
  writes := by
    refine ⟨fun {f text} hf => ?_, fun q hq => ?_⟩
    · obtain ⟨k, label, number⟩ := f
      obtain ⟨rfl, i, s, columns, hsheet, rfl, hcolumns, rfl⟩ := hf
      obtain ⟨columns', hcolumns', -, htext⟩ := h.file hsheet
      have heq := hcolumns'.symm.trans hcolumns
      obtain rfl := Option.some.inj heq
      have hread := FileTree.read?_eq_some.2 htext
      rw [hs.path_sheet hsheet] at hread
      exact hread
    · have hpath : ∀ i label s, shelves i kind label = some s → s.path dir ≠ q := by
        intro i label s hsheet
        obtain ⟨text, htext⟩ := h.onShelf hsheet
        rw [hs.path_sheet hsheet]
        exact hq _ text htext
      rcases h.frame q hpath with heq | ⟨⟨i, label, s, hsheet, hq'⟩, hnone⟩
      · exact .inl (FileTree.read?_congr heq)
      · obtain ⟨text, htext⟩ := h.onShelf hsheet
        refine .inr ⟨⟨⟨kind, label, s.number⟩, text, htext, ?_⟩, ?_⟩
        · rw [hq', hs.path_sheet hsheet]
        · rw [FileTree.read?, hnone]

/-- The shelves without the files of a kind. -/
def without (kind : OutputKind) (shelves : Nat → Shelf) : Nat → Shelf :=
  fun i k label => if k = kind then none else shelves i k label

theorem without_eq_some {k : OutputKind} {i : Nat} {label : Label} {s : Sheet} :
    without kind shelves i k label = some s ↔ k ≠ kind ∧ shelves i k label = some s := by
  unfold without
  split
  · rename_i hk
    simp [hk]
  · rename_i hk
    simp [hk]

theorem without_of_ne {k : OutputKind} (hk : k ≠ kind) (i : Nat) :
    without kind shelves i k = shelves i k := by
  funext label
  rw [without, if_neg hk]

/-- The files of the other kinds are as they were after a kind was brought in line. -/
theorem Reconciled.shelved (h : Reconciled dir shelves kind schemas d.tree t')
    (hs : Shelved dir kinds base shelves d) :
    Shelved dir kinds t' (without kind shelves) { d with tree := t' } where
  file {i k label s} hsheet := by
    obtain ⟨hk, hsheet⟩ := without_eq_some.1 hsheet
    have hne : ∀ j l s', shelves j kind l = some s' → s'.path dir ≠ s.path dir := by
      intro j l s' hsheet' heq
      rw [hs.path_sheet hsheet, hs.path_sheet hsheet'] at heq
      exact hk (DataFile.kind_eq_of_path_eq heq).symm
    rcases h.frame _ hne with heq | ⟨⟨j, l, s', -, htemporary⟩, -⟩
    · exact heq.trans (hs.file hsheet)
    · exact absurd htemporary (Sheet.path_ne_temporary dir s s')
  fits hsheet := hs.fits (without_eq_some.1 hsheet).2
  placed hsheet := hs.placed (without_eq_some.1 hsheet).2
  numbered hsheet := hs.numbered (without_eq_some.1 hsheet).2
  allowed hsheet := hs.allowed (without_eq_some.1 hsheet).2
  distinct hsheet hsheet' := hs.distinct (without_eq_some.1 hsheet).2 (without_eq_some.1 hsheet').2
  frame q _ := rfl

theorem Fragments.Accounts.congr {S S' : Shelf} {f : Fragments} (h : f.Accounts dir S kind)
    (hS : S' kind = S kind) : f.Accounts dir S' kind where
  nodup := h.nodup
  mem {id file} := by
    rw [hS]
    exact h.mem

theorem Fragments.accounts_map {left : List (PerKind Fragments)}
    (haccounts : ∀ (i : Nat) (fragments : PerKind Fragments), left[i]? = some fragments →
      (fragments.get kind).Accounts dir (shelves i) kind) (i : Nat) (f : Fragments)
    (hf : (left.map (·.get kind))[i]? = some f) : f.Accounts dir (shelves i) kind := by
  rw [List.getElem?_map, Option.map_eq_some_iff] at hf
  obtain ⟨fragments, hfragments, rfl⟩ := hf
  exact haccounts i fragments hfragments

theorem Fragments.bare_map {left : List (PerKind Fragments)}
    (hempty : ∀ i, left.length ≤ i → ∀ label, shelves i kind label = none) (i : Nat)
    (hi : (left.map (·.get kind)).length ≤ i) (label : Label) : shelves i kind label = none := by
  rw [List.length_map] at hi
  exact hempty i hi label

theorem Shelved.reconcileKind (hs : Shelved dir kinds base shelves d) (kind : OutputKind)
    {left : List (PerKind Fragments)} {context : String}
    (haccounts : ∀ (i : Nat) (fragments : PerKind Fragments), left[i]? = some fragments →
      (fragments.get kind).Accounts dir (shelves i) kind)
    (hempty : ∀ i, left.length ≤ i → ∀ label, shelves i kind label = none)
    (h : Job.reconcileKind .csv kind context (left.map (·.get kind)) d.tree = (.ok schemas, t')) :
    Reconciled dir shelves kind schemas d.tree t' := by
  unfold Job.reconcileKind at h
  rcases hr : GraphExport.reconcile .csv kind (.ofFragments (left.map (·.get kind))) d.tree with
    ⟨result, t₁⟩
  rw [hr] at h
  simp only [Prod.mk.injEq] at h
  obtain ⟨hresult, rfl⟩ := h
  obtain rfl := within_ok hresult
  exact hs.reconcile (Fragments.accounts_map haccounts) (Fragments.bare_map hempty) hr

theorem Shelved.phase (hs : Shelved dir [kind] base shelves d)
    (h : Reconciled dir shelves kind schemas d.tree t') :
    PhaseDone dir kind schemas (OnShelf shelves kind schemas) base t' :=
  { h.phase hs with
    writes := (h.phase hs).writes.after fun q hq => hs.frame q fun i k label s hsheet => by
      obtain rfl := List.mem_singleton.1 (hs.allowed hsheet)
      obtain ⟨text, htext⟩ := h.onShelf hsheet
      rw [hs.path_sheet hsheet]
      exact hq _ text htext }

/-- A kind that no job asks for. -/
theorem PhaseDone.nothing (dir : Path) (kind : OutputKind) (t : FileTree) :
    PhaseDone dir kind ∅ (fun _ _ => False) t t where
  kind_eq := False.elim
  table := False.elim
  used h := nomatch h
  writes := ⟨False.elim, fun _ _ => .inl rfl⟩

/-- The files of all kinds, one kind after the other. -/
theorem PhaseDone.tables {nodes edges results : Collection}
    {left₁ left₂ left₃ : DataFile → String → Prop} {t t₁ t₂ t₃ : FileTree}
    (h₁ : PhaseDone dir .nodes nodes left₁ t t₁) (h₂ : PhaseDone dir .edges edges left₂ t₁ t₂)
    (h₃ : PhaseDone dir .results results left₃ t₂ t₃) :
    TablesOf ⟨nodes, edges, results⟩ (fun f text => (left₁ f text ∨ left₂ f text) ∨ left₃ f text) ∧
      Writes dir (fun f text => (left₁ f text ∨ left₂ f text) ∨ left₃ f text) t t₃ := by
  refine ⟨⟨fun {f text} hf => ?_, fun kind label columns hcolumns => ?_⟩,
    (h₁.writes.trans h₂.writes fun f g _ _ hf hg => ?_).trans h₃.writes fun f g _ _ hf hg => ?_⟩
  · rcases hf with (hf | hf) | hf
    · exact h₁.tableIn hf rfl
    · exact h₂.tableIn hf rfl
    · exact h₃.tableIn hf rfl
  · cases kind with
    | nodes =>
      obtain ⟨number, text, hleft⟩ := h₁.used hcolumns
      exact ⟨number, text, .inl (.inl hleft)⟩
    | edges =>
      obtain ⟨number, text, hleft⟩ := h₂.used hcolumns
      exact ⟨number, text, .inl (.inr hleft)⟩
    | results =>
      obtain ⟨number, text, hleft⟩ := h₃.used hcolumns
      exact ⟨number, text, .inr hleft⟩
  · rw [h₁.kind_eq hf, h₂.kind_eq hg]
    decide
  · rw [h₃.kind_eq hg]
    rcases hf with hf | hf
    · rw [h₁.kind_eq hf]
      decide
    · rw [h₂.kind_eq hf]
      decide

end Reconciled

theorem Pool.holds_new (dir : Path) (kinds : List OutputKind) :
    Pool.Holds dir kinds { dir, format := .csv, kinds } Shelf.empty := by
  refine ⟨rfl, rfl, rfl, fun kind label s hs => ?_, fun {kind label w} hw => ?_, fun h => ?_⟩
  · cases kind <;> cases hs
  · cases kind <;> cases hw
  · cases h

/-! ## Full exports -/

namespace FullExport

variable {client : Client} {c : Config} {dir : Path} {shared shared' : Shared}

theorem holds_freshPool (dir : Path) (kind : OutputKind) (seed : Option Collection) :
    (freshPool dir .csv kind seed).Holds dir [kind] Shelf.empty := by
  unfold freshPool
  cases seed with
  | none => exact Pool.holds_new dir [kind]
  | some schemas => exact (Pool.holds_new dir [kind]).seedWith kind

theorem phase_writeKind {filter : LabelFilter} {turns : List Nat} {plan : Plan}
    {seed : Option Collection} {schemas : Collection} (hformat : c.format = .csv)
    (h : writeKind client c dir filter turns plan seed shared = (.ok schemas, shared')) :
    ∃ left, PhaseDone dir filter.kind.output schemas left shared.disk.tree shared'.disk.tree := by
  unfold writeKind at h
  rw [hformat] at h
  simp only at h
  split at h
  · cases h
  · rename_i fragments hfragments
    simp only [Prod.mk.injEq] at h
    obtain ⟨hresult, rfl⟩ := h
    obtain ⟨shelves, hs, haccounts, hempty⟩ := Crew.accounts_of_finish hfragments
      (writesFiles_export client filter filter.kind dir [filter.kind.output] shared.disk.tree)
      (holds_freshPool dir filter.kind.output seed)
    exact ⟨_, hs.phase (hs.reconcileKind filter.kind.output (fun i f hf => haccounts i f hf _)
      (fun i hi label => by rw [hempty i hi]; rfl) (Prod.ext hresult rfl))⟩

theorem phase_exportKind {filter : LabelFilter} {turns : Turns} {schemas : Collection}
    (hformat : c.format = .csv)
    (h : exportKind client c dir filter turns shared = (.ok schemas, shared')) :
    ∃ left, PhaseDone dir filter.kind.output schemas left shared.disk.tree shared'.disk.tree := by
  unfold exportKind at h
  split at h
  · cases h
  · split at h
    · split at h
      · cases h
      · exact phase_writeKind hformat h
    · exact phase_writeKind hformat h

theorem exportAll_ok {turns : ElementKind → Turns} {schema : GraphSchema}
    (h : exportAll client c dir turns shared = (.ok schema, shared')) :
    ∃ nodes edges shared₁,
      exportKind client c dir c.nodeFilter (turns .nodes) shared = (.ok nodes, shared₁) ∧
      exportKind client c dir c.edgeFilter (turns .edges) shared₁ = (.ok edges, shared') ∧
      schema = ⟨nodes, edges, ∅⟩ := by
  unfold exportAll at h
  split at h
  · cases h
  · rename_i nodes shared₁ hnodes
    split at h
    · cases h
    · rename_i edges shared₂ hedges
      cases h
      exact ⟨nodes, edges, shared₁, hnodes, hedges, rfl⟩

theorem work_ok {turns : ElementKind → Turns} {t t' : FileTree} {summary : Summary}
    (h : work client c turns dir t = (.ok summary, t')) :
    ∃ shared, exportAll client c dir turns { disk := ⟨t, 0, { max := c.maxHandles }⟩ } =
        (.ok summary.schema, shared) ∧
      Job.writeArtifacts dir summary.schema shared.stats shared.disk.tree = (.ok (), t') ∧
      summary.stats = shared.stats := by
  unfold work at h
  simp only at h
  split at h
  · cases h
  · rename_i schema shared hall
    split at h
    · cases h
    · rename_i t₁ hartifacts
      cases h
      exact ⟨shared, hall, hartifacts, rfl⟩

theorem tables_exportAll {turns : ElementKind → Turns} {schema : GraphSchema}
    (hformat : c.format = .csv) (hnodes : c.nodeFilter.kind = .nodes)
    (hedges : c.edgeFilter.kind = .edges)
    (h : exportAll client c dir turns shared = (.ok schema, shared')) :
    ∃ left, TablesOf schema left ∧ Writes dir left shared.disk.tree shared'.disk.tree := by
  obtain ⟨nodes, edges, shared₁, hn, he, rfl⟩ := exportAll_ok h
  obtain ⟨left₁, hdone₁⟩ := phase_exportKind hformat hn
  obtain ⟨left₂, hdone₂⟩ := phase_exportKind hformat he
  rw [hnodes] at hdone₁
  rw [hedges] at hdone₂
  exact ⟨_, hdone₁.tables hdone₂ (.nothing dir .results _)⟩

end FullExport

/-! ## Query exports -/

namespace QueryExport

variable {client : Client} {c : Config} {dir : Path}

theorem reconcileKinds_ok {format : Format} {left : List (PerKind Fragments)}
    {schema : GraphSchema} {t t' : FileTree}
    (h : reconcileKinds format left t = (.ok schema, t')) :
    ∃ t₁ t₂,
      Job.reconcileKind format .nodes "Failed to reconcile node files" (left.map (·.nodes)) t =
        (.ok schema.nodes, t₁) ∧
      Job.reconcileKind format .edges "Failed to reconcile edge files" (left.map (·.edges)) t₁ =
        (.ok schema.edges, t₂) ∧
      Job.reconcileKind format .results "Failed to reconcile result files"
        (left.map (·.results)) t₂ = (.ok schema.results, t') := by
  unfold reconcileKinds at h
  split at h
  · cases h
  · rename_i nodes t₁ hnodes
    split at h
    · cases h
    · rename_i edges t₂ hedges
      split at h
      · cases h
      · rename_i results t₃ hresults
        cases h
        exact ⟨t₁, t₂, hnodes, hedges, hresults⟩

theorem tables_reconcileKinds {kinds : List OutputKind} {base : FileTree} {shelves : Nat → Shelf}
    {d : Disk} {left : List (PerKind Fragments)} {schema : GraphSchema} {t' : FileTree}
    (hs : Shelved dir kinds base shelves d)
    (haccounts : ∀ (i : Nat) (fragments : PerKind Fragments), left[i]? = some fragments →
      ∀ kind, (fragments.get kind).Accounts dir (shelves i) kind)
    (hempty : ∀ i, left.length ≤ i → shelves i = Shelf.empty)
    (h : reconcileKinds .csv left d.tree = (.ok schema, t')) :
    ∃ left', TablesOf schema left' ∧ Writes dir left' base t' := by
  obtain ⟨t₁, t₂, hnodes, hedges, hresults⟩ := reconcileKinds_ok h
  -- The shelves as each of the three finds them.
  have hnone : ∀ {shelves' : Nat → Shelf} {kind : OutputKind},
      (∀ i, shelves' i kind = shelves i kind) →
        ∀ i, left.length ≤ i → ∀ label, shelves' i kind label = none := by
    intro shelves' kind heq i hi label
    rw [heq, hempty i hi]
    rfl
  have hedge : ∀ i, without .nodes shelves i .edges = shelves i .edges :=
    fun i => without_of_ne (by decide) i
  have hresult : ∀ i, without .edges (without .nodes shelves) i .results = shelves i .results :=
    fun i => (without_of_ne (by decide) i).trans (without_of_ne (by decide) i)
  have hn := hs.reconcileKind .nodes (fun i f hf => haccounts i f hf _)
    (hnone fun _ => rfl) hnodes
  have hs₁ := hn.shelved hs
  have he := hs₁.reconcileKind .edges
    (fun i f hf => (haccounts i f hf _).congr (hedge i)) (hnone hedge) hedges
  have hs₂ := he.shelved hs₁
  have hr := hs₂.reconcileKind .results
    (fun i f hf => (haccounts i f hf _).congr (hresult i)) (hnone hresult) hresults
  obtain ⟨htables, hwrites⟩ := (hn.phase hs).tables (he.phase hs₁) (hr.phase hs₂)
  refine ⟨_, htables, hwrites.after fun q hq => hs.frame q fun i kind label s hsheet => ?_⟩
  rw [hs.path_sheet hsheet]
  cases kind with
  | nodes =>
    obtain ⟨text, htext⟩ := hn.onShelf hsheet
    exact hq _ text (.inl (.inl htext))
  | edges =>
    obtain ⟨text, htext⟩ := he.onShelf ((hedge i).symm ▸ hsheet)
    exact hq _ text (.inl (.inr htext))
  | results =>
    obtain ⟨text, htext⟩ := hr.onShelf ((hresult i).symm ▸ hsheet)
    exact hq _ text (.inr htext)

theorem tables_drain {structured : Bool} {turns : List Nat} {queue : List NamedQuery} {disk : Disk}
    {left : List (PerKind Fragments)} {shared : Shared} {schema : GraphSchema} {t' : FileTree}
    (hformat : c.format = .csv)
    (hdrain : drain client c dir structured turns queue disk = (.ok left, shared))
    (h : reconcileKinds .csv left shared.disk.tree = (.ok schema, t')) :
    ∃ left', TablesOf schema left' ∧ Writes dir left' disk.tree t' := by
  unfold drain at hdrain
  rw [hformat] at hdrain
  simp only [Prod.mk.injEq] at hdrain
  obtain ⟨hleft, rfl⟩ := hdrain
  obtain ⟨shelves, hs, haccounts, hempty⟩ := Crew.accounts_of_finish hleft
    (writesFiles_query client c structured dir (kinds structured) disk.tree)
    (Pool.holds_new dir (kinds structured))
  exact tables_reconcileKinds hs haccounts hempty h

end QueryExport

end GraphExport
