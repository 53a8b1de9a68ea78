import GraphExport.Proofs.Job.Filed
import GraphExport.Proofs.Job.Finished
import GraphExport.Proofs.Output.DataRows

/-!
# GraphExport.Proofs.Job.Rows

An export of a graph by one worker: which files it leaves, and what is in them.

* `FullExport.writeKind_fed`: a phase is what its worker does when it is fed the wanted elements.
* `FullExport.writeKind_alone`, `FullExport.exportKind_alone`: a phase writes the rows that are to
  be exported, unless the file system fails.
* `FullExport.exports_rows`: the job leaves one file for each label, with one row for each element,
  unless the rewrite of a file loses a byte order mark.
-/

namespace GraphExport

namespace FullExport

section Phase

variable {client : Client} {c : Config} {dir : Path} {filter : LabelFilter} {items : List Element}
  {shared shared' : Shared} {result : Except Failure Collection}

theorem filed_start (dir : Path) (kind : OutputKind) (shared : Shared)
    (hclosed : shared.disk.budget.openCount = 0) :
    Station.Filed dir kind shared.disk.tree shared.disk.filesNamed []
      ⟨freshPool dir .csv kind none, shared⟩ where
  stocked := by
    have hempty : alone (filed kind shared.disk.filesNamed []) = fun _ => Shelf.empty := by
      funext i
      rw [filed_nil, alone]
      split <;> rfl
    rw [hempty]
    exact ⟨Shelved.start dir [kind] shared.disk, holds_freshPool dir kind none⟩
  unseeded := rfl
  count := rfl
  balanced := by
    refine ⟨hclosed, .inr ?_⟩
    show shared.disk.budget.openCount ≤ _
    rw [hclosed]
    exact Nat.zero_le _

/-- A phase of one worker ends as the worker does when it is fed the elements of the plan, if only
the file system fails. The worker closes its files, and then they are brought in line. -/
theorem writeKind_fed
    (hclient : ∀ w : Window,
      client.elements (windowQuery filter.kind filter w) = { items := w.slice items })
    {plan : Plan} (hplan : plan.Sound) (hworkers : plan.workers = 1) {seed : Option Collection}
    {fed : Except Failure Unit} {st : Station}
    (hfed : feed (Worker.exportStep filter) (plan.rest items)
      ⟨freshPool dir c.format filter.kind.output seed, { shared with progress := {} }⟩ = (fed, st))
    (honly : OnlyIo fed)
    (h : writeKind client c dir filter [] plan seed shared = (result, shared')) :
    (∀ f, fed = .error f → ∃ g, result = .error g ∧ g.cause = .io) ∧
    (fed = .ok () → ∃ progress,
      let closed := st.pool.close st.shared.disk
      let aligned := Job.reconcileKind c.format filter.kind.output
        ("Failed to reconcile " ++ filter.kind.name ++ " files")
        [closed.1.get filter.kind.output] closed.2.2.tree
      result = aligned.1 ∧
        shared' = ⟨{ closed.2.2 with tree := aligned.2 }, st.shared.stats, progress⟩) := by
  have hprogress : { shared with progress := ({} : Progress) }.progress.halted = false := rfl
  have hrun := Worker.run_alone hclient plan.windowsLeft hplan (Nat.le_refl _)
    (freshPool dir c.format filter.kind.output seed) hprogress 0
  rw [hfed] at hrun
  obtain ⟨hfails, hends⟩ := Crew.ends_alone hrun honly
  unfold writeKind at h
  simp only [Crew.play_nil, hworkers] at h
  cases fed with
  | error f =>
    obtain ⟨g, hresults, hcause⟩ := hfails f rfl
    rw [hresults] at h
    cases h
    exact ⟨fun _ _ => ⟨g, rfl, hcause⟩, nofun⟩
  | ok _ =>
    obtain ⟨hresults, progress, hshared⟩ := hends rfl
    rw [hresults, hshared] at h
    cases h
    exact ⟨nofun, fun _ => ⟨progress, rfl, rfl⟩⟩

theorem writeKind_alone
    (hclient : ∀ w : Window,
      client.elements (windowQuery filter.kind filter w) = { items := w.slice items })
    (hitems : ∀ e ∈ items, e.IsWhole ∧ e.kind = filter.kind) {plan : Plan} (hplan : plan.Sound)
    (hworkers : plan.workers = 1) (hformat : c.format = .csv)
    (hclosed : shared.disk.budget.openCount = 0)
    (h : writeKind client c dir filter [] plan none shared = (result, shared')) :
    OnlyIo result ∧ ∀ schemas, result = .ok schemas → PhaseOf dir filter.kind.output
      ((plan.rest items).filterMap filter.rowOf?) schemas shared.disk shared'.disk := by
  obtain ⟨honly, hfiled⟩ := Station.feed_filed
    (fun e he => hitems e (Plan.mem_of_mem_rest he))
    (filed_start dir filter.kind.output { shared with progress := {} } hclosed)
  rcases hfeed : feed (Worker.exportStep filter) (plan.rest items)
    ⟨freshPool dir .csv filter.kind.output none, { shared with progress := {} }⟩ with ⟨fed, st⟩
  rw [hfeed] at honly hfiled
  obtain ⟨hfails, hends⟩ :=
    writeKind_fed hclient hplan hworkers (by rw [hformat]; exact hfeed) honly h
  cases fed with
  | error f =>
    obtain ⟨g, rfl, hcause⟩ := hfails f rfl
    exact ⟨onlyIo_error hcause, fun _ hok => nomatch hok⟩
  | ok _ =>
    obtain ⟨progress, hresult, rfl⟩ := hends rfl
    rw [hformat] at hresult ⊢
    have hst := hfiled rfl
    rw [List.nil_append] at hst
    refine ⟨by rw [hresult]; exact reconcileKind_onlyIo _ _ _ _ _, fun schemas hok => ?_⟩
    rw [hok] at hresult
    -- The worker accounts for its files, so they are all brought in line.
    have haccounts : ∀ (i : Nat) (fragments : PerKind Fragments),
        [(st.pool.close st.shared.disk).1][i]? = some fragments →
          (fragments.get filter.kind.output).Accounts dir
            (alone (filed filter.kind.output shared.disk.filesNamed
              ((plan.rest items).filterMap filter.rowOf?)) i) filter.kind.output := by
      intro i fragments hi
      cases i with
      | zero =>
        obtain rfl := Option.some.inj hi
        exact Pool.accounts_close hst.stocked.shelved hst.stocked.holds _
      | succ i => cases hi
    have hreconciled := hst.stocked.shelved.reconcileKind filter.kind.output haccounts
      (fun i hi label => by
        rw [alone, if_neg (by rintro rfl; cases hi)]
        rfl) (Prod.ext hresult.symm rfl)
    obtain ⟨hwrites, hschema⟩ := hreconciled.made hst.stocked.shelved
    exact ⟨hwrites, hschema, hst.count, hst.balanced.close⟩

end Phase

section Whole

variable {g : Graph} {c : Config} {dir : Path} {filter : LabelFilter} {shared shared' : Shared}

theorem exportKind_alone {turns : Turns} {result : Except Failure Collection}
    (hformat : c.format = .csv) (hpass : c.twoPass = false) (hworkers : c.workers = 1)
    (hfit : (c.windows.skip + c.windows.limit.getD 0 : Nat) ≤ maxWord) (hturns : turns.write = [])
    (hclosed : shared.disk.budget.openCount = 0)
    (h : exportKind g.client c dir filter turns shared = (result, shared')) :
    OnlyIo result ∧ ∀ schemas, result = .ok schemas → PhaseOf dir filter.kind.output
      (g.exportedRows filter c.windows.skip c.windows.limit) schemas shared.disk shared'.disk := by
  obtain ⟨plan, hplan⟩ := g.exists_forFilter filter c.windows 1
  obtain ⟨hsound, hrest⟩ := Plan.rest_forFilter hfit hplan
  unfold exportKind at h
  rw [hworkers, hplan] at h
  simp only [hpass, Bool.false_eq_true, if_false, hturns] at h
  have hphase := writeKind_alone (g.elements_windowQuery filter)
    (fun _ he => Graph.matching_whole he) hsound (Plan.workers_forFilter hplan) hformat hclosed h
  rw [hrest] at hphase
  exact hphase

end Whole

end FullExport

/-! ## The job -/

namespace Config

/-- The rows of a kind that the settings ask for. -/
def exportedRows (c : Config) (g : Graph) : OutputKind → List (Label × WrittenRow)
  | .nodes => g.exportedRows c.nodeFilter c.windows.skip c.windows.limit
  | .edges => g.exportedRows c.edgeFilter c.windows.skip c.windows.limit
  | .results => []

/-- The files that are numbered before those of a kind: the node files come first. -/
def filesBefore (c : Config) (g : Graph) : OutputKind → Nat
  | .edges => (labelsOf (c.exportedRows g .nodes)).length
  | _ => 0

/-- The files that the settings ask for: one for each label of a row. -/
def Exports (c : Config) (g : Graph) (f : DataFile) (text : String) : Prop :=
  Made f.kind (c.filesBefore g f.kind) (c.exportedRows g f.kind) f text

theorem exports_iff {c : Config} {g : Graph} {f : DataFile} {text : String} :
    c.Exports g f text ↔ Made .nodes 0 (c.exportedRows g .nodes) f text ∨
      Made .edges (c.filesBefore g .edges) (c.exportedRows g .edges) f text := by
  have hkind : ∀ {kind named rows}, Made kind named rows f text → f.kind = kind := by
    rintro kind named rows ⟨-, hf, -⟩
    rw [hf]
  constructor
  · intro h
    unfold Exports at h
    cases hf : f.kind with
    | nodes =>
      rw [hf] at h
      exact .inl h
    | edges =>
      rw [hf] at h
      exact .inr h
    | results =>
      rw [hf] at h
      cases h.1
  · rintro (h | h)
    · rw [Exports, hkind h]
      exact h
    · rw [Exports, hkind h]
      exact h

/-- The schema that an export of the rows returns. -/
def Describes (c : Config) (g : Graph) (schema : GraphSchema) : Prop :=
  ∀ kind label, (schema.get kind).get? label =
    if label ∈ labelsOf (c.exportedRows g kind) then
      some (columnsFor kind label (c.exportedRows g kind))
    else none

section Records

variable {c : Config} {g : Graph} {kind : OutputKind} {label : Label} {r : WrittenRow}

/-- Rows to be exported have all structural cells, and there are none of a result. -/
theorem fits_exportedRows (hvalid : c.validate = .ok ())
    (h : (label, r) ∈ c.exportedRows g kind) : r.Fits kind label ∧ kind ≠ .results := by
  obtain ⟨hnodes, hedges⟩ := kinds_of_validate hvalid
  have hfits : ∀ {filter : LabelFilter}, filter.kind.output = kind →
      (label, r) ∈ g.exportedRows filter c.windows.skip c.windows.limit →
        r.Fits kind label ∧ kind ≠ .results := by
    rintro filter rfl hmem
    obtain ⟨e, he, hkind, rfl⟩ := Graph.mem_exportedRows hmem
    rw [← hkind]
    exact ⟨WrittenRow.fits_ofElement (Station.output_ne_results e.kind) (ofElement_whole he label),
      Station.output_ne_results e.kind⟩
  cases kind with
  | nodes => exact hfits (by rw [hnodes]; rfl) h
  | edges => exact hfits (by rw [hedges]; rfl) h
  | results => cases h

theorem mem_rowsOf {rows : List (Label × WrittenRow)} :
    r ∈ rowsOf label rows ↔ (label, r) ∈ rows := by
  simp [rowsOf, and_comm]

/-- The file of a label reads as one record for each of its rows, with a cell for each column of the
returned schema, unless the rewrite loses a byte order mark. -/
theorem records_exports (hvalid : c.validate = .ok ()) {f : DataFile} {text : String}
    (h : c.Exports g f text) :
    let rows := c.exportedRows g f.kind
    let columns := columnsFor f.kind f.label rows
    Csv.records text.toList =
        csvHeader f.kind f.label columns :: (rowsOf f.label rows).map (·.record columns) ↔
      ¬ (bookOf f.kind f.label rows).LosesMark columns := by
  intro rows columns
  obtain ⟨hlabel, -, htext⟩ := h
  have hmem : ∃ r, (f.label, r) ∈ rows := by
    rw [labelsOf, List.mem_eraseDups, List.mem_map] at hlabel
    obtain ⟨⟨_, r⟩, hr, rfl⟩ := hlabel
    exact ⟨r, hr⟩
  have hkind : f.kind ≠ .results := (fits_exportedRows hvalid hmem.choose_spec).2
  have hfits : (bookOf f.kind f.label rows).Fits := fun r hr =>
    (fits_exportedRows hvalid (mem_rowsOf.1 hr)).1
  have hnames : (bookOf f.kind f.label rows).schema.names ⊆ columns.names := fun name hname =>
    LabelSchema.mem_names_union.2 (.inr hname)
  have hnames' : columns.names ⊆ (bookOf f.kind f.label rows).schema.names := fun name hname => by
    rcases LabelSchema.mem_names_union.1 hname with hname | hname
    · cases hname
    · exact hname
  have hstructural : 0 < (structuralColumns f.kind f.label).length := by
    cases hk : f.kind with
    | nodes => exact Nat.zero_lt_succ _
    | edges =>
      unfold structuralColumns
      simp only
      split
      · exact Nat.zero_lt_succ _
      · exact Nat.zero_lt_succ _
    | results => exact absurd hk hkind
  have htable : IsTable (csvHeader f.kind f.label columns) text := by
    rw [htext]
    exact Book.isTable_realigned hfits hnames
  have hseed : (bookOf f.kind f.label rows).Unseeded := rfl
  have haligned := Book.realigned_eq_aligned hfits hseed hnames
  rw [Book.alignedText_of_update hkind hseed hnames'] at haligned
  rw [htable.records_eq_iff (startsWithMark_header hkind f.label columns) (fun hnil => ?_)
    fun record hrecord hnil => ?_, htext]
  · exact haligned
  · have := congrArg List.length hnil
    rw [length_csvHeader] at this
    simp only [List.length_nil] at this
    omega
  · obtain ⟨r, hr, rfl⟩ := List.mem_map.1 hrecord
    have hlength := hfits r hr
    have := congrArg List.length hnil
    rw [WrittenRow.length_record, hlength] at this
    simp only [bookOf, List.length_nil] at this
    omega

end Records

end Config

theorem writeArtifact_onlyIo (path : Path) (v : Json) (t : FileTree) :
    OnlyIo (writeArtifact path v t).1 := by
  unfold writeArtifact
  simp only
  split
  · exact onlyIo_error (f := ⟨.io, _⟩) rfl
  · split
    · exact onlyIo_error (f := ⟨.io, _⟩) rfl
    · exact onlyIo_ok _

theorem Job.writeArtifacts_onlyIo (dir : Path) (schema : GraphSchema) (stats : Stats)
    (t : FileTree) : OnlyIo (Job.writeArtifacts dir schema stats t).1 := by
  have hschema := writeArtifact_onlyIo (dir.child "schema.json") schema.toJson t
  unfold Job.writeArtifacts
  split
  · rename_i f t₁ hfails
    rw [hfails] at hschema
    exact onlyIo_error (hschema f rfl)
  · exact writeArtifact_onlyIo _ _ _

namespace FullExport

variable {g : Graph} {c : Config} {dir : Path} {turns : ElementKind → Turns}

theorem exportAll_alone {shared shared' : Shared} {result : Except Failure GraphSchema}
    (hvalid : c.validate = .ok ()) (hformat : c.format = .csv) (hpass : c.twoPass = false)
    (hworkers : c.workers = 1) (hfit : (c.windows.skip + c.windows.limit.getD 0 : Nat) ≤ maxWord)
    (hturns : ∀ kind, (turns kind).write = []) (hnamed : shared.disk.filesNamed = 0)
    (hclosed : shared.disk.budget.openCount = 0)
    (h : exportAll g.client c dir turns shared = (result, shared')) :
    OnlyIo result ∧ ∀ schema, result = .ok schema →
      Writes dir (c.Exports g) shared.disk.tree shared'.disk.tree ∧ c.Describes g schema := by
  obtain ⟨hnodes, hedges⟩ := Config.kinds_of_validate hvalid
  unfold exportAll at h
  rcases hn : exportKind g.client c dir c.nodeFilter (turns .nodes) shared with ⟨rn, shared₁⟩
  obtain ⟨hionly, hphase⟩ := exportKind_alone hformat hpass hworkers hfit (hturns _) hclosed hn
  rw [hn] at h
  cases rn with
  | error f =>
    cases h
    exact ⟨onlyIo_error (hionly f rfl), fun _ hok => nomatch hok⟩
  | ok nodes =>
    have dn := hphase nodes rfl
    rcases he : exportKind g.client c dir c.edgeFilter (turns .edges) shared₁ with ⟨re, shared₂⟩
    obtain ⟨heonly, hphase'⟩ :=
      exportKind_alone hformat hpass hworkers hfit (hturns _) dn.closed he
    simp only [he] at h
    cases re with
    | error f =>
      cases h
      exact ⟨onlyIo_error (heonly f rfl), fun _ hok => nomatch hok⟩
    | ok edges =>
      have de := hphase' edges rfl
      cases h
      refine ⟨onlyIo_ok _, fun schema hok => ?_⟩
      cases hok
      rw [hnodes] at dn
      rw [hedges] at de
      have hbefore : shared₁.disk.filesNamed = c.filesBefore g .edges := by
        rw [dn.count, hnamed, Nat.zero_add]
        rfl
      have hwrites := dn.writes.trans de.writes fun f f' _ _ hf hf' => by
        rw [hf.2.1, hf'.2.1]
        show OutputKind.edges ≠ .nodes
        decide
      rw [hnamed, hbefore] at hwrites
      refine ⟨?_, fun kind label => ?_⟩
      · rw [show c.Exports g = _ from funext fun f => funext fun text => propext Config.exports_iff]
        exact hwrites
      · cases kind with
        | nodes => exact dn.schema label
        | edges => exact de.schema label
        | results => exact SortedMap.get?_empty _

theorem work_alone {t t' : FileTree} {result : Except Failure Summary}
    (hvalid : c.validate = .ok ()) (hformat : c.format = .csv) (hpass : c.twoPass = false)
    (hworkers : c.workers = 1) (hfit : (c.windows.skip + c.windows.limit.getD 0 : Nat) ≤ maxWord)
    (hturns : ∀ kind, (turns kind).write = [])
    (h : work g.client c turns dir t = (result, t')) :
    OnlyIo result ∧ ∀ summary, result = .ok summary →
      Leaves dir (c.Exports g) t t' ∧ c.Describes g summary.schema := by
  unfold work at h
  simp only at h
  rcases hall : exportAll g.client c dir turns { disk := ⟨t, 0, { max := c.maxHandles }⟩ } with
    ⟨exported, shared⟩
  obtain ⟨honly, hexported⟩ :=
    exportAll_alone hvalid hformat hpass hworkers hfit hturns rfl rfl hall
  rw [hall] at h
  cases exported with
  | error f =>
    cases h
    exact ⟨onlyIo_error (honly f rfl), fun _ hok => nomatch hok⟩
  | ok schema =>
    obtain ⟨hwrites, hschema⟩ := hexported schema rfl
    have hartifacts := Job.writeArtifacts_onlyIo dir schema shared.stats shared.disk.tree
    rcases ha : Job.writeArtifacts dir schema shared.stats shared.disk.tree with ⟨written, t₁⟩
    rw [ha] at hartifacts
    simp only [ha] at h
    cases written with
    | error f =>
      cases h
      exact ⟨onlyIo_error (hartifacts f rfl), fun _ hok => nomatch hok⟩
    | ok _ =>
      cases h
      refine ⟨onlyIo_ok _, fun summary hok => ?_⟩
      cases hok
      exact ⟨hwrites.leaves ha, hschema⟩

/-- One worker leaves one file for each label of an element that is to be exported, and no other,
whatever the windows are. The file has one record for each such element, in the order of the source,
exactly where the rewrite loses no byte order mark. -/
theorem exports_rows {t t' : FileTree} {result : Except Failure Summary}
    (hvalid : c.validate = .ok ()) (hformat : c.format = .csv) (hpass : c.twoPass = false)
    (hworkers : c.workers = 1) (hfit : (c.windows.skip + c.windows.limit.getD 0 : Nat) ≤ maxWord)
    (h : FullExport.run g.client c t = (result, t'))
    (hfiles : ∀ f, result = .error f → f.cause ≠ .io) :
    ∃ summary place t₁, result = .ok summary ∧ t.openWay c.dir = some (place, t₁) ∧
      c.Describes g summary.schema ∧ Leaves place (c.Exports g) t t' ∧
      ∀ f text, c.Exports g f text →
        let rows := c.exportedRows g f.kind
        let columns := columnsFor f.kind f.label rows
        (Csv.records text.toList =
            csvHeader f.kind f.label columns :: (rowsOf f.label rows).map (·.record columns) ↔
          ¬ (bookOf f.kind f.label rows).LosesMark columns) := by
  unfold FullExport.run runWith at h
  rw [hvalid] at h
  simp only at h
  cases result with
  | error f =>
    -- Whatever fails is a file operation.
    refine absurd ?_ (hfiles f rfl)
    unfold Job.inOutput at h
    split at h
    · simp only [Prod.mk.injEq, Except.error.injEq] at h
      rw [← h.1]
    · rename_i place t₁ hway
      rcases hwork : work g.client c (fun _ => {}) c.dir.home (t₁.view place c.dir.home) with
        ⟨result, inside⟩
      rw [hwork] at h
      cases h
      exact (work_alone hvalid hformat hpass hworkers hfit (fun _ => rfl) hwork).1 f rfl
  | ok summary =>
    obtain ⟨place, t₁, view, inside, hway, hinside, hview, hafter, hframe⟩ := Job.inOutput_ok h
    obtain ⟨hleaves, hschema⟩ :=
      (work_alone hvalid hformat hpass hworkers hfit (fun _ => rfl) hinside).2 summary rfl
    exact ⟨summary, place, t₁, rfl, hway, hschema, hleaves.inOutput hview hafter hframe,
      fun f text hexports => Config.records_exports hvalid hexports⟩

def markedGraph : Graph where
  nodes := [{ id := "\uFEFF1", tags := ["t"], properties := .ofList [("p", .str "x")] }]
  edges := []

/-- The first id of a file is cut short if it begins with a byte order mark. -/
theorem exports_rows_marked_graph :
    let c : Config := { dir := ⟨.ofNames [], ["out"]⟩, workers := 1 }
    let rows := c.exportedRows markedGraph .nodes
    let columns := columnsFor .nodes (.single "t") rows
    ∃ summary t', FullExport.run markedGraph.client c ∅ = (.ok summary, t') ∧
      ∃ text, t'.read? (.ofNames ["out", "nodes", "t-1.csv"]) = some text ∧
        Csv.records text.toList ≠ csvHeader .nodes (.single "t") columns ::
          (rowsOf (.single "t") rows).map (·.record columns) := by
  intro c rows columns
  have hok : (FullExport.run markedGraph.client c ∅).1.toOption.isSome = true := by decide +kernel
  rcases hrun : FullExport.run markedGraph.client c ∅ with ⟨result, t'⟩
  rw [hrun] at hok
  cases result with
  | error f => cases hok
  | ok summary =>
    obtain ⟨_, place, t₁, -, hway, -, hleaves, hrecords⟩ :=
      exports_rows (c := c) rfl rfl rfl rfl (by decide) hrun (fun f hf => nomatch hf)
    have hplace : place = .ofNames ["out"] := by
      have hout : (FileTree.openWay ∅ c.dir).map (·.1) = some (.ofNames ["out"]) := by
        decide +kernel
      rw [hway] at hout
      exact Option.some.inj hout
    subst hplace
    have hnumber : numberOf 0 rows (.single "t") = 1 := by decide +kernel
    have hexports : c.Exports markedGraph ⟨.nodes, .single "t", 1⟩
        (textFor .nodes (.single "t") rows) :=
      ⟨by decide +kernel, by rw [← hnumber]; rfl, rfl⟩
    have hfile : DataFile.path (.ofNames ["out"]) ⟨.nodes, .single "t", 1⟩ =
        .ofNames ["out", "nodes", "t-1.csv"] := by decide +kernel
    refine ⟨summary, t', rfl, _, by rw [← hfile]; exact hleaves.file hexports, fun hread => ?_⟩
    exact (hrecords _ _ hexports).1 hread ⟨by decide +kernel, _, _, rfl, by decide +kernel⟩

end FullExport

end GraphExport
