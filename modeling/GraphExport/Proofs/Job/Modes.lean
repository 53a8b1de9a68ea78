import GraphExport.Proofs.Crew.InOrder
import GraphExport.Proofs.Job.Scanned
import GraphExport.Proofs.Job.TwoPass
import GraphExport.Proofs.Output.Columns

/-!
# GraphExport.Proofs.Job.Modes

One pass or two, by one worker. The source may deliver anything, so long as it delivers the same
each time it is asked.

* `Client.Streams`: the elements that a worker by itself streams; they do not depend on the mode.
* `LabelFilter.schemasOf`: the schemas that come of these elements in either mode.
  `FullExport.schema_runWith`: a job returns these.
* `LabelFilter.schemasOf_eq_iff`: the two modes agree if and only if the scan finds the same columns
  as the rows that are written.
* `FullExport.modes_agree_iff`: so it is for jobs. They agree where nothing is scanned that is
  passed over by the export, and the numbers of elements and of values agree in any case.
-/

namespace GraphExport

/-- The labels and properties under which elements are written. -/
def LabelFilter.writtenRows (filter : LabelFilter) (elements : List Element) :
    List (Label × PropertyMap) :=
  elements.filterMap (KindFilters.single filter).exported?

/-- The schemas that a scan finds. -/
def LabelFilter.found (filter : LabelFilter) (elements : List Element) : Collection :=
  Collection.updateAll ∅ false (filter.scannedRows elements)

/-- The schemas that come of the elements: in two passes, files start with the columns that the scan
has found. -/
def LabelFilter.schemasOf (filter : LabelFilter) (twoPass : Bool) (elements : List Element) :
    Collection :=
  let seed := if twoPass then filter.found elements else ∅
  seed.written (filter.writtenRows elements)

/-- The elements that a worker by itself streams. -/
def Client.Streams (client : Client) (filter : LabelFilter) (s : WindowSettings)
    (elements : List Element) : Prop :=
  ∃ plan windows, Plan.forFilter client filter s 1 = .ok plan ∧
    plan.Streams (fun w => (client.deliver filter filter.kind w).length) windows ∧
    elements = windows.flatMap (client.deliver filter filter.kind)

theorem Client.Streams.unique {client : Client} {filter : LabelFilter} {s : WindowSettings}
    {elements elements' : List Element} (h : client.Streams filter s elements)
    (h' : client.Streams filter s elements') : elements = elements' := by
  obtain ⟨plan, windows, hplan, hstreams, rfl⟩ := h
  obtain ⟨plan', windows', hplan', hstreams', rfl⟩ := h'
  rw [hplan] at hplan'
  obtain rfl := Except.ok.inj hplan'
  rw [hstreams.unique hstreams']

/-! ## What the elements make -/

namespace LabelFilter

variable {filter : LabelFilter} {elements : List Element} {label : Label}

theorem writtenRows_subset (filter : LabelFilter) (elements : List Element) :
    filter.writtenRows elements ⊆ filter.scannedRows elements := by
  intro row hrow
  obtain ⟨e, he, hexported⟩ := List.mem_filterMap.1 hrow
  exact List.mem_filterMap.2 ⟨e, he, KindFilters.scanned?_of_exported? hexported⟩

/-- Where nothing is scanned that the export passes over, the rows are those of the scan. -/
theorem writtenRows_eq_scannedRows
    (h : ∀ e ∈ elements, ((KindFilters.single filter).scanned? e).isSome → e.isPlaced = true) :
    filter.writtenRows elements = filter.scannedRows elements := by
  refine List.filterMap_congr fun e he => ?_
  rw [KindFilters.exported?_eq]
  split
  · rfl
  · rename_i hplaced
    cases hscanned : (KindFilters.single filter).scanned? e with
    | none => rfl
    | some row => exact absurd (h e he (by rw [hscanned]; rfl)) hplaced

theorem surveys_found (filter : LabelFilter) (elements : List Element) :
    (filter.found elements).Surveys false (filter.scannedRows elements) := by
  have := (Collection.surveys_empty false).updateAll (filter.scannedRows elements)
  rwa [List.nil_append] at this

/-- The scan has a schema for each label that is written, and it foresees the rows. -/
theorem exists_found (hrows : Collection.mapsOf label (filter.writtenRows elements) ≠ []) :
    ∃ s, (filter.found elements).get? label = some s ∧
      ∀ m ∈ Collection.mapsOf label (filter.writtenRows elements), s.Foresees false m := by
  have hsurveys := filter.surveys_found elements
  have hmem : ∀ m ∈ Collection.mapsOf label (filter.writtenRows elements),
      m ∈ Collection.mapsOf label (filter.scannedRows elements) := fun m hm =>
    Collection.mem_mapsOf.2 (writtenRows_subset filter elements (Collection.mem_mapsOf.1 hm))
  obtain ⟨m, hm⟩ := List.exists_mem_of_ne_nil _ hrows
  obtain ⟨s, hs⟩ := Option.isSome_iff_exists.1
    ((hsurveys.present label).2 (List.ne_nil_of_mem (hmem m hm)))
  exact ⟨s, hs, fun m hm => (hsurveys.schema hs).foresees (hmem m hm)⟩

theorem schemasOf_false (filter : LabelFilter) (elements : List Element) :
    filter.schemasOf false elements = Collection.updateAll ∅ false (filter.writtenRows elements) :=
  Collection.written_empty _

/-- The schemas of a label in one pass and in two, with the columns that the scan has found. -/
theorem get?_schemasOf (filter : LabelFilter) (elements : List Element) (label : Label) :
    let rows := Collection.mapsOf label (filter.writtenRows elements)
    (rows = [] ∧ ∀ twoPass, (filter.schemasOf twoPass elements).get? label = none) ∨
      (rows ≠ [] ∧
        (filter.schemasOf false elements).get? label =
          some (({ label } : LabelSchema).updateAll false rows) ∧
        ∃ s, (filter.found elements).get? label = some s ∧ (∀ m ∈ rows, s.Foresees false m) ∧
          (filter.schemasOf true elements).get? label =
            some (s.columnsOf.updateAll false rows)) := by
  intro rows
  by_cases hrows : rows = []
  · refine .inl ⟨hrows, fun twoPass => ?_⟩
    rw [schemasOf, Collection.get?_written, if_pos hrows]
  · obtain ⟨s, hs, hforesees⟩ := exists_found hrows
    refine .inr ⟨hrows, ?_, s, hs, hforesees, ?_⟩
    · rw [schemasOf, Collection.get?_written, if_neg hrows]
      rfl
    · rw [schemasOf, Collection.get?_written, if_neg hrows, Collection.firstOf, if_pos rfl, hs]
      rfl

/-- The two modes agree if and only if the scan has found the columns that the rows make, for each
label that is written. -/
theorem schemasOf_eq_iff (filter : LabelFilter) (elements : List Element) :
    filter.schemasOf true elements = filter.schemasOf false elements ↔
      ∀ label s, (filter.schemasOf false elements).get? label = some s →
        ((filter.found elements).get? label).map LabelSchema.columnsOf = some s.columnsOf := by
  constructor
  · intro heq label s hs
    rcases get?_schemasOf filter elements label with ⟨-, hnone⟩ | ⟨-, -, found, hfound, hall, htwo⟩
    · rw [hnone] at hs
      cases hs
    · rw [← heq, htwo, Option.some.injEq] at hs
      rw [hfound, Option.map_some, ← hs, LabelSchema.columnsOf_updateAll fun m hm =>
        (hall m hm).of_columnsOf_eq (LabelSchema.columnsOf_columnsOf _).symm,
        LabelSchema.columnsOf_columnsOf]
  · intro h
    refine SortedMap.ext_get? fun label => ?_
    rcases get?_schemasOf filter elements label with ⟨-, hnone⟩ | ⟨-, hone, found, hfound, -, htwo⟩
    · rw [hnone, hnone]
    · have hcolumns := h label _ hone
      rw [hfound, Option.map_some, Option.some.injEq] at hcolumns
      rw [hone, htwo, hcolumns, LabelSchema.updateAll_columnsOf]

/-- The numbers of elements and of values are the same in both modes. -/
theorem numbers_schemasOf (filter : LabelFilter) (elements : List Element) (label : Label) :
    ((filter.schemasOf true elements).get? label).map (fun s => (s.count, s.observed)) =
      ((filter.schemasOf false elements).get? label).map fun s => (s.count, s.observed) := by
  rcases get?_schemasOf filter elements label with ⟨-, hnone⟩ | ⟨-, hone, found, -, -, htwo⟩
  · rw [hnone, hnone]
  · rw [hone, htwo]
    refine congrArg some (Prod.ext ?_ (funext fun name => ?_))
    · dsimp only
      rw [LabelSchema.count_updateAll, LabelSchema.count_updateAll]
      rfl
    · dsimp only
      rw [(LabelSchema.numbers_updateAll _ _ _ name).1,
        (LabelSchema.numbers_updateAll _ _ _ name).1, (LabelSchema.numbers_columnsOf found name).1]
      rfl

end LabelFilter

/-! ## Duties -/

section Duties

variable {client : Client} {filter : LabelFilter}

theorem LabelFilter.scannedRows_append (filter : LabelFilter) (l l' : List Element) :
    filter.scannedRows (l ++ l') = filter.scannedRows l ++ filter.scannedRows l' :=
  List.filterMap_append

theorem LabelFilter.writtenRows_append (filter : LabelFilter) (l l' : List Element) :
    filter.writtenRows (l ++ l') = filter.writtenRows l ++ filter.writtenRows l' :=
  List.filterMap_append

/-- A worker that scans knows the rows of the windows that it has done. -/
theorem follows_scan (client : Client) (filter : LabelFilter) :
    (scanDuty client filter filter.kind).Follows
      (fun w => (client.deliver filter filter.kind w).length)
      fun windows g => g.get filter.kind.output =
        filter.found (windows.flatMap (client.deliver filter filter.kind)) where
  claim := rfl
  isLast := rfl
  perform := by
    intro number w g shared n g' shared' h
    obtain ⟨g₁, shared₁, hperform, hget⟩ := perform_scan client filter number w g shared
    have hhalted : ((scanDuty client filter filter.kind).perform number w g
        shared).2.2.progress.halted = shared.progress.halted :=
      Delivery.halted_feed (fun s : GraphSchema × Shared => s.2.progress)
        (progress_scanStep filter) _ (g, shared)
    rw [h] at hperform hhalted
    obtain ⟨houtcome, rfl, rfl⟩ := Prod.mk.inj hperform |>.imp_right Prod.mk.inj
    refine ⟨Delivery.outcome_ok (within_ok houtcome.symm), hhalted, fun done htells => ?_⟩
    rw [hget, htells, List.flatMap_append, List.flatMap_singleton, LabelFilter.found,
      LabelFilter.found, filter.scannedRows_append]
    exact (List.foldl_append ..).symm

/-- An element that is taken is passed over, or its row is written and counted. -/
theorem Station.put_ok {s s' : Station} {e : Element}
    (hput : s.put (.single filter) e = (.ok (), s')) :
    (filter.writtenRows [e] = [] ∧ s'.pool = s.pool ∧
      s'.shared.stats.labels = s.shared.stats.labels) ∨
    ∃ label properties disk, filter.writtenRows [e] = [(label, properties)] ∧
      e.properties = .ok properties ∧
      s.pool.writeElement filter.kind.output label e s.shared.disk = (.ok (), s'.pool, disk) ∧
      s'.shared.stats = s.shared.stats.record filter.kind.output label properties := by
  unfold Station.put at hput
  rw [LabelFilter.writtenRows, List.filterMap_cons, List.filterMap_nil]
  split at hput
  · rename_i hclassify
    have hnone : (KindFilters.single filter).exported? e = none := by
      rw [KindFilters.exported?, hclassify]
    obtain ⟨-, rfl⟩ := Prod.mk.inj hput
    rw [hnone]
    exact .inl ⟨rfl, rfl, rfl⟩
  · rename_i label properties hclassify
    have hsome := KindFilters.exported?_eq_some.2 hclassify
    have hscanned := KindFilters.scanned?_of_exported? hsome
    rw [KindFilters.kind_of_scanned? hscanned] at hput
    rcases hwrite : s.pool.writeElement filter.kind.output label e s.shared.disk with
      ⟨result, pool, disk⟩
    rw [hwrite] at hput
    cases result with
    | error f => cases hput
    | ok _ =>
      cases hput
      rw [hsome]
      have he := KindFilters.properties_of_scanned? hscanned
      exact .inr ⟨label, properties, disk, rfl, he, hwrite, rfl⟩
  · rename_i f hclassify
    have hnone : (KindFilters.single filter).exported? e = none := by
      rw [KindFilters.exported?, hclassify]
    split at hput
    · obtain ⟨-, rfl⟩ := Prod.mk.inj hput
      rw [hnone]
      exact .inl ⟨rfl, rfl, rfl⟩
    · cases hput

/-- An element that is taken adds its row, if it has one. -/
theorem Station.wrote_put {seed : Collection} {rows : List (Label × PropertyMap)} {s s' : Station}
    {e : Element} (h : s.pool.Wrote filter.kind.output seed rows)
    (hput : s.put (.single filter) e = (.ok (), s')) :
    s'.pool.Wrote filter.kind.output seed (rows ++ filter.writtenRows [e]) := by
  rcases Station.put_ok hput with ⟨hnone, hpool, -⟩ | ⟨label, m, disk, hrow, he, hwrite, -⟩
  · rw [hnone, List.append_nil, hpool]
    exact h
  · rw [hrow]
    exact h.writeElement he hwrite

/-- A window that is done well is put, element by element. -/
theorem perform_export_ok {number n : Nat} {w : Window} {pool pool' : Pool}
    {shared shared' : Shared}
    (h : (exportDuty client filter filter.kind).perform number w pool shared =
      (.ok n, pool', shared')) :
    n = (client.deliver filter filter.kind w).length ∧
      feed (fun e (s : Station) => s.tick.put (.single filter) e)
        (client.deliver filter filter.kind w) ⟨pool, shared⟩ = (.ok (), ⟨pool', shared'⟩) := by
  simp only [exportDuty, Prod.mk.injEq] at h
  obtain ⟨hresult, hpool, hshared⟩ := h
  rcases Delivery.feed_cases (client.elements (windowQuery filter.kind filter w))
    (fun e (s : Station) => s.tick.put (.single filter) e) ⟨pool, shared⟩ with
    ⟨s', hd, hfeed, -⟩ | ⟨f, hd⟩
  · rw [hd] at hresult hpool hshared
    subst hpool hshared
    exact ⟨(Except.ok.inj (within_ok hresult)).symm, hfeed⟩
  · rw [hd] at hresult
    cases within_ok hresult

/-- What every element adds to is added to by the elements of a window. -/
theorem feed_put_keeps {P : List (Label × PropertyMap) → Station → Prop}
    (htick : ∀ {rows s}, P rows s → P rows s.tick)
    (hput : ∀ {rows s e s'}, P rows s → s.put (.single filter) e = (.ok (), s') →
      P (rows ++ filter.writtenRows [e]) s')
    {done : List Window} {w : Window} {s s' : Station}
    (h : P (filter.writtenRows (done.flatMap (client.deliver filter filter.kind))) s)
    (hfeed : feed (fun e (s : Station) => s.tick.put (.single filter) e)
      (client.deliver filter filter.kind w) s = (.ok (), s')) :
    P (filter.writtenRows ((done ++ [w]).flatMap (client.deliver filter filter.kind))) s' := by
  rw [List.flatMap_append, List.flatMap_singleton]
  refine feed_ok_keeps (P := fun elements s => P (filter.writtenRows elements) s)
    (fun e elements s s' hs hs' => ?_) _ h hfeed
  rw [filter.writtenRows_append]
  exact hput (htick hs) hs'

/-- A worker that writes has written the rows of the windows that it has done. -/
theorem follows_export (client : Client) (filter : LabelFilter) (seed : Collection) :
    (exportDuty client filter filter.kind).Follows
      (fun w => (client.deliver filter filter.kind w).length)
      fun windows pool => pool.Wrote filter.kind.output seed
        (filter.writtenRows (windows.flatMap (client.deliver filter filter.kind))) where
  claim := rfl
  isLast := rfl
  perform := by
    intro number w pool shared n pool' shared' h
    have hhalted : ((exportDuty client filter filter.kind).perform number w pool
        shared).2.2.progress.halted = shared.progress.halted :=
      Delivery.halted_feed (fun s : Station => s.shared.progress)
        (fun e s => Station.progress_put _ e s.tick) _ ⟨pool, shared⟩
    rw [h] at hhalted
    obtain ⟨hcount, hfeed⟩ := perform_export_ok h
    exact ⟨hcount, hhalted, fun done htells =>
      feed_put_keeps (P := fun rows s => s.pool.Wrote filter.kind.output seed rows) id
        (fun hs hput => Station.wrote_put hs hput) (s := ⟨pool, shared⟩) htells hfeed⟩

end Duties

/-! ## Phases -/

namespace FullExport

section Phase

variable {client : Client} {c : Config} {filter : LabelFilter} {dir : Path} {plan : Plan}
  {shared shared' : Shared} {schemas : Collection}

/-- A worker by itself that has scanned its plan has the schemas of what it has streamed. -/
theorem scanKind_streams {turns : List Nat} (halone : plan.workers = 1)
    (h : scanKind client filter filter.kind turns plan shared = .ok schemas) :
    ∃ windows, plan.Streams (fun w => (client.deliver filter filter.kind w).length) windows ∧
      schemas = filter.found (windows.flatMap (client.deliver filter filter.kind)) := by
  obtain ⟨steps, left, hresults, rfl⟩ := scanKind_ok h
  rw [halone] at hresults
  have hempty : GraphSchema.empty.get filter.kind.output =
      filter.found ([].flatMap (client.deliver filter filter.kind)) := by
    cases filter.kind <;> rfl
  obtain ⟨windows, g, shared', hstreams, hget, rfl⟩ :=
    Crew.streams_of_results (follows_scan client filter) hempty plan shared steps hresults
  refine ⟨windows, hstreams, ?_⟩
  show (∅ : Collection).union (g.get filter.kind.output) = _
  rw [hget]
  exact Collection.empty_union (filter.surveys_found _).label

theorem wrote_freshPool (dir : Path) (format : Format) (kind : OutputKind)
    {seed : Option Collection} (hseed : (seed.getD ∅).Labelled) :
    (freshPool dir format kind seed).Wrote kind (seed.getD ∅) [] := by
  have hnone : ∀ k l, (freshPool dir format kind seed).writer? k l = none := by
    intro k l
    cases seed <;> cases k <;> rfl
  refine ⟨fun k l w hw => ?_, ?_, fun l => ?_⟩
  · rw [hnone] at hw
    cases hw
  · have hempty : PerKind.get (PerKind.fill (∅ : Collection)) kind = ∅ := by cases kind <;> rfl
    cases seed with
    | none => exact hempty
    | some schemas =>
      simp only [freshPool, Pool.seedWith, PerKind.modify, PerKind.get_set_self, hempty]
      exact Collection.empty_union fun {l s} hs => hseed l s hs
  · rw [Pool.schema?, hnone]
    rfl

/-- A worker by itself that has written its plan has the schemas of the rows of what it has
streamed. -/
theorem writeKind_streams {turns : List Nat} {seed : Option Collection} (halone : plan.workers = 1)
    (h : writeKind client c dir filter turns plan seed shared = (.ok schemas, shared'))
    (hseed : (seed.getD ∅).Labelled)
    (hproper : ∀ label s, (seed.getD ∅).get? label = some s → s.Proper) :
    ∃ windows, plan.Streams (fun w => (client.deliver filter filter.kind w).length) windows ∧
      schemas = (seed.getD ∅).written
        (filter.writtenRows (windows.flatMap (client.deliver filter filter.kind))) := by
  obtain ⟨steps, hsteps⟩ := workedOff_eq_play client c dir filter turns plan seed shared
  rw [writeKind_eq, hsteps, halone] at h
  dsimp only at h
  split at h
  · cases h
  · rename_i left hresults
    obtain ⟨windows, pool, shared₁, hstreams, hwrote, rfl⟩ :=
      Crew.streams_of_results (follows_export client filter (seed.getD ∅))
        (wrote_freshPool dir c.format filter.kind.output hseed) plan shared _ hresults
    have hresult := within_ok (Prod.mk.inj h).1
    have hschemas := schemas_reconcile (Prod.ext hresult rfl)
    exact ⟨windows, hstreams, hschemas.trans (hwrote.schemas_close hseed hproper shared₁.disk)⟩

theorem exportKind_streams {turns : Turns} (halone : c.workers = 1)
    (h : exportKind client c dir filter turns shared = (.ok schemas, shared')) :
    ∃ elements, client.Streams filter c.windows elements ∧
      schemas = filter.schemasOf c.twoPass elements := by
  unfold exportKind at h
  split at h
  · cases h
  · rename_i plan hplan
    rw [halone] at hplan
    have hone := Plan.workers_forFilter hplan
    split at h
    · rename_i htwo
      split at h
      · cases h
      · rename_i seed hscan
        obtain ⟨windows, hstreams, rfl⟩ := scanKind_streams hone hscan
        have hsurveys := filter.surveys_found
          (windows.flatMap (client.deliver filter filter.kind))
        obtain ⟨windows', hstreams', rfl⟩ := writeKind_streams hone h
          (fun label s hs => hsurveys.label hs) fun label s hs => (hsurveys.schema hs).proper
        obtain rfl := hstreams.unique hstreams'
        exact ⟨_, ⟨plan, windows, hplan, hstreams, rfl⟩, by rw [htwo]; rfl⟩
    · rename_i hone'
      obtain ⟨windows, hstreams, rfl⟩ := writeKind_streams hone h
        Collection.labelled_empty fun label s hs => nomatch hs
      rw [Bool.not_eq_true] at hone'
      exact ⟨_, ⟨plan, windows, hplan, hstreams, rfl⟩, by rw [hone']; rfl⟩

/-- The schema that a job with one worker returns. -/
theorem schema_runWith {turns : ElementKind → Turns} {t t' : FileTree} {summary : Summary}
    (halone : c.workers = 1) (h : runWith client c turns t = (.ok summary, t')) :
    ∃ elements : ElementKind → List Element,
      (∀ kind, client.Streams (c.filter kind) c.windows (elements kind)) ∧
      summary.schema = ⟨c.nodeFilter.schemasOf c.twoPass (elements .nodes),
        c.edgeFilter.schemasOf c.twoPass (elements .edges), ∅⟩ := by
  unfold runWith at h
  split at h
  · cases h
  · obtain ⟨place, t₁, view, inside, -, hwork, -⟩ := Job.inOutput_ok h
    obtain ⟨shared, hall, -⟩ := work_ok hwork
    obtain ⟨nodes, edges, shared₁, hnodes, hedges, hschema⟩ := exportAll_ok hall
    obtain ⟨nodeElements, hnodeElements, rfl⟩ := exportKind_streams halone hnodes
    obtain ⟨edgeElements, hedgeElements, rfl⟩ := exportKind_streams halone hedges
    refine ⟨fun kind => if kind = .nodes then nodeElements else edgeElements, fun kind => ?_,
      hschema⟩
    cases kind with
    | nodes => exact hnodeElements
    | edges => exact hedgeElements

end Phase

/-- One worker streams the same elements in both modes, and returns the schemas that come of them.
The modes agree if and only if the scan finds the same columns as the rows that are written. It does
so where nothing that is scanned is passed over by the export. The numbers of elements and of values
are the same in any case. -/
theorem modes_agree_iff {client : Client} {c : Config} {turns turns' : ElementKind → Turns}
    {t t₁ t' t₂ : FileTree} {once twice : Summary} (halone : c.workers = 1)
    (honce : runWith client { c with twoPass := false } turns t = (.ok once, t₁))
    (htwice : runWith client { c with twoPass := true } turns' t' = (.ok twice, t₂)) :
    ∃ elements : ElementKind → List Element,
      (∀ kind, client.Streams (c.filter kind) c.windows (elements kind)) ∧
      (∀ kind, once.schema.get kind.output = (c.filter kind).schemasOf false (elements kind)) ∧
      (∀ kind, twice.schema.get kind.output = (c.filter kind).schemasOf true (elements kind)) ∧
      (twice.schema = once.schema ↔ ∀ (kind : ElementKind) (label : Label) (s : LabelSchema),
        (once.schema.get kind.output).get? label = some s →
          (((c.filter kind).found (elements kind)).get? label).map LabelSchema.columnsOf =
            some s.columnsOf) ∧
      ((∀ kind, ∀ e ∈ elements kind,
        ((KindFilters.single (c.filter kind)).scanned? e).isSome → e.isPlaced = true) →
          twice.schema = once.schema) ∧
      ∀ (kind : ElementKind) (label : Label),
        ((twice.schema.get kind.output).get? label).map (fun s => (s.count, s.observed)) =
          ((once.schema.get kind.output).get? label).map fun s => (s.count, s.observed) := by
  obtain ⟨elements, hstreams, hone⟩ :=
    schema_runWith (c := { c with twoPass := false }) halone honce
  obtain ⟨elements', hstreams', htwo⟩ :=
    schema_runWith (c := { c with twoPass := true }) halone htwice
  have hsame : elements' = elements := funext fun kind => (hstreams' kind).unique (hstreams kind)
  subst hsame
  have hget : ∀ {twoPass : Bool} {schema : GraphSchema},
      schema = ⟨c.nodeFilter.schemasOf twoPass (elements' .nodes),
        c.edgeFilter.schemasOf twoPass (elements' .edges), ∅⟩ →
      ∀ kind : ElementKind,
        schema.get kind.output = (c.filter kind).schemasOf twoPass (elements' kind) := by
    rintro twoPass schema rfl kind
    cases kind <;> rfl
  have hiff : twice.schema = once.schema ↔ ∀ kind,
      (c.filter kind).schemasOf true (elements' kind) =
        (c.filter kind).schemasOf false (elements' kind) := by
    constructor
    · intro heq kind
      rw [← hget htwo, ← hget hone, heq]
    · intro heq
      have hnodes := heq .nodes
      have hedges := heq .edges
      simp only [Config.filter] at hnodes hedges
      rw [htwo, hone, hnodes, hedges]
  refine ⟨elements', hstreams, hget hone, hget htwo, ?_, fun hplaced => ?_, fun kind label => ?_⟩
  · simp only [hiff, LabelFilter.schemasOf_eq_iff, hget hone]
  · refine hiff.2 fun kind => ((c.filter kind).schemasOf_eq_iff _).2 fun label s hs => ?_
    rw [LabelFilter.schemasOf_false, LabelFilter.writtenRows_eq_scannedRows (hplaced kind)] at hs
    rw [LabelFilter.found, hs, Option.map_some]
  · rw [hget hone, hget htwo]
    exact (c.filter kind).numbers_schemasOf (elements' kind) label

/-- A node without an id before a node. -/
def strayNodes : List Element :=
  [.projected .nodes (.ofList [("~label", .str "t"), ("properties", .obj [("q", .str "x")])]),
    .node { id := "1", tags := ["t"], properties := .ofList [("p", .str "y")] }]

/-- The scan finds a column of the node that is passed over. -/
theorem modes_agree_iff_stray_nodes :
    let client := Client.scripted (some 2) strayNodes [] []
    let c : Config := { dir := ⟨.ofNames [], ["out"]⟩, workers := 1 }
    ∃ once t₁ twice t₂,
      runWith client { c with twoPass := false } (fun _ => {}) ∅ = (.ok once, t₁) ∧
      runWith client { c with twoPass := true } (fun _ => {}) ∅ = (.ok twice, t₂) ∧
      (once.schema.nodes.get? (.single "t")).map LabelSchema.names = some ["p"] ∧
      (twice.schema.nodes.get? (.single "t")).map LabelSchema.names = some ["q", "p"] ∧
      ∃ elements : ElementKind → List Element,
        (∀ kind, client.Streams (c.filter kind) c.windows (elements kind)) ∧
        (∀ kind, once.schema.get kind.output = (c.filter kind).schemasOf false (elements kind)) ∧
        ∀ kind, twice.schema.get kind.output = (c.filter kind).schemasOf true (elements kind) := by
  intro client c
  have honce : ((runWith client { c with twoPass := false } (fun _ => {}) ∅).1.toOption.bind
      fun summary => (summary.schema.nodes.get? (.single "t")).map LabelSchema.names) =
        some ["p"] := by decide +kernel
  have htwice : ((runWith client { c with twoPass := true } (fun _ => {}) ∅).1.toOption.bind
      fun summary => (summary.schema.nodes.get? (.single "t")).map LabelSchema.names) =
        some ["q", "p"] := by decide +kernel
  rcases hone : runWith client { c with twoPass := false } (fun _ => {}) ∅ with ⟨result, t₁⟩
  rcases htwo : runWith client { c with twoPass := true } (fun _ => {}) ∅ with ⟨result', t₂⟩
  rw [hone] at honce
  rw [htwo] at htwice
  obtain ⟨once, hok, honce⟩ := Option.bind_eq_some_iff.1 honce
  obtain ⟨twice, hok', htwice⟩ := Option.bind_eq_some_iff.1 htwice
  obtain rfl := eq_ok_of_toOption hok
  obtain rfl := eq_ok_of_toOption hok'
  obtain ⟨elements, hstreams, hschemas, hschemas', -⟩ := modes_agree_iff rfl hone htwo
  exact ⟨once, t₁, twice, t₂, rfl, rfl, honce, htwice, elements, hstreams, hschemas, hschemas'⟩

end FullExport

end GraphExport
