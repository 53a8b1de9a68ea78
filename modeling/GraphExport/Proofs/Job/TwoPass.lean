import GraphExport.Proofs.Job.Finished
import GraphExport.Proofs.Job.Scanned
import GraphExport.Proofs.Job.Settled

/-!
# GraphExport.Proofs.Job.TwoPass

Exports in two passes: what the scan has found is above all that a writer sees later.

* `Book.HasColumns`: a file has had its columns from its first line on.
* `Pool.SeededWith`: the files of a worker started with scanned columns, and only rows that these
  foresee were written to them. `Pool.lasting_seededWith`: it lasts.
* `FullExport.seeded_stocked`: so it is for all workers at every moment of every order of their
  steps.
* `FullExport.two_pass_columns`: every file has had the columns of the final schema of its label
  from its first line on. `FullExport.two_pass_reconcile`: there is nothing to bring in line.
-/

namespace GraphExport

/-! ## Books -/

/-- The file has had the columns of the schema from its first line on: the header is that of the
schema, and no row has added a column, widened a type, or brought the first list to a column. -/
structure Book.HasColumns (b : Book) (columns : LabelSchema) : Prop where
  header : b.header = csvHeader b.kind b.label columns
  rows : ∀ rows, rows <+: b.rows → ({ b with rows } : Book).schema.sameColumns columns = true

/-- The file started with the columns of the schema, and these foresee its rows. -/
structure Book.Foreseen (b : Book) (columns : LabelSchema) : Prop where
  seed : b.seed = columns.columnsOf
  rows : ∀ r ∈ b.rows, columns.Foresees false r.properties

namespace Book

variable {b : Book} {columns canonical : LabelSchema}

theorem schema_eq_updateAll (hkind : b.kind ≠ .results) :
    b.schema = b.seed.updateAll false (b.rows.map (·.properties)) := by
  have hgrow : WrittenRow.grow b.kind = fun s r => s.update r.properties false := by
    funext s r
    simp [WrittenRow.grow, hkind]
  rw [schema, LabelSchema.updateAll, List.foldl_map, hgrow]

/-- The rows have changed no column. -/
theorem Foreseen.columnsOf_schema (h : b.Foreseen columns) (hkind : b.kind ≠ .results) :
    b.schema.columnsOf = columns.columnsOf := by
  have hseed : b.seed.columnsOf = columns.columnsOf := by
    rw [h.seed, LabelSchema.columnsOf_columnsOf]
  rw [schema_eq_updateAll hkind, LabelSchema.columnsOf_updateAll fun m hm => ?_, hseed]
  obtain ⟨r, hr, rfl⟩ := List.mem_map.1 hm
  exact (h.rows r hr).of_columnsOf_eq hseed.symm

theorem Foreseen.add (h : b.Foreseen columns) {r : WrittenRow}
    (hr : columns.Foresees false r.properties) : (b.add r).Foreseen columns where
  seed := h.seed
  rows r' hr' := by
    rcases List.mem_append.1 hr' with hold | hnew
    · exact h.rows r' hold
    · rwa [List.mem_singleton.1 hnew]

theorem Foreseen.hasColumns (h : b.Foreseen columns) (hkind : b.kind ≠ .results)
    (hcanonical : canonical.columnsOf = columns.columnsOf) : b.HasColumns canonical where
  header := by
    rw [header, h.seed, ← hcanonical, LabelSchema.csvHeader_columnsOf]
  rows rows hrows := by
    have hbefore : ({ b with rows } : Book).Foreseen columns :=
      ⟨h.seed, fun r hr => h.rows r (hrows.subset hr)⟩
    exact LabelSchema.sameColumns_of_columnsOf_eq
      ((hbefore.columnsOf_schema hkind).trans hcanonical.symm)

/-- Nothing is to be changed in a file that has the columns, if its header is one line. -/
theorem HasColumns.realigned?_eq_none (h : b.HasColumns canonical) (hline : canonical.OneLine)
    (file : LabelSchema) : realigned? b.kind b.label canonical file b.text = none := by
  rw [realigned?_eq_none_iff b.text_ne_empty, toList_text,
    Csv.throughFirst_of_mem (Csv.lineFeed_mem_line _), h.header, throughFirst_csvHeader_iff]
  exact hline

end Book

/-! ## Workers -/

namespace Pool

/-- Files of the kind start with the columns of the seed, and the rows of those on the shelf were
foreseen. -/
structure SeededWith (kind : OutputKind) (seed : Collection) (p : Pool) (S : Shelf) : Prop where
  seeds : p.seeds.get kind = seed
  sheet : ∀ {label : Label} {s : Sheet}, S kind label = some s →
    ∃ columns, seed.get? label = some columns ∧ s.book.Foreseen columns

/-- The seed foresees the row. -/
def SeedForesees (kind : OutputKind) (seed : Collection) (k : OutputKind) (label : Label)
    (m : PropertyMap) : Prop :=
  k = kind ∧ ∃ columns, seed.get? label = some columns ∧ columns.Foresees false m

theorem lasting_seededWith (kind : OutputKind) (seed : Collection) :
    Lasting (SeededWith kind seed) (SeedForesees kind seed) where
  settings hsettings h := ⟨by rw [hsettings.2]; exact h.seeds, h.sheet⟩
  opened {p S k label m n} h hrow hnone := by
    obtain ⟨rfl, columns, hcolumns, -⟩ := hrow
    refine ⟨h.seeds, fun {l s} hs => ?_⟩
    rcases Shelf.set_eq_some hs with ⟨-, rfl, rfl⟩ | ⟨-, hold⟩
    · refine ⟨columns, hcolumns, ?_, fun r hr => nomatch hr⟩
      simp only [newBook, h.seeds, hcolumns, Option.map_some, Option.getD_some]
    · exact h.sheet hold
  row {p S k label s r} h hsheet hrow := by
    obtain ⟨rfl, columns, hcolumns, hforesees⟩ := hrow
    refine ⟨h.seeds, fun {l s'} hs' => ?_⟩
    rcases Shelf.set_eq_some hs' with ⟨-, rfl, rfl⟩ | ⟨-, hold⟩
    · obtain ⟨columns', hcolumns', hbook⟩ := h.sheet hsheet
      rw [hcolumns] at hcolumns'
      obtain rfl := Option.some.inj hcolumns'
      exact ⟨columns, hcolumns, hbook.add hforesees⟩
    · exact h.sheet hold

end Pool

/-- A schema that tells of a row foresees it. -/
theorem Pool.seedForesees_of_surveys {kind : OutputKind} {seed : Collection}
    {rows : List (Label × PropertyMap)} (h : seed.Surveys false rows) {label : Label}
    {m : PropertyMap} (hrow : (label, m) ∈ rows) : SeedForesees kind seed kind label m := by
  have hmaps := Collection.mem_mapsOf.2 hrow
  obtain ⟨columns, hcolumns⟩ :=
    Option.isSome_iff_exists.1 ((h.present label).2 (List.ne_nil_of_mem hmaps))
  exact ⟨rfl, columns, hcolumns, (h.schema hcolumns).foresees hmaps⟩

namespace FullExport

section Workers

variable {client : Client} {filter : LabelFilter} {items : List Element} {skip : Nat}
  {limit : Option Nat} {seed : Collection} {rows : List (Label × PropertyMap)}

theorem seededWith_freshPool (hseed : seed.Surveys false rows) (dir : Path) (kind : OutputKind) :
    Pool.SeededWith kind seed (freshPool dir .csv kind (some seed)) Shelf.empty := by
  refine ⟨?_, fun hs => nomatch hs⟩
  have hempty : PerKind.get (PerKind.fill (∅ : Collection)) kind = ∅ := by cases kind <;> rfl
  simp only [freshPool, Pool.seedWith, PerKind.modify, PerKind.get_set_self, hempty]
  exact Collection.empty_union hseed.label

/-- At every moment of every order of the workers' steps their files have started with scanned
columns, and no row was a surprise. -/
theorem seeded_stocked (hclient : ∀ w : Window, client.elements (windowQuery filter.kind filter w) =
      { items := w.slice items })
    (hfit : (skip + limit.getD 0 : Nat) ≤ maxWord) (hseed : seed.Surveys false rows)
    (hrows : ∀ e, IsWanted skip limit items e → ∀ row,
      (KindFilters.single filter).scanned? e = some row → row ∈ rows)
    (kind : ElementKind) (width : Int) (estimate workers : Nat) (dir : Path) (shared : Shared)
    (turns : List Nat) :
    let plan := Plan.make kind width skip limit estimate workers
    ((Crew.start plan.workers (freshPool dir .csv filter.kind.output (some seed)) plan
        { shared with progress := {} }).play (exportDuty client filter filter.kind) turns).Stocked
      dir [filter.kind.output] shared.disk.tree (Pool.SeededWith filter.kind.output seed) := by
  intro plan
  have hdeliver : ∀ w, client.deliver filter filter.kind w = w.slice items :=
    fun w => congrArg Delivery.items (hclient w)
  have hhands := Crew.handsOut_of_ready (streamsWindows_export hclient) hdeliver hfit turns
    (Crew.ready_start plan.workers (freshPool dir .csv filter.kind.output (some seed)) plan shared)
  have hduty := writesFiles_export_of_lasting client filter filter.kind dir [filter.kind.output]
    shared.disk.tree
    (fun w => ∀ e ∈ client.deliver filter filter.kind w, IsWanted skip limit items e)
    (Pool.lasting_seededWith filter.kind.output seed) fun w hw e he label properties hexported => by
      have hscanned := KindFilters.scanned?_of_exported? hexported
      rw [KindFilters.kind_of_scanned? hscanned]
      exact Pool.seedForesees_of_surveys hseed (hrows e (hw e he) _ hscanned)
  refine Crew.stocked_play hduty turns (fun piece hpiece e he => ?_)
    (Crew.stocked_start (holds_freshPool dir filter.kind.output (some seed))
      (seededWith_freshPool hseed dir filter.kind.output) plan.workers plan
      { shared with progress := {} })
  obtain ⟨i, hi, hitem⟩ := hhands.mem_delivered.1 (List.mem_flatMap.2 ⟨piece, hpiece, he⟩)
  exact ⟨i, hhands.wanted hi, hitem⟩

/-- The workers of a phase take their steps in some order. -/
theorem workedOff_eq_play (client : Client) (c : Config) (dir : Path) (filter : LabelFilter)
    (turns : List Nat) (plan : Plan) (seed : Option Collection) (shared : Shared) :
    ∃ steps, workedOff client c dir filter turns plan seed shared =
      (Crew.start plan.workers (freshPool dir c.format filter.kind.output seed) plan
        { shared with progress := {} }).play (exportDuty client filter filter.kind) steps := by
  obtain ⟨more, hmore⟩ := Crew.exists_finish_eq_play (d := exportDuty client filter filter.kind)
    plan.windowsLeft
    ((Crew.start plan.workers (freshPool dir c.format filter.kind.output seed) plan
      { shared with progress := {} }).play (exportDuty client filter filter.kind) turns)
  exact ⟨turns ++ more, by rw [workedOff, hmore, Crew.play_append]⟩

/-- Where all files of a label started with the columns of the seed and no row was a surprise, the
schema of the label has these columns in the end. -/
theorem hasColumns_accounted {dir : Path} {kinds : List OutputKind} {base : FileTree}
    {shelves : Nat → Shelf} {d : Disk} {kind : OutputKind} {fragments : List Fragments}
    (hs : Shelved dir kinds base shelves d)
    (haccounts : ∀ (i : Nat) (f : Fragments), fragments[i]? = some f →
      f.Accounts dir (shelves i) kind)
    (hempty : ∀ i, fragments.length ≤ i → ∀ label, shelves i kind label = none)
    (hkind : kind ≠ .results) (hseed : seed.Surveys false rows)
    (hforeseen : ∀ {i label s}, shelves i kind label = some s →
      ∃ columns, seed.get? label = some columns ∧ s.book.Foreseen columns)
    {i : Nat} {label : Label} {s : Sheet} (hsheet : shelves i kind label = some s) :
    ∃ canonical, (Masters.ofFragments fragments).schemas.get? label = some canonical ∧
      s.book.HasColumns canonical := by
  obtain ⟨columns, hcolumns, hbook⟩ := hforeseen hsheet
  have hresults : ∀ {i s}, shelves i kind label = some s → s.book.kind ≠ .results := by
    intro i s hsheet
    rwa [(hs.placed hsheet).1]
  obtain ⟨canonical, hcanonical⟩ := Option.isSome_iff_exists.1
    ((isSome_accounted hs haccounts hempty).2 ⟨i, s, hsheet⟩)
  refine ⟨canonical, hcanonical, hbook.hasColumns (hresults hsheet) ?_⟩
  obtain ⟨schemas, hne, rfl, hall⟩ := exists_unionAll_accounted hs haccounts hempty hcanonical
  rw [← hseed.label hcolumns]
  refine LabelSchema.columnsOf_unionAll (hseed.schema hcolumns).proper hne fun t ht => ?_
  obtain ⟨j, s', hsheet', rfl⟩ := hall t ht
  obtain ⟨columns', hcolumns', hbook'⟩ := hforeseen hsheet'
  rw [hcolumns] at hcolumns'
  obtain rfl := Option.some.inj hcolumns'
  exact hbook'.columnsOf_schema (hresults hsheet')

section Left

variable {c : Config} {kind : ElementKind} {width : Int} {estimate workers : Nat} {dir : Path}
  {shared : Shared} {turns : List Nat} {left : List (PerKind Fragments)}
  (hformat : c.format = .csv)
  (hclient : ∀ w : Window, client.elements (windowQuery filter.kind filter w) =
    { items := w.slice items })
  (hfit : (skip + limit.getD 0 : Nat) ≤ maxWord) (hseed : seed.Surveys false rows)
  (hrows : ∀ e, IsWanted skip limit items e → ∀ row,
    (KindFilters.single filter).scanned? e = some row → row ∈ rows)
  (hleft : (workedOff client c dir filter turns (.make kind width skip limit estimate workers)
    (some seed) shared).results = .ok left)

include hformat hclient hfit hseed hrows hleft

/-- Files that started with scanned columns end with them, and so does the schema of their label. -/
theorem seeded_columns : ∃ shelves : Nat → Shelf,
    Shelved dir [filter.kind.output] shared.disk.tree shelves
      (workedOff client c dir filter turns (.make kind width skip limit estimate workers)
        (some seed) shared).floor.shared.disk ∧
    (∀ (i : Nat) (fragments : PerKind Fragments), left[i]? = some fragments →
      (fragments.get filter.kind.output).Accounts dir (shelves i) filter.kind.output) ∧
    (∀ i, left.length ≤ i → ∀ label, shelves i filter.kind.output label = none) ∧
    ∀ i label s, shelves i filter.kind.output label = some s →
      ∃ canonical,
        (Masters.ofFragments (left.map (·.get filter.kind.output))).schemas.get? label =
          some canonical ∧
        s.book.HasColumns canonical := by
  obtain ⟨steps, hsteps⟩ := workedOff_eq_play client c dir filter turns
    (.make kind width skip limit estimate workers) (some seed) shared
  rw [hsteps, hformat] at hleft ⊢
  obtain ⟨shelves, hc⟩ :=
    seeded_stocked hclient hfit hseed hrows kind width estimate workers dir shared steps
  obtain ⟨haccounts, hempty⟩ := hc.accounts hleft
  have hnone : ∀ i, left.length ≤ i → ∀ label, shelves i filter.kind.output label = none := by
    intro i hi label
    rw [hempty i hi]
    rfl
  refine ⟨shelves, hc.shelved, fun i fragments hi => haccounts i fragments hi _, hnone,
    fun i label s hsheet => ?_⟩
  refine hasColumns_accounted hc.shelved
    (Fragments.accounts_map fun i fragments hi => haccounts i fragments hi filter.kind.output)
    (Fragments.bare_map hnone) (Station.output_ne_results filter.kind) hseed
    (fun {j l t} ht => ?_) hsheet
  -- The file is that of a worker, and its pool and shelf are sound.
  have hj : j < left.length := by
    by_contra hge
    rw [hnone j (by omega)] at ht
    cases ht
  obtain ⟨w, hw, -⟩ := (Crew.results_ok hleft).2 j _ (List.getElem?_eq_getElem hj)
  exact (hc.sound j w hw).sheet ht

/-- There is nothing to bring in line then, unless a name of a column holds a line feed. -/
theorem seeded_reconcile {m : Masters}
    (hm : m = .ofFragments (left.map (·.get filter.kind.output)))
    (hlines : ∀ label canonical, m.schemas.get? label = some canonical → canonical.OneLine) :
    let tree := (workedOff client c dir filter turns (.make kind width skip limit estimate workers)
      (some seed) shared).floor.shared.disk.tree
    reconcile c.format filter.kind.output m tree = (.ok m.schemas, tree) := by
  intro tree
  obtain ⟨shelves, hs, haccounts, hnone, hcolumns⟩ :=
    seeded_columns hformat hclient hfit hseed hrows hleft
  subst hm
  rw [hformat]
  refine reconcile_ok_iff.2 ⟨reconcileAll_of_false fun label canonical file hjob => ?_, rfl⟩
  obtain ⟨⟨i, s, hsheet, rfl⟩, hcanonical⟩ := (mem_jobs_accounted hs
    (Fragments.accounts_map haccounts) (Fragments.bare_map hnone)).1 hjob
  obtain ⟨canonical', hcanonical', hbook⟩ := hcolumns i label s hsheet
  rw [hcanonical] at hcanonical'
  obtain rfl := Option.some.inj hcanonical'
  obtain ⟨hkind, hlabel, -⟩ := hs.placed hsheet
  rw [reconcileFile_eq_false_iff (hs.file hsheet), ← hkind, ← hlabel]
  exact hbook.realigned?_eq_none (hlines label canonical hcanonical) _

end Left

end Workers

section Job

variable {client : Client} {c : Config} {items : ElementKind → List Element} {kind : ElementKind}
  {dir : Path} {turns : Turns} {shared : Shared} {plan : Plan} {seed : Collection}
  {left : List (PerKind Fragments)}

/-- A phase in two passes: every file that its workers have written has had the columns of the final
schema of its label from its first line on. Where no name of a column holds a line feed, nothing is
left to be done with the files. -/
theorem two_pass_columns (hvalid : c.validate = .ok ()) (hformat : c.format = .csv)
    (htwo : c.twoPass = true) (hfit : (c.windows.skip + c.windows.limit.getD 0 : Nat) ≤ maxWord)
    (hclient : ∀ kind (w : Window), client.elements (windowQuery kind (c.filter kind) w) =
      { items := w.slice (items kind) })
    (hplan : Plan.forFilter client (c.filter kind) c.windows c.workers = .ok plan)
    (hscan : scanKind client (c.filter kind) kind turns.scan plan shared = .ok seed)
    (hleft : (workedOff client c dir (c.filter kind) turns.write plan (some seed) shared).results =
      .ok left) :
    let crew := workedOff client c dir (c.filter kind) turns.write plan (some seed) shared
    let merged := (Masters.ofFragments (left.map (·.get kind.output))).schemas
    (∀ schemas shared', exportKind client c dir (c.filter kind) turns shared =
      (.ok schemas, shared') → schemas = merged) ∧
    ((∀ label canonical, merged.get? label = some canonical → canonical.OneLine) →
      exportKind client c dir (c.filter kind) turns shared = (.ok merged, crew.floor.shared)) ∧
    ∃ shelves : Nat → Shelf,
      Shelved dir [kind.output] shared.disk.tree shelves crew.floor.shared.disk ∧
      (∀ (i : Nat) (fragments : PerKind Fragments), left[i]? = some fragments →
        (fragments.get kind.output).Accounts dir (shelves i) kind.output) ∧
      ∀ i label s, shelves i kind.output label = some s →
        ∃ canonical, merged.get? label = some canonical ∧ s.book.HasColumns canonical := by
  have hkind := Config.kind_filter hvalid kind
  have hexport : exportKind client c dir (c.filter kind) turns shared =
      writeKind client c dir (c.filter kind) turns.write plan (some seed) shared := by
    simp only [exportKind, hplan, htwo, if_true, hkind, hscan]
  have hslices := hclient kind
  generalize c.filter kind = filter at *
  subst hkind
  have hworkers := Config.workers_of_validate hvalid
  obtain ⟨width, estimate, workers, hshared, rfl⟩ := Plan.forFilter_ok hplan
  replace hworkers : workers ≠ 0 := by omega
  obtain ⟨rows, hseed, hrows⟩ := surveys_scanKind hslices hfit hworkers hscan
  obtain ⟨shelves, hs, haccounts, -, hcolumns⟩ :=
    seeded_columns hformat hslices hfit hseed hrows hleft
  intro crew merged
  rw [hexport, writeKind_eq]
  dsimp only
  rw [hleft]
  refine ⟨fun schemas shared' h => ?_, fun hlines => ?_, shelves, hs, haccounts, hcolumns⟩
  · exact schemas_reconcile (Prod.ext (within_ok (Prod.mk.inj h).1) rfl)
  · have hreconcile := seeded_reconcile hformat hslices hfit hseed hrows hleft rfl hlines
    simp only [Job.reconcileKind, hreconcile]
    rfl

/-- A malformed node among nodes whose properties widen the columns of one another. -/
def widenedNodes : List Element :=
  [.node { id := "a", tags := ["t"], properties := .ofList [("p", .int 1)] },
    .projected .nodes (.ofList [("~label", .str "t"), ("properties", .obj [("q", .str "x")])]),
    .node { id := "b", tags := ["t"], properties := .ofList [("p", .str "x")] },
    .node { id := "c", tags := ["t"], properties := .ofList [("r", .arr [.int 2, .int 3])] }]

/-- Two workers that share one file handle scan the nodes and write three of them. -/
theorem two_pass_columns_widened_nodes :
    let client := Client.scripted none widenedNodes [] []
    let windows : WindowSettings := { width := 1, approxNodes := some 1000, approxEdges := some 1 }
    let c : Config :=
      { dir := ⟨.ofNames [], ["out"]⟩, workers := 2, maxHandles := 1, twoPass := true, windows }
    let dir := Path.ofNames ["out"]
    let turns : Turns :=
      { scan := [0, 1, 0, 1, 0, 1, 1, 0, 0, 1, 0, 1]
        write := [0, 1, 0, 1, 0, 1, 1, 0, 0, 1, 0, 1] }
    let shared : Shared := { disk := ⟨∅, 0, { max := 1 }⟩ }
    ∃ plan seed left, Plan.forFilter client (c.filter .nodes) windows c.workers = .ok plan ∧
      scanKind client (c.filter .nodes) .nodes turns.scan plan shared = .ok seed ∧
      let crew := workedOff client c dir (c.filter .nodes) turns.write plan (some seed) shared
      crew.results = .ok left ∧
      crew.floor.shared.disk.tree.read? (.ofNames ["out", "nodes", "t-1.csv"]) =
        some "~id,~label,p:String,q:String,r:Int[]\na,t,1,,\nb,t,x,,\n" ∧
      crew.floor.shared.disk.tree.read? (.ofNames ["out", "nodes", "t-2.csv"]) =
        some "~id,~label,p:String,q:String,r:Int[]\nc,t,,,2;3\n" ∧
      ∃ shelves : Nat → Shelf,
        Shelved dir [.nodes] ∅ shelves crew.floor.shared.disk ∧
        ∀ i label s, shelves i .nodes label = some s →
          ∃ canonical,
            (Masters.ofFragments (left.map (·.get .nodes))).schemas.get? label = some canonical ∧
            s.book.HasColumns canonical := by
  intro client windows c dir turns shared
  have hcheck : ((Plan.forFilter client (c.filter .nodes) windows c.workers).toOption.bind
      fun plan => (scanKind client (c.filter .nodes) .nodes turns.scan plan shared).toOption.map
        fun seed =>
          let crew := workedOff client c dir (c.filter .nodes) turns.write plan (some seed) shared
          crew.results.toOption.isSome &&
            crew.floor.shared.disk.tree.read? (.ofNames ["out", "nodes", "t-1.csv"]) =
              some "~id,~label,p:String,q:String,r:Int[]\na,t,1,,\nb,t,x,,\n" &&
            crew.floor.shared.disk.tree.read? (.ofNames ["out", "nodes", "t-2.csv"]) =
              some "~id,~label,p:String,q:String,r:Int[]\nc,t,,,2;3\n") = some true := by
    decide +kernel
  obtain ⟨plan, hplan, hcheck⟩ := Option.bind_eq_some_iff.1 hcheck
  obtain ⟨seed, hscan, hcheck⟩ := Option.map_eq_some_iff.1 hcheck
  simp only [Bool.and_eq_true, decide_eq_true_eq] at hcheck
  obtain ⟨⟨hleft, hone⟩, htwo⟩ := hcheck
  obtain ⟨left, hleft⟩ := Option.isSome_iff_exists.1 hleft
  refine ⟨plan, seed, left, eq_ok_of_toOption hplan, eq_ok_of_toOption hscan,
    eq_ok_of_toOption hleft, hone, htwo, ?_⟩
  have hclient : ∀ kind (w : Window), client.elements (windowQuery kind (c.filter kind) w) =
      { items := w.slice (if kind = .nodes then widenedNodes else []) } := by
    intro kind w
    cases kind <;> rfl
  obtain ⟨-, -, shelves, hs, -, hcolumns⟩ :=
    two_pass_columns (by decide +kernel) rfl rfl (by decide) hclient (eq_ok_of_toOption hplan)
      (eq_ok_of_toOption hscan) (eq_ok_of_toOption hleft)
  exact ⟨shelves, hs, hcolumns⟩

end Job

end FullExport

end GraphExport
