import GraphExport.Proofs.Job.QueryDeeds
import GraphExport.Proofs.Job.Took
import GraphExport.Proofs.Label.Tags
import GraphExport.Proofs.Output.InLine
import GraphExport.Proofs.Schema.Seeded

/-!
# GraphExport.Proofs.Job.QueryNames

What the files of a query job hold that are named for the queries.

* `QueryExport.filedRows`: the rows of the queries whose names make a label.
* `QueryExport.results_by_label`: a job leaves one file for each label, with these rows.
-/

namespace GraphExport

/-! ## Queries -/

namespace QueryExport

variable {client : Client} {c : Config} {queries : List NamedQuery}

/-- The rows of the queries whose names make a label, in the order in which they are delivered. In
two passes a query that fails delivers none. -/
def filedRows (client : Client) (c : Config) (queries : List NamedQuery) (label : Label) :
    List Row :=
  (queries.filter fun q => Label.single q.name = label &&
    !(c.twoPass && (client.answers q.query).fails)).flatMap fun q => (client.answers q.query).rows

theorem rows_rowDeeds (c : Config) (name : String) (rows : List Row) (kind : OutputKind)
    (label : Label) : Deed.rows kind label (rows.flatMap (rowDeeds c false name)) =
      if kind = .results ∧ Label.single name = label then
        rows.map fun r => (.columns (r.columns true), r.columns true)
      else [] := by
  induction rows with
  | nil => simp [Deed.rows]
  | cons r rest ih =>
    rw [List.flatMap_cons, Deed.rows_append, ih]
    by_cases hkey : kind = .results ∧ Label.single name = label
    · obtain ⟨rfl, rfl⟩ := hkey
      simp [Deed.rows, rowDeeds]
    · have hkey' : ¬ (OutputKind.results = kind ∧ Label.single name = label) :=
        fun h => hkey ⟨h.1.symm, h.2⟩
      rw [if_neg hkey, if_neg hkey]
      simp [Deed.rows, rowDeeds, hkey']

theorem rows_deeds (client : Client) (c : Config) (q : NamedQuery) (kind : OutputKind)
    (label : Label) : Deed.rows kind label (deeds client c false q) =
      if kind = .results then (filedRows client c [q] label).map fun r =>
        (.columns (r.columns true), r.columns true) else [] := by
  have hseed : Deed.rows kind label
      (seedDeeds c false q.name (client.answers q.query).rows) = [] := rfl
  have habandon : ∀ b : Bool, Deed.rows kind label (if b then [.abandon] else []) = [] := by
    intro b
    cases b <;> rfl
  -- The rows are written, unless the query fails in the first of two passes.
  have hdeeds : Deed.rows kind label (deeds client c false q) =
      if c.twoPass && (client.answers q.query).fails then []
      else Deed.rows kind label
        ((client.answers q.query).rows.flatMap (rowDeeds c false q.name)) := by
    unfold deeds
    dsimp only
    generalize (client.answers q.query).fails = fails
    cases c.twoPass with
    | false =>
      rw [if_neg Bool.false_ne_true, Deed.rows_append, habandon, List.append_nil]
      rfl
    | true =>
      cases fails with
      | false =>
        rw [if_pos rfl, if_neg Bool.false_ne_true, Deed.rows_append, hseed]
        rfl
      | true => rfl
  have hfiled : filedRows client c [q] label =
      if c.twoPass && (client.answers q.query).fails then []
      else if Label.single q.name = label then (client.answers q.query).rows else [] := by
    rw [filedRows, List.filter_cons, List.filter_nil]
    generalize (c.twoPass && (client.answers q.query).fails) = lost
    cases lost <;> by_cases hlabel : Label.single q.name = label <;> simp [hlabel]
  rw [hdeeds, hfiled, rows_rowDeeds]
  split
  · exact (ite_self _).symm
  · by_cases hkind : kind = .results <;> by_cases hlabel : Label.single q.name = label <;>
      simp [hkind, hlabel]

/-- What is written for a label is the rows of the queries whose names make it. -/
theorem rows_allDeeds (client : Client) (c : Config) (queries : List NamedQuery)
    (kind : OutputKind) (label : Label) :
    Deed.rows kind label (allDeeds client c false queries) =
      if kind = .results then (filedRows client c queries label).map fun r =>
        (.columns (r.columns true), r.columns true) else [] := by
  induction queries with
  | nil => simp [Deed.rows, allDeeds, filedRows]
  | cons q rest ih =>
    have hrows : filedRows client c (q :: rest) label =
        filedRows client c [q] label ++ filedRows client c rest label := by
      simp only [filedRows, ← List.flatMap_append, ← List.filter_append]
      rfl
    rw [allDeeds, List.flatMap_cons, Deed.rows_append, ← allDeeds, ih, rows_deeds, hrows]
    split
    · rw [List.map_append]
    · rfl

/-- The columns that files have from the start were found in rows that the files are to hold. -/
def Foreseen (client : Client) (c : Config) (queries : List NamedQuery) (schemas : Collection) :
    Prop :=
  ∃ rows, schemas.Surveys true rows ∧ ∀ label columns, (label, columns) ∈ rows →
    c.twoPass = true ∧ ∃ r ∈ filedRows client c queries label, columns = r.columns true

theorem mem_filedRows {label : Label} {r : Row} : r ∈ filedRows client c queries label ↔
    ∃ q ∈ queries, Label.single q.name = label ∧
      (c.twoPass && (client.answers q.query).fails) = false ∧
        r ∈ (client.answers q.query).rows := by
  simp only [filedRows, List.mem_flatMap, List.mem_filter, Bool.and_eq_true, decide_eq_true_eq,
    Bool.not_eq_true', and_assoc]

theorem foreseen_seed {schemas : Collection} {done : Except Failure Unit}
    (h : (.seed .results schemas, done) ∈ Deed.log (allDeeds client c false queries)) :
    Foreseen client c queries schemas := by
  obtain ⟨d, hd, heq⟩ := List.mem_filterMap.1 h
  obtain ⟨q, hq, hd⟩ := List.mem_flatMap.1 hd
  have hseed : d = .seed .results schemas := by
    split at heq <;> cases heq
    rfl
  subst hseed
  have hrows : ∀ rows : List Row,
      Deed.seed .results schemas ∉ rows.flatMap (rowDeeds c false q.name) := by
    intro rows hmem
    obtain ⟨r, -, hmem⟩ := List.mem_flatMap.1 hmem
    cases List.mem_singleton.1 hmem
  unfold deeds at hd
  cases hpass : c.twoPass with
  | false =>
    cases hfails : (client.answers q.query).fails <;>
      simp [hpass, hfails, hrows] at hd
  | true =>
    cases hfails : (client.answers q.query).fails with
    | true => simp [hpass, hfails] at hd
    | false =>
      simp only [hpass, hfails, Bool.false_eq_true, if_true, if_false, List.mem_append, hrows,
        or_false] at hd
      cases List.mem_singleton.1 hd
      refine ⟨(client.answers q.query).rows.map fun r => (.single q.name, r.columns true), ?_, ?_⟩
      · have hsurveys := (Collection.surveys_empty true).updateAll
          ((client.answers q.query).rows.map fun r => (.single q.name, r.columns true))
        rwa [Collection.updateAll, List.foldl_map, List.nil_append] at hsurveys
      · intro label columns hmem
        obtain ⟨r, hr, heq⟩ := List.mem_map.1 hmem
        cases heq
        exact ⟨hpass, r, mem_filedRows.2 ⟨q, hq, rfl, by rw [hfails, Bool.and_false], hr⟩, rfl⟩

theorem foreseen_seeds {before : PoolLog}
    (h : before <+: Deed.log (allDeeds client c false queries)) :
    Foreseen client c queries (before.seeds .results) := by
  have hstart : Foreseen client c queries ∅ :=
    ⟨[], Collection.surveys_empty true, fun _ _ hmem => by cases hmem⟩
  have hmem : ∀ e ∈ before, e ∈ Deed.log (allDeeds client c false queries) :=
    fun e he => h.subset he
  unfold PoolLog.seeds
  generalize (∅ : Collection) = schemas at hstart ⊢
  clear h
  induction before generalizing schemas with
  | nil => exact hstart
  | cons e rest ih =>
    refine ih (fun e' he' => hmem e' (List.mem_cons_of_mem _ he')) _ ?_
    obtain ⟨a, done⟩ := e
    cases a with
    | seed kind more =>
      dsimp only
      split
      · rename_i hkind
        subst hkind
        obtain ⟨rows, hsurveys, hrows⟩ := hstart
        obtain ⟨rows', hsurveys', hrows'⟩ := foreseen_seed (hmem _ List.mem_cons_self)
        exact ⟨rows ++ rows', hsurveys.union hsurveys', fun label columns hr =>
          (List.mem_append.1 hr).elim (hrows label columns) (hrows' label columns)⟩
      · exact hstart
    | get kind label => exact hstart
    | write kind label i => exact hstart

/-! ## The files -/

/-- The `n`th file of a job, if it is one for results of a label. -/
def resultsFile (format : Format) (dir : Path) (label : Label) (n : Nat) : Path :=
  (dir.child "results").child (LabelWriter.fileNameOf label n format)

/-- A job has filed rows by labels: each label that has rows has a file, an entry in the schema and
one in the statistics, and no two labels have the same. -/
structure Files (c : Config) (rows : Label → List Row) (dir : Path) (number : Label → Nat)
    (schema : GraphSchema) (stats : Stats) (t t' : FileTree) : Prop where
  apart : ∀ {label label'}, rows label ≠ [] → rows label' ≠ [] →
    resultsFile c.format dir label (number label) =
      resultsFile c.format dir label' (number label') → label = label'
  /-- The file has the rows in their order, under columns that are its own. -/
  file : ∀ label, rows label ≠ [] → ∃ seed content,
    (∀ s, seed = some s → c.twoPass = true ∧
      ∀ name ∈ s.names, ∃ r ∈ rows label, carries name (r.columns true) = true) ∧
    (Content.start c.format .results label seed).putAll c.format .results label
      ((rows label).map fun r => .columns (r.columns true)) = .ok content ∧
    schema.results.get? label = some (({ label } : LabelSchema).union content.schema) ∧
    t'.read? (resultsFile c.format dir label (number label)) = some
      (content.aligned c.format .results label (({ label } : LabelSchema).union content.schema))
  unfiled : ∀ label, rows label = [] → schema.results.get? label = none
  counted : ∀ label, stats.labels.results.get? label =
    (rows label).foldl (fun s r => some ((s.getD {}).record (r.columns true))) none
  others : ∀ q text, (∀ label, rows label ≠ [] →
      resultsFile c.format dir label (number label) ≠ q) →
    q ≠ dir.child "schema.json" → q ≠ dir.child "stats.json" → t'.read? q = some text →
      t.read? q = some text

theorem resultsFile_ne_child (format : Format) (dir : Path) (label : Label) (n : Nat)
    (name : String) : resultsFile format dir label n ≠ dir.child name := by
  intro h
  have := congrArg (fun p => p.climb.length) h
  simp [resultsFile] at this

section Closing

variable {dir : Path} {t : FileTree} {base : Ledger} {k : Desk}

/-- There is a file for each label that has rows. -/
theorem isSome_results (hk : k.Took base (allDeeds client c false queries)) (label : Label) :
    (k.ledger.file? .results label).isSome ↔ filedRows client c queries label ≠ [] := by
  rw [hk.files, rows_allDeeds, if_pos rfl, ne_eq, List.map_eq_nil_iff]

/-- All files are files of results. -/
theorem kind_of_file (hk : k.Took base (allDeeds client c false queries)) {kind : OutputKind}
    {label : Label} {f : FileSchema} (hf : k.ledger.file? kind label = some f) :
    kind = .results := by
  by_contra hkind
  have hrows := (hk.files kind label).1 (by rw [hf]; rfl)
  rw [rows_allDeeds, if_neg hkind] at hrows
  exact hrows rfl

theorem exists_number
    (hk : k.Took (startDesk c false dir t).ledger (allDeeds client c false queries)) :
    ∃ number : Label → Nat, ∀ label f, k.ledger.file? .results label = some f →
      f.path = resultsFile c.format dir label (number label) := by
  have hlabel : ∀ label, ∃ n, ∀ f, k.ledger.file? .results label = some f →
      f.path = resultsFile c.format dir label n := by
    intro label
    cases hf : k.ledger.file? .results label with
    | none => exact ⟨0, nofun⟩
    | some f =>
      obtain ⟨n, -, hn⟩ := hk.filed.named hf
      exact ⟨n, fun g hg => by cases hg; exact hn⟩
  choose number hnumber using hlabel
  exact ⟨number, hnumber⟩

/-- Before it is brought in line a file has the rows of its label, under columns that were foreseen
and those of the rows. -/
theorem content_of_file
    (hk : k.Took (startDesk c false dir t).ledger (allDeeds client c false queries))
    {label : Label} {f : FileSchema} (hf : k.ledger.file? .results label = some f) :
    ∃ seed text, k.ledger.tree.get? f.path = some (.file text) ∧
      (∀ s, seed = some s → c.twoPass = true ∧ ∀ name ∈ s.names,
        ∃ r ∈ filedRows client c queries label, carries name (r.columns true) = true) ∧
      (Content.start c.format .results label seed).putAll c.format .results label
        ((filedRows client c queries label).map fun r => .columns (r.columns true)) =
          .ok ⟨f.schema, text⟩ := by
  obtain ⟨-, text, before, htext, ⟨hbefore, -⟩, hrows⟩ := hk.filed.file hf
  rw [Deed.items_log, rows_allDeeds, if_pos rfl, List.map_map] at hrows
  refine ⟨_, text, htext, fun s hs => ?_, hrows⟩
  obtain ⟨rows, hsurveys, hfrom⟩ := foreseen_seeds hbefore
  obtain ⟨m, hm⟩ := List.exists_mem_of_ne_nil _ ((hsurveys.present label).1 (by rw [hs]; rfl))
  refine ⟨(hfrom label m (Collection.mem_mapsOf.1 hm)).1, fun name hname => ?_⟩
  obtain ⟨-, m', hm', hcarries⟩ := ((hsurveys.schema hs).discovers.present name).1 hname
  obtain ⟨-, r, hr, rfl⟩ := hfrom label m' (Collection.mem_mapsOf.1 hm')
  exact ⟨r, hr, hcarries⟩

/-- A job that has taken its deeds brings the files of results in line, and there are no others. -/
theorem closing_results (hk : k.Took base (allDeeds client c false queries)) {schema : GraphSchema}
    {stats : Stats} {t' : FileTree} (h : closing c dir (.ok (), k) = some (schema, stats, t')) :
    ∃ t₁, reconcile c.format .results (.ofFragments [k.ledger.fragments.get .results])
        k.ledger.tree = (.ok schema.results, t₁) ∧
      Job.writeArtifacts dir schema k.stats t₁ = (.ok (), t') ∧ stats = k.stats := by
  have hnone : ∀ kind, kind ≠ .results → k.ledger.fragments.get kind = ∅ := by
    intro kind hkind
    refine Ledger.fragments_of_none fun label => ?_
    by_contra hfile
    obtain ⟨f, hf⟩ := Option.ne_none_iff_exists'.1 hfile
    exact hkind (kind_of_file hk hf)
  have hnodes : k.ledger.fragments.nodes = ∅ := hnone .nodes nofun
  have hedges : k.ledger.fragments.edges = ∅ := hnone .edges nofun
  simp only [closing, reconcileKinds, List.map_cons, List.map_nil, hnodes, hedges,
    reconcileKind_none] at h
  rcases hresults : Job.reconcileKind c.format .results "Failed to reconcile result files"
    [k.ledger.fragments.results] k.ledger.tree with ⟨result, t₁⟩
  rw [hresults] at h
  cases result with
  | error f => cases h
  | ok results =>
    simp only at h
    rcases hwrite : Job.writeArtifacts dir ⟨∅, ∅, results⟩ k.stats t₁ with ⟨result, t₂⟩
    rw [hwrite] at h
    cases result with
    | error f => cases h
    | ok _ =>
      cases h
      obtain ⟨hwithin, htree⟩ := Prod.mk.inj hresults
      exact ⟨t₁, Prod.ext (within_ok hwithin) htree, hwrite, rfl⟩

theorem files_closing {t' : FileTree} {schema : GraphSchema} {stats : Stats}
    (h : closing c dir ((startDesk c false dir t).takeAll (allDeeds client c false queries)) =
      some (schema, stats, t')) :
    ∃ number, Files c (filedRows client c queries) dir number schema stats t t' := by
  rcases htake : (startDesk c false dir t).takeAll (allDeeds client c false queries) with
    ⟨result, k⟩
  rw [htake] at h
  cases result with
  | error f => cases h
  | ok _ =>
    have hk := Desk.took_takeAll (Desk.took_new dir c.format (kinds false) _ rfl) htake
    obtain ⟨t₁, hreconcile, hwrite, rfl⟩ := closing_results hk h
    obtain ⟨htexts, hothers⟩ := hk.filed.reconciled hreconcile
    obtain ⟨number, hnumber⟩ := exists_number hk
    have hfile : ∀ {label}, filedRows client c queries label ≠ [] →
        ∃ f, k.ledger.file? .results label = some f :=
      fun hl => Option.isSome_iff_exists.1 ((isSome_results hk _).2 hl)
    have hschemas : ∀ label, schema.results.get? label =
        (k.ledger.file? .results label).map fun f => ({ label } : LabelSchema).union f.schema := by
      intro label
      rw [schemas_reconcile hreconcile, hk.filed.schemas]
    -- The artifacts are not among the files of results.
    have hkept : ∀ label n, t'.read? (resultsFile c.format dir label n) =
        t₁.read? (resultsFile c.format dir label n) := by
      intro label n
      rcases Job.writeArtifacts_ok hwrite (resultsFile_ne_child _ dir label n _)
        (resultsFile_ne_child _ dir label n _) with heq | ⟨⟨name, hname⟩, -⟩
      · exact heq
      · exact absurd hname (resultsFile_ne_child _ dir label n name)
    refine ⟨number, fun {label label'} hl hl' heq => ?_, fun label hl => ?_, fun label hl => ?_,
      fun label => ?_, fun q text hq hschema hstats htext => ?_⟩
    · obtain ⟨f, hf⟩ := hfile hl
      obtain ⟨f', hf'⟩ := hfile hl'
      rw [← hnumber label f hf, ← hnumber label' f' hf'] at heq
      exact (hk.filed.distinct hf hf' heq).2
    · obtain ⟨f, hf⟩ := hfile hl
      obtain ⟨seed, text, htext, hseed, hrows⟩ := content_of_file hk hf
      refine ⟨seed, ⟨f.schema, text⟩, hseed, hrows, ?_, ?_⟩
      · rw [hschemas, hf]
        rfl
      · rw [hkept, ← hnumber label f hf]
        exact htexts label f text hf htext
    · rw [hschemas, Option.map_eq_none_iff, ← Option.not_isSome_iff_eq_none, isSome_results hk]
      exact not_not_intro hl
    · have hcounted := hk.counted .results label
      rw [rows_allDeeds, if_pos rfl, List.foldl_map] at hcounted
      exact hcounted
    · have hne : ∀ kind label f, k.ledger.file? kind label = some f → f.path ≠ q := by
        intro kind label f hf
        obtain rfl := kind_of_file hk hf
        rw [hnumber label f hf]
        exact hq label ((isSome_results hk label).1 (by rw [hf]; rfl))
      have hread : t'.read? q ≠ none := by
        rw [htext]
        nofun
      rcases Job.writeArtifacts_ok hwrite hschema hstats with heq | ⟨-, hnone⟩
      · rcases hothers q (hne .results) with heq' | hnone
        · rw [← htext, heq, heq', hk.filed.frame q hne]
          rfl
        · exact absurd (heq.trans hnone) hread
      · exact absurd hnone hread

end Closing

/-- What a job files where it works, it files in its output directory. -/
theorem Files.inOutput {rows : Label → List Row} {dir place : Path} {number : Label → Nat}
    {schema : GraphSchema} {stats : Stats} {view inside t t' : FileTree}
    (h : Files c rows dir number schema stats view inside)
    (hview : ∀ q, q.climb ≠ [] → view.read? (dir.join q) = t.read? (place.join q))
    (hafter : ∀ q, q.climb ≠ [] → t'.read? (place.join q) = inside.read? (dir.join q))
    (hframe : ∀ p, (∀ q, q.climb ≠ [] → p ≠ place.join q) → t'.read? p = t.read? p) :
    Files c rows place number schema stats t t' := by
  have hfile : ∀ p label, resultsFile c.format p label (number label) =
      p.join ⟨[LabelWriter.fileNameOf label (number label) c.format, "results"], 2, rfl⟩ :=
    fun p label => Path.ext_climb rfl
  have hchild : ∀ (p : Path) (name : String), p.child name = p.join ⟨[name], 1, rfl⟩ :=
    fun p name => Path.ext_climb rfl
  refine ⟨fun {label label'} hl hl' heq => ?_, fun label hl => ?_, h.unfiled, h.counted,
    fun q text hq hschema hstats htext => ?_⟩
  · rw [hfile, hfile] at heq
    refine h.apart hl hl' ?_
    rw [hfile, hfile, Path.join_inj heq]
  · obtain ⟨seed, content, hseed, hput, hcolumns, htext⟩ := h.file label hl
    refine ⟨seed, content, hseed, hput, hcolumns, ?_⟩
    rw [hfile, hafter _ (by simp), ← hfile]
    exact htext
  · by_cases hbelow : ∃ r : Path, r.climb ≠ [] ∧ q = place.join r
    · obtain ⟨r, hr, rfl⟩ := hbelow
      rw [← hview r hr]
      rw [hafter r hr] at htext
      refine h.others _ text (fun label hl heq => hq label hl ?_) (fun heq => hschema ?_)
        (fun heq => hstats ?_) htext
      · rw [hfile] at heq ⊢
        rw [Path.join_inj heq]
      · rw [hchild] at heq ⊢
        rw [Path.join_inj heq]
      · rw [hchild] at heq ⊢
        rw [Path.join_inj heq]
    · rw [← hframe q fun r hr heq => hbelow ⟨r, hr, heq⟩]
      exact htext

/-- One worker files the rows of unstructured queries by the labels that the names of the queries
make: every label has one file, with the rows of all its queries in the order in which they are
delivered, and shares nothing with another label. So queries share a file if and only if their names
make one label, as `a::b` and `b::a` do. Names that cannot be cut make a label each. -/
theorem results_by_label {groups : List NamedQueries} {t : FileTree}
    (hsoft : ∀ q ∈ groups.flatMap NamedQueries.flat, (client.answers q.query).FailsSoftly)
    (hworkers : c.workers = 1) (hvalid : c.validateForQueries false = .ok ())
    (hfiles : ∀ f, (run client c groups false false t).1 = .error f → f.cause ≠ .io) :
    let rows := filedRows client c (groups.flatMap NamedQueries.flat)
    ∃ summary t' place t₁ number, run client c groups false false t = (.ok summary, t') ∧
      t.openWay c.dir = some (place, t₁) ∧
      Files c rows place number summary.schema summary.stats t t' ∧
      let file name := resultsFile c.format place (.single name) (number (.single name))
      ∀ a b, rows (.single a) ≠ [] → rows (.single b) ≠ [] →
        (file a = file b ↔ Label.single a = Label.single b) ∧
          (IsTag a → IsTag b → (file a = file b ↔ a = b)) := by
  intro rows
  obtain ⟨hio, -⟩ := left?_run hsoft hworkers hvalid t
  rcases hrun : run client c groups false false t with ⟨result, t'⟩
  rw [hrun] at hio hfiles
  cases result with
  | error f => exact absurd (hio f rfl) (hfiles f rfl)
  | ok summary =>
    have hinside : Job.inOutput c.dir t (work client c groups false false []) =
        (.ok summary, t') := by
      rw [← hrun, run, runWith, hvalid]
    obtain ⟨place, t₁, view, inside, hway, hwork, hview, hafter, hframe⟩ := Job.inOutput_ok hinside
    have hleft := (left?_work hsoft hworkers false c.dir.home view).2
    rw [hwork] at hleft
    obtain ⟨number, hfiled⟩ := files_closing hleft.symm
    have hplaced := hfiled.inOutput hview hafter hframe
    refine ⟨summary, t', place, t₁, number, rfl, hway, hplaced, fun a b ha hb => ?_⟩
    have hshared : resultsFile c.format place (.single a) (number (.single a)) =
        resultsFile c.format place (.single b) (number (.single b)) ↔
          Label.single a = Label.single b := by
      constructor
      · exact hplaced.apart ha hb
      · intro hsame
        rw [hsame]
    exact ⟨hshared, fun hta htb => hshared.trans (Label.single_inj hta htb)⟩

/-- The rows of two queries, whose names make one label, are in one file. -/
theorem results_by_label_two_names :
    let client := Client.scripted none [] []
      [("first", [.row (.ofList [(.property "p", .str "x")])]),
      ("second", [.row (.ofList [(.property "p", .str "y")])])]
    let c : Config := { dir := ⟨.ofNames [], ["out"]⟩, workers := 1 }
    let groups : List NamedQueries := [⟨"a::b", ["first"]⟩, ⟨"b::a", ["second"]⟩]
    let rows := filedRows client c (groups.flatMap NamedQueries.flat)
    ∃ summary t' place t₁ number, run client c groups false false ∅ = (.ok summary, t') ∧
      FileTree.openWay ∅ c.dir = some (place, t₁) ∧
      Files c rows place number summary.schema summary.stats ∅ t' ∧
      t'.read? (.ofNames ["out", "results", "a_b-1.csv"]) = some "p\nx\ny\n" ∧
      resultsFile c.format place (.single "a::b") (number (.single "a::b")) =
        resultsFile c.format place (.single "b::a") (number (.single "b::a")) := by
  intro client c groups rows
  have hok : (run client c groups false false ∅).1.toOption.isSome = true := by decide +kernel
  have htext : (run client c groups false false ∅).2.read?
      (.ofNames ["out", "results", "a_b-1.csv"]) = some "p\nx\ny\n" := by decide +kernel
  have hnone : ∀ q ∈ groups.flatMap NamedQueries.flat,
      (client.answers q.query).failure = none := by decide
  obtain ⟨summary, t', place, t₁, number, hrun, hway, hfiled, hshared⟩ :=
    results_by_label (fun q hq => Delivery.failsSoftly_of_none (hnone q hq)) rfl rfl fun f hf => by
      rw [hf] at hok
      cases hok
  rw [hrun] at htext
  refine ⟨summary, t', place, t₁, number, hrun, hway, hfiled, htext, ?_⟩
  exact (hshared "a::b" "b::a" (by decide) (by decide)).1.2 (by decide)

end QueryExport

end GraphExport
