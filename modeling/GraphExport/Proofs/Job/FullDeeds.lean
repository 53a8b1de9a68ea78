import GraphExport.Proofs.Job.Deeds
import GraphExport.Proofs.Job.Modes
import GraphExport.Proofs.Job.Rows

/-!
# GraphExport.Proofs.Job.FullDeeds

A full export by one worker. What a phase writes follows from the elements of its plan alone, and
the job does one phase after the other.

* `FullExport.deeds`: what is done in a phase. `FullExport.phase`: what the phase leaves.
* `FullExport.scanKind_alone`: a scan by one worker records the elements in their order.
* `FullExport.exportKind_deeds`: a phase does its deeds, or the file system stops it.
* `FullExport.left?_run`: so what a job leaves is what its two phases leave.
-/

namespace GraphExport

/-- The same files and statistics, before any file of a new pool is made. -/
def Desk.anew (kinds : List OutputKind) (k : Desk) : Desk :=
  { k with ledger := { k.ledger with kinds, seeds := .fill ∅, files := .fill ∅ } }

/-- The desk with the files of a tree. -/
def Desk.onTree (k : Desk) (t : FileTree) : Desk := { k with ledger := k.ledger.onTree t }

/-- Brings the files of a kind in line. -/
def Desk.inLine (format : Format) (kind : OutputKind) (k : Desk) : Option (Collection × Desk) :=
  match reconcile format kind (.ofFragments [k.ledger.fragments.get kind]) k.ledger.tree with
  | (.error _, _) => none
  | (.ok schemas, t) => some (schemas, k.onTree t)

/-- The files and the statistics that are shared, while there is no pool. -/
def Shared.desk (dir : Path) (format : Format) (s : Shared) : Desk :=
  ⟨⟨dir, format, [], .fill ∅, .fill ∅, s.disk.tree, s.disk.filesNamed⟩, s.stats⟩

namespace FullExport

/-- What is done for the elements of a kind. -/
def deeds (twoPass : Bool) (filter : LabelFilter) (elements : List Element) : List Deed :=
  (if twoPass then [.seed filter.kind.output (filter.found elements)] else []) ++
    elements.flatMap (KindFilters.single filter).deeds

/-- What a phase leaves if its deeds are done: the schemas, and the files brought in line. -/
def phase (format : Format) (kind : ElementKind) (deeds : List Deed) (k : Desk) :
    Option (Collection × Desk) :=
  match (k.anew [kind.output]).takeAll deeds with
  | (.error _, _) => none
  | (.ok _, k) => (k.inLine format kind.output).map fun left => (left.1, left.2.anew [])

section Phase

variable {client : Client} {c : Config} {dir : Path} {filter : LabelFilter} {items : List Element}
  {shared shared' : Shared} {result : Except Failure Collection}

/-- A scan by one worker has the schemas of the elements of its plan. -/
theorem scanKind_alone
    (hclient : ∀ w : Window, client.elements (windowQuery filter.kind filter w) =
      { items := w.slice items })
    {plan : Plan} (hplan : plan.Sound) (hworkers : plan.workers = 1) :
    scanKind client filter filter.kind [] plan shared = .ok (filter.found (plan.rest items)) := by
  have hprogress : { shared with progress := ({} : Progress) }.progress.halted = false := rfl
  have hrun := Worker.run_windows (Worker.feeds_scan hclient) plan.windowsLeft hplan
    (Nat.le_refl _) GraphSchema.empty hprogress 0
  obtain ⟨g, shared', hfeed, hget⟩ := feed_scanStep filter (plan.rest items)
    (GraphSchema.empty, { shared with progress := {} })
  rcases hw : Worker.run (scanDuty client filter filter.kind) (Worker.stepsFor plan.windowsLeft)
    ⟨0, GraphSchema.empty, .testing⟩ ⟨plan, { shared with progress := {} }⟩ with ⟨w, floor⟩
  rw [hfeed, hw] at hrun
  obtain ⟨progress, hstopped, -⟩ := hrun
  have hempty : GraphSchema.empty.get filter.kind.output = ∅ := by cases filter.kind <;> rfl
  rw [hempty] at hget
  unfold scanKind
  simp only [Crew.play_nil, hworkers]
  rw [Crew.finish_alone hw hstopped, Crew.results_alone hstopped]
  show Except.ok (Collection.union ∅ (g.get filter.kind.output)) = _
  rw [hget]
  exact congrArg Except.ok (Collection.empty_union (filter.surveys_found _).label)

/-- What shows of a phase, if `left` is what its deeds leave. -/
def Shows (dir : Path) (format : Format) (left : Option (Collection × Desk))
    (result : Except Failure Collection) (shared : Shared) : Prop :=
  match left with
  | none => ∃ f, result = .error f ∧ f.cause = .io
  | some (schemas, k) => result = .ok schemas ∧ shared.desk dir format = k ∧
      shared.disk.budget.openCount = 0

theorem does_phase (dir : Path) (format : Format) (seed : Option Collection) (shared : Shared)
    (hclosed : shared.disk.budget.openCount = 0) {items : List Element}
    (hitems : ∀ e ∈ items, e.kind = filter.kind) :
    Station.Does [filter.kind.output]
      ⟨{ dir, format, kinds := [filter.kind.output] }, shared⟩
      ((seed.map (Deed.seed filter.kind.output)).toList ++
        items.flatMap (KindFilters.single filter).deeds)
      (feed (Worker.exportStep filter) items
        ⟨freshPool dir format filter.kind.output seed, shared⟩) := by
  have hstart : (⟨{ dir, format, kinds := [filter.kind.output] }, shared⟩ : Station).Sound
      [filter.kind.output] := Station.sound_new dir format _ hclosed
  have hseeded : Station.Does [filter.kind.output]
      ⟨{ dir, format, kinds := [filter.kind.output] }, shared⟩
      (seed.map (Deed.seed filter.kind.output)).toList
      (.ok (), ⟨freshPool dir format filter.kind.output seed, shared⟩) := by
    cases seed with
    | none => exact .nil hstart
    | some schemas => exact hstart.seedWith _ schemas
  refine hseeded.append (Station.does_feed (fun e he s hs => .of_tick ?_) hseeded.sound)
  exact hs.tick.put _ e fun _ => by rw [hitems e he]; exact List.mem_singleton_self _

/-- A worker that has done its deeds closes its files, and then they are brought in line. -/
theorem shows_closed {st : Station} {kinds : List OutputKind} (h : st.Sound kinds) {format : Format}
    (hdir : st.pool.dir = dir) (hformat : st.pool.format = format) (kind : OutputKind)
    (context : String) (progress : Progress) :
    let closed := st.pool.close st.shared.disk
    let aligned := Job.reconcileKind format kind context [closed.1.get kind] closed.2.2.tree
    Shows dir format ((st.desk.inLine format kind).map fun left => (left.1, left.2.anew []))
      aligned.1 ⟨{ closed.2.2 with tree := aligned.2 }, st.shared.stats, progress⟩ := by
  subst hdir hformat
  intro closed aligned
  have hbalanced : closed.2.2.budget.openCount = 0 := h.balanced.close
  have honly : OnlyIo aligned.1 := reconcileKind_onlyIo _ _ _ _ _
  have haligned : aligned = Job.reconcileKind st.pool.format kind context
      [st.desk.ledger.fragments.get kind] st.desk.ledger.tree := by
    simp only [aligned, closed, Pool.fragments_close]
    rfl
  rw [haligned] at honly ⊢
  unfold Job.reconcileKind at honly ⊢
  unfold Desk.inLine
  revert honly
  rcases reconcile st.pool.format kind (.ofFragments [st.desk.ledger.fragments.get kind])
    st.desk.ledger.tree with ⟨f | schemas, t⟩
  · exact fun honly => ⟨_, rfl, honly _ rfl⟩
  · exact fun _ => ⟨rfl, rfl, hbalanced⟩

theorem writeKind_deeds
    (hclient : ∀ w : Window, client.elements (windowQuery filter.kind filter w) =
      { items := w.slice items })
    (hitems : ∀ e ∈ items, e.kind = filter.kind) {plan : Plan} (hplan : plan.Sound)
    (hworkers : plan.workers = 1) (seed : Option Collection)
    (hclosed : shared.disk.budget.openCount = 0)
    (h : writeKind client c dir filter [] plan seed shared = (result, shared')) :
    Shows dir c.format (phase c.format filter.kind
      ((seed.map (Deed.seed filter.kind.output)).toList ++
        (plan.rest items).flatMap (KindFilters.single filter).deeds)
      (shared.desk dir c.format)) result shared' := by
  have hrest : ∀ e ∈ plan.rest items, e.kind = filter.kind :=
    fun e he => hitems e (Plan.mem_of_mem_rest he)
  have hdoes := does_phase dir c.format seed { shared with progress := {} } hclosed hrest
  rcases hfeed : feed (Worker.exportStep filter) (plan.rest items)
    ⟨freshPool dir c.format filter.kind.output seed, { shared with progress := {} }⟩ with ⟨fed, st⟩
  rw [hfeed] at hdoes
  obtain ⟨hfails, hends⟩ := writeKind_fed hclient hplan hworkers hfeed hdoes.onlyIo h
  have hdesk : Station.desk ⟨{ dir, format := c.format, kinds := [filter.kind.output] },
      { shared with progress := {} }⟩ =
        (shared.desk dir c.format).anew [filter.kind.output] := rfl
  unfold phase
  rcases hdoes.takeAll_cases with ⟨_, heq, htake⟩ | ⟨f, _, _, heq, htake⟩
  · cases heq
    rw [hdesk] at htake
    obtain ⟨-, hdir, hformat⟩ := Desk.settings_takeAll
      ((seed.map (Deed.seed filter.kind.output)).toList ++
        (plan.rest items).flatMap (KindFilters.single filter).deeds)
      ((shared.desk dir c.format).anew [filter.kind.output])
    rw [htake] at hdir hformat ⊢
    obtain ⟨progress, rfl, rfl⟩ := hends rfl
    exact shows_closed hdoes.sound hdir hformat filter.kind.output _ progress
  · cases heq
    rw [hdesk] at htake
    rw [htake]
    exact hfails f rfl

end Phase

/-! ## The job -/

/-- The elements of a graph that an export of a kind streams. -/
def streamed (g : Graph) (c : Config) (filter : LabelFilter) : List Element :=
  wanted c.windows.skip c.windows.limit (g.matching filter.kind filter.labels)

/-- What a job leaves if the deeds of its phases are done. -/
def closing (g : Graph) (c : Config) (dir : Path) (k : Desk) :
    Option (GraphSchema × Stats × FileTree) :=
  (phase c.format .nodes (deeds c.twoPass c.nodeFilter (streamed g c c.nodeFilter)) k).bind
    fun (nodes, k) =>
      (phase c.format .edges (deeds c.twoPass c.edgeFilter (streamed g c c.edgeFilter)) k).bind
        fun (edges, k) => Job.finish dir ⟨nodes, edges, ∅⟩ k.stats k.ledger.tree

section Whole

variable {g : Graph} {c : Config} {dir : Path} {filter : LabelFilter} {shared shared' : Shared}

/-- A worker by itself does what there is to be done in a phase, or the file system stops it. -/
theorem exportKind_deeds {turns : Turns} {result : Except Failure Collection}
    (hworkers : c.workers = 1) (hfit : (c.windows.skip + c.windows.limit.getD 0 : Nat) ≤ maxWord)
    (hclosed : shared.disk.budget.openCount = 0) (hturns : turns.scan = [] ∧ turns.write = [])
    (h : exportKind g.client c dir filter turns shared = (result, shared')) :
    Shows dir c.format (phase c.format filter.kind
      (deeds c.twoPass filter (streamed g c filter)) (shared.desk dir c.format)) result
        shared' := by
  obtain ⟨plan, hplan⟩ := g.exists_forFilter filter c.windows 1
  obtain ⟨hsound, hrest⟩ := Plan.rest_forFilter hfit hplan
  have hone := Plan.workers_forFilter hplan
  unfold exportKind at h
  rw [hworkers, hplan] at h
  have hkind : ∀ e ∈ g.matching filter.kind filter.labels, e.kind = filter.kind :=
    fun e he => (Graph.matching_whole he).2
  unfold deeds streamed
  rw [← hrest]
  cases hpass : c.twoPass with
  | false =>
    simp only [hpass, Bool.false_eq_true, if_false, hturns.2] at h
    exact writeKind_deeds (g.elements_windowQuery filter) hkind hsound hone none hclosed h
  | true =>
    simp only [hpass, if_true, hturns,
      scanKind_alone (g.elements_windowQuery filter) hsound hone] at h
    exact writeKind_deeds (g.elements_windowQuery filter) hkind hsound hone (some _) hclosed h

/-- All that a worker by itself leaves follows from the deeds of the two phases. -/
theorem left?_work (hvalid : c.validate = .ok ()) (hworkers : c.workers = 1)
    (hfit : (c.windows.skip + c.windows.limit.getD 0 : Nat) ≤ maxWord) (dir : Path) (t : FileTree) :
    OnlyIo (work g.client c (fun _ => {}) dir t).1 ∧
      Job.left? (work g.client c (fun _ => {}) dir t) = closing g c dir
        (Shared.desk dir c.format { disk := ⟨t, 0, { max := c.maxHandles }⟩ }) := by
  obtain ⟨hnodes, hedges⟩ := Config.kinds_of_validate hvalid
  unfold work closing exportAll
  dsimp only
  rcases hn : exportKind g.client c dir c.nodeFilter {}
    { disk := ⟨t, 0, { max := c.maxHandles }⟩ } with ⟨rn, shared₁⟩
  have hfirst := exportKind_deeds hworkers hfit rfl ⟨rfl, rfl⟩ hn
  rw [hnodes] at hfirst
  rcases hphase : phase c.format .nodes (deeds c.twoPass c.nodeFilter (streamed g c c.nodeFilter))
    (Shared.desk dir c.format { disk := ⟨t, 0, { max := c.maxHandles }⟩ }) with _ | ⟨nodes, k₁⟩
  · rw [hphase] at hfirst
    obtain ⟨f, rfl, hio⟩ := hfirst
    exact ⟨onlyIo_error hio, rfl⟩
  · rw [hphase] at hfirst
    obtain ⟨rfl, rfl, hclosed⟩ := hfirst
    rcases he : exportKind g.client c dir c.edgeFilter {} shared₁ with ⟨re, shared₂⟩
    have hsecond := exportKind_deeds hworkers hfit hclosed ⟨rfl, rfl⟩ he
    rw [hedges] at hsecond
    simp only [he, Option.bind_some]
    rcases hphase : phase c.format .edges (deeds c.twoPass c.edgeFilter
      (streamed g c c.edgeFilter)) (shared₁.desk dir c.format) with _ | ⟨edges, k₂⟩
    · rw [hphase] at hsecond
      obtain ⟨f, rfl, hio⟩ := hsecond
      exact ⟨onlyIo_error hio, rfl⟩
    · rw [hphase] at hsecond
      obtain ⟨rfl, rfl, -⟩ := hsecond
      have hartifacts := Job.writeArtifacts_onlyIo dir ⟨nodes, edges, ∅⟩ shared₂.stats
        shared₂.disk.tree
      simp only [Option.bind_some, Job.finish, Shared.desk]
      rcases hwrite : Job.writeArtifacts dir ⟨nodes, edges, ∅⟩ shared₂.stats shared₂.disk.tree with
        ⟨result, t'⟩
      rw [hwrite] at hartifacts
      cases result with
      | error f => exact ⟨onlyIo_error (hartifacts f rfl), rfl⟩
      | ok _ => exact ⟨onlyIo_ok _, rfl⟩

/-- So it is of a job in its output directory. -/
theorem left?_run (hvalid : c.validate = .ok ()) (hworkers : c.workers = 1)
    (hfit : (c.windows.skip + c.windows.limit.getD 0 : Nat) ≤ maxWord) (t : FileTree) :
    OnlyIo (run g.client c t).1 ∧ Job.left? (run g.client c t) =
      (t.openWay c.dir).bind fun way =>
        (closing g c c.dir.home (Shared.desk c.dir.home c.format
          { disk := ⟨way.2.view way.1 c.dir.home, 0, { max := c.maxHandles }⟩ })).map fun left =>
            (left.1, left.2.1, way.2.withView way.1 c.dir.home left.2.2) := by
  have hwork := left?_work (g := g) hvalid hworkers hfit
  have hrun : run g.client c t = Job.inOutput c.dir t (work g.client c fun _ => {}) := by
    simp only [run, runWith, hvalid]
  rw [hrun, Job.left?_inOutput]
  refine ⟨Job.inOutput_onlyIo fun home view => (hwork home view).1, ?_⟩
  simp only [(hwork _ _).2]

end Whole

end FullExport

end GraphExport
