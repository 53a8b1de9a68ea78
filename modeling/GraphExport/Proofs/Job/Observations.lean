import GraphExport.Proofs.Crew.Shares
import GraphExport.Proofs.Job.Modes
import GraphExport.Proofs.Output.Gathered

/-!
# GraphExport.Proofs.Job.Observations

The properties of a label in the statistics of a full export and in the schema that it returns, in
one pass, with any number of workers and in any order of their steps. The statistics are kept in one
place, while each worker has schemas of its own files, which are put together in the end.

* `Tallies`: the statistics of some rows.
* `gathers_export`: what one window adds to the files of the worker and to the statistics.
* `FullExport.writeKind_numbers`: a phase counts the same rows on both sides.
* `FullExport.observations_agree_iff`: the statistics count every element that has the property, and
  the schema those that have a value that is not null, under a name that may have a column.
-/

namespace GraphExport

/-! ## Statistics -/

/-- The statistics of labels count the rows, and for each name the rows that have it, null or
not. -/
structure Tallies (labels : SortedMap Label LabelStats) (rows : List (Label × PropertyMap)) :
    Prop where
  count : ∀ label, (labels.get? label).map (·.count) =
    listed (Collection.mapsOf label rows).length
  property : ∀ label name, ((labels.get? label).bind fun l => l.properties.get? name) =
    listed ((Collection.mapsOf label rows).countP fun m => m.contains name)

theorem LabelStats.get?_record (s : LabelStats) (m : PropertyMap) (name : String) :
    (s.record m).properties.get? name =
      if m.contains name then some ((s.properties.get? name).getD 0 + 1)
      else s.properties.get? name := by
  have hget := SortedMap.get?_foldl_alter (fun (_ : Json) (n : Option Nat) => n.getD 0 + 1)
    m.increasing.nodup_keys s.properties name
  rw [LabelStats.record, SortedMap.keys, List.foldl_map, hget]
  show ((m.get? name).map _).or _ = if (m.get? name).isSome then _ else _
  cases m.get? name <;> rfl

theorem tallies_empty : Tallies ∅ [] := ⟨fun _ => rfl, fun _ _ => rfl⟩

/-- A row that is recorded is counted for its label, and for each of its names. -/
theorem Tallies.record {labels : SortedMap Label LabelStats} {rows : List (Label × PropertyMap)}
    (h : Tallies labels rows) (label : Label) (m : PropertyMap) :
    Tallies (labels.alter label fun l => (l.getD {}).record m) (rows ++ [(label, m)]) := by
  -- A label that is not listed starts with the numbers that it would have without rows.
  have hcount : ((labels.get? label).getD {}).count = (Collection.mapsOf label rows).length := by
    rw [← getD_listed (Collection.mapsOf label rows).length, ← h.count]
    cases labels.get? label <;> rfl
  have hproperty : ∀ name, (((labels.get? label).getD {}).properties.get? name) =
      listed ((Collection.mapsOf label rows).countP fun m => m.contains name) := fun name => by
    rw [← h.property]
    cases labels.get? label <;> rfl
  refine ⟨fun l => ?_, fun l name => ?_⟩ <;>
    rw [SortedMap.get?_alter, Collection.mapsOf_concat]
  · by_cases hl : l = label
    · subst hl
      rw [if_pos rfl, if_pos rfl, Option.map_some, LabelStats.record, hcount, List.length_append,
        List.length_singleton, listed_of_pos (Nat.succ_pos _)]
    · rw [if_neg hl, if_neg (Ne.symm hl), List.append_nil, h.count]
  · by_cases hl : l = label
    · subst hl
      rw [if_pos rfl, if_pos rfl, Option.bind_some, LabelStats.get?_record, hproperty,
        List.countP_append, List.countP_singleton]
      split
      · rw [getD_listed, listed_of_pos (Nat.succ_pos _)]
      · rw [Nat.add_zero]
    · rw [if_neg hl, if_neg (Ne.symm hl), List.append_nil, h.property]

/-- The statistics have counted the rows under one kind, and have the labels of the others as
before. -/
structure Stats.Counted (s : Stats) (kind : OutputKind) (before : Stats)
    (rows : List (Label × PropertyMap)) : Prop where
  own : Tallies (s.labels.get kind) rows
  others : ∀ other ≠ kind, s.labels.get other = before.labels.get other

theorem Stats.Counted.record {kind : OutputKind} {before s : Stats}
    {rows : List (Label × PropertyMap)} (h : s.Counted kind before rows) (label : Label)
    (m : PropertyMap) : (s.record kind label m).Counted kind before (rows ++ [(label, m)]) where
  own := by
    simp only [Stats.record, PerKind.modify, PerKind.get_set_self]
    exact h.own.record label m
  others other hne := (PerKind.get_set_of_ne _ _ hne).trans (h.others other hne)

/-! ## Schemas -/

/-- The values that are recorded of a name are those that are not null, if the name may have a
column. -/
theorem LabelSchema.length_valuesOf_false (name : String) (maps : List PropertyMap) :
    (valuesOf false name maps).length =
      if isTokenName name then 0 else maps.countP (carries name) := by
  cases htoken : isTokenName name with
  | false => exact length_valuesOf (by rw [htoken]; rfl) maps
  | true =>
    have hnil : valuesOf false name maps = [] := by
      by_contra hne
      have hallowed := (valuesOf_ne_nil_iff.1 hne).1
      rw [htoken] at hallowed
      cases hallowed
    rw [hnil]
    rfl

/-! ## One window -/

section Phase

variable {client : Client} {c : Config} {filter : LabelFilter} {dir : Path} {plan : Plan}
  {shared shared' : Shared} {schemas : Collection}

theorem Station.counted_put {before : Stats} {rows : List (Label × PropertyMap)} {s s' : Station}
    {e : Element} (h : s.shared.stats.Counted filter.kind.output before rows)
    (hput : s.put (.single filter) e = (.ok (), s')) :
    s'.shared.stats.Counted filter.kind.output before (rows ++ filter.writtenRows [e]) := by
  rcases Station.put_ok hput with ⟨hnone, -, hlabels⟩ | ⟨label, m, disk, hrow, -, -, hstats⟩
  · rw [hnone, List.append_nil]
    exact ⟨by rw [hlabels]; exact h.own, fun other hne => by rw [hlabels]; exact h.others other hne⟩
  · rw [hrow, hstats]
    exact h.record label m

/-- A window adds the rows of its elements to the files of the worker and to the statistics. -/
theorem gathers_export (client : Client) (filter : LabelFilter) (before : Stats) :
    (exportDuty client filter filter.kind).Gathers
      (fun windows pool => pool.Wrote filter.kind.output ∅
        (filter.writtenRows (windows.flatMap (client.deliver filter filter.kind))))
      fun windows shared => shared.stats.Counted filter.kind.output before
        (filter.writtenRows (windows.flatMap (client.deliver filter filter.kind))) where
  own h := ((follows_export client filter ∅).perform h).2.2
  shared {number w pool shared n pool' shared'} h done hcounted := by
    obtain ⟨-, hfeed⟩ := perform_export_ok h
    exact feed_put_keeps
      (P := fun rows s => s.shared.stats.Counted filter.kind.output before rows) id
      (fun hs hput => Station.counted_put hs hput) (s := ⟨pool, shared⟩) hcounted hfeed
  close h := h
  halt h := h

/-! ## A phase -/

theorem LabelFilter.writtenRows_flatten (filter : LabelFilter) (parts : List (List Element)) :
    (parts.map filter.writtenRows).flatten = filter.writtenRows parts.flatten := by
  rw [writtenRows, List.filterMap_flatten]
  rfl

/-- The elements that an export has handled: those of whole windows. Where the source lists its
elements, these are the wanted ones, each of them once. -/
structure Client.Handed (client : Client) (filter : LabelFilter) (s : WindowSettings)
    (elements : List Element) : Prop where
  windows : ∃ windows : List Window, elements = windows.flatMap (client.deliver filter filter.kind)
  wanted : ∀ items : List Element,
    (∀ w : Window, client.elements (windowQuery filter.kind filter w) =
      { items := w.slice items }) → (s.skip + s.limit.getD 0 : Nat) ≤ maxWord →
    (elements.map some).Perm ((Plan.wantedPositions s.skip s.limit items.length).map (items[·]?))

namespace FullExport

theorem handed_done {s : WindowSettings} {workers : Nat} (hworkers : workers ≠ 0)
    (hplan : Plan.forFilter client filter s workers = .ok plan) (own : Pool) (steps : List Nat)
    {left : List (PerKind Fragments)}
    (h : ((Crew.start plan.workers own plan { shared with progress := {} }).play
      (exportDuty client filter filter.kind) steps).results = .ok left) :
    client.Handed filter s
      (((Crew.start plan.workers own plan { shared with progress := {} }).done
        (exportDuty client filter filter.kind) steps).flatMap
          (client.deliver filter filter.kind)) := by
  refine ⟨⟨_, rfl⟩, fun items hclient hfit => ?_⟩
  obtain ⟨width, estimate, workers', hshared, rfl⟩ := Plan.forFilter_ok hplan
  have hpos : workers' ≠ 0 := by omega
  have hdeliver : ∀ w, client.deliver filter filter.kind w = w.slice items :=
    fun w => congrArg Delivery.items (hclient w)
  have hhands := Crew.handsOut_of_ready (streamsWindows_export hclient) hdeliver hfit steps
    (Crew.ready_start workers' own (.make filter.kind width s.skip s.limit estimate workers')
      shared)
  have hcomplete := hhands.complete (by simpa [Crew.start] using hpos) (Crew.stopped_of_results h)
  exact hhands.delivered ▸ hcomplete.map _

/-- A phase in one pass counts the same rows in the statistics and in the schemas. -/
theorem writeKind_numbers {turns : List Nat} {s : WindowSettings} {workers : Nat}
    (hworkers : workers ≠ 0) (hplan : Plan.forFilter client filter s workers = .ok plan)
    (hshared : shared.stats.labels.get filter.kind.output = ∅)
    (h : writeKind client c dir filter turns plan none shared = (.ok schemas, shared')) :
    ∃ elements, client.Handed filter s elements ∧
      shared'.stats.Counted filter.kind.output shared.stats (filter.writtenRows elements) ∧
      schemas.Lists (filter.writtenRows elements) := by
  obtain ⟨steps, hsteps⟩ := workedOff_eq_play client c dir filter turns plan none shared
  rw [writeKind_eq, hsteps] at h
  dsimp only at h
  split at h
  · cases h
  · rename_i left hresults
    have hwrote : (freshPool dir c.format filter.kind.output none).Wrote filter.kind.output ∅ [] :=
      @wrote_freshPool dir c.format filter.kind.output none Collection.labelled_empty
    have hstart : Stats.Counted { shared with progress := {} : Shared }.stats filter.kind.output
        shared.stats [] :=
      ⟨by rw [hshared]; exact tallies_empty, fun other _ => rfl⟩
    obtain ⟨parts, hparts, hperm, hcounted⟩ := Crew.exists_parts
      (gathers_export client filter shared.stats) hwrote plan.workers plan hstart steps hresults
    refine ⟨_, handed_done hworkers hplan _ steps hresults, ?_, ?_⟩
    · rw [← (Prod.mk.inj h).2]
      exact hcounted
    · obtain rfl := schemas_reconcile (Prod.ext (within_ok (Prod.mk.inj h).1) rfl)
      have htells : List.Forall₂ Fragments.Tells (left.map (·.get filter.kind.output))
          (parts.map fun part =>
            filter.writtenRows (part.flatMap (client.deliver filter filter.kind))) := by
        refine List.forall₂_map_left_iff.2 (List.forall₂_map_right_iff.2 (hparts.imp ?_))
        rintro r part ⟨own, shared₁, hwrote, rfl⟩
        exact hwrote.tells_close shared₁.disk
      have hrows := filter.writtenRows_flatten
        (parts.map fun part => part.flatMap (client.deliver filter filter.kind))
      rw [List.map_map] at hrows
      refine (hrows ▸ Masters.lists_schemas htells).perm ?_
      rw [← List.flatMap_def, ← List.flatMap_assoc, List.flatMap_id']
      exact (hperm.flatMap_right _).filterMap _

theorem exportKind_numbers {turns : Turns} (hworkers : c.workers ≠ 0) (hone : c.twoPass = false)
    (hshared : shared.stats.labels.get filter.kind.output = ∅)
    (h : exportKind client c dir filter turns shared = (.ok schemas, shared')) :
    ∃ elements, client.Handed filter c.windows elements ∧
      shared'.stats.Counted filter.kind.output shared.stats (filter.writtenRows elements) ∧
      schemas.Lists (filter.writtenRows elements) := by
  unfold exportKind at h
  split at h
  · cases h
  · rename_i plan hplan
    rw [hone, if_neg Bool.false_ne_true] at h
    exact writeKind_numbers hworkers hplan hshared h

end FullExport

end Phase

/-! ## The job -/

namespace FullExport

variable {client : Client} {c : Config} {turns : ElementKind → Turns} {t t' : FileTree}
  {summary : Summary}

/-- For each kind, the statistics and the schemas that a job returns are those of the same rows. -/
theorem numbers_runWith (hone : c.twoPass = false)
    (h : runWith client c turns t = (.ok summary, t')) :
    ∃ elements : ElementKind → List Element,
      (∀ kind, client.Handed (c.filter kind) c.windows (elements kind) ∧
        Tallies (summary.stats.labels.get kind.output)
          ((c.filter kind).writtenRows (elements kind)) ∧
        (summary.schema.get kind.output).Lists ((c.filter kind).writtenRows (elements kind))) ∧
      summary.stats.labels.results = ∅ ∧ summary.schema.results = ∅ := by
  unfold runWith at h
  split at h
  · cases h
  · rename_i hvalid
    obtain ⟨place, t₁, view, inside, -, hwork, -⟩ := Job.inOutput_ok h
    obtain ⟨shared, hall, -, hstats⟩ := work_ok hwork
    obtain ⟨nodes, edges, shared₁, hnodes, hedges, hschema⟩ := exportAll_ok hall
    have hworkers := Config.workers_of_validate hvalid
    have hnodeKind : c.nodeFilter.kind = .nodes := Config.kind_filter hvalid .nodes
    have hedgeKind : c.edgeFilter.kind = .edges := Config.kind_filter hvalid .edges
    obtain ⟨nodeElements, hnodeHanded, hnodeCounted, hnodeLists⟩ :=
      exportKind_numbers hworkers hone (by rw [hnodeKind]; rfl) hnodes
    rw [hnodeKind] at hnodeCounted
    obtain ⟨edgeElements, hedgeHanded, hedgeCounted, hedgeLists⟩ :=
      exportKind_numbers hworkers hone
        (by rw [hedgeKind]; exact hnodeCounted.others .edges (by decide)) hedges
    rw [hedgeKind] at hedgeCounted
    refine ⟨fun kind => if kind = .nodes then nodeElements else edgeElements, fun kind => ?_,
      ?_, ?_⟩
    · rw [hstats, hschema]
      cases kind with
      | nodes =>
        refine ⟨hnodeHanded, ?_, hnodeLists⟩
        exact (hedgeCounted.others .nodes (by decide)).symm ▸ hnodeCounted.own
      | edges => exact ⟨hedgeHanded, hedgeCounted.own, hedgeLists⟩
    · rw [hstats]
      exact (hedgeCounted.others .results (by decide)).trans
        (hnodeCounted.others .results (by decide))
    · rw [hschema]

end FullExport

/-- How often the statistics count a property under a label, where they list it. -/
def Stats.propertyCount? (s : Stats) (kind : OutputKind) (label : Label) (name : String) :
    Option Nat :=
  ((s.labels.get kind).get? label).bind fun l => l.properties.get? name

/-- The observations of a column in the schema of a label, where it is there. -/
def GraphSchema.observations? (g : GraphSchema) (kind : OutputKind) (label : Label)
    (name : String) : Option Nat :=
  ((g.get kind).get? label).bind fun s => (s.columns.get? name).map (·.observations)

theorem countP_eq_countP_iff {α : Type} {p q : α → Bool} (h : ∀ a, q a = true → p a = true)
    (l : List α) : l.countP p = l.countP q ↔ ∀ a ∈ l, p a = true → q a = true := by
  induction l with
  | nil => simp
  | cons a rest ih =>
    have hle : rest.countP q ≤ rest.countP p := List.countP_mono_left fun a _ => h a
    have ha := h a
    rw [List.countP_cons, List.countP_cons, List.forall_mem_cons, ← ih]
    cases hp : p a <;> cases hq : q a <;> simp_all
    omega

/-- The elements that have a property and the values that are recorded of it are as many if and only
if every such value is recorded. -/
theorem listed_contains_eq_iff (name : String) (maps : List PropertyMap) :
    (listed (maps.countP fun m => m.contains name) =
        if LabelSchema.isTokenName name then none else listed (maps.countP (carries name))) ↔
      ∀ m ∈ maps, m.contains name = true →
        LabelSchema.isTokenName name = false ∧ carries name m = true := by
  have hcontains : ∀ m : PropertyMap, carries name m = true → m.contains name = true := by
    intro m hm
    unfold carries at hm
    unfold SortedMap.contains
    cases hget : m.get? name with
    | none => rw [hget] at hm; cases hm
    | some v => rfl
  cases LabelSchema.isTokenName name with
  | true =>
    have hnone : listed (maps.countP fun m => m.contains name) = none ↔
        maps.countP (fun m => m.contains name) = 0 := by simp [listed]
    rw [if_pos rfl, hnone, List.countP_eq_zero]
    simp
  | false =>
    have hlisted : ∀ {a b : Nat}, listed a = listed b ↔ a = b := fun {a b} =>
      ⟨fun heq => by rw [← getD_listed a, heq, getD_listed], congrArg listed⟩
    rw [if_neg Bool.false_ne_true, hlisted, countP_eq_countP_iff hcontains]
    simp

namespace FullExport

/-- A full export in one pass that ends well, with any number of workers and in any order of their
steps. For each kind and label the statistics and the schema list the same number of elements. The
statistics count for each property the elements that have it, and the schema counts those that have
a value other than null, of a name that is no token. So the two agree on a property if and only if
no element of the label has it as null or as a token. Of results there is nothing on either side. -/
theorem observations_agree_iff {client : Client} {c : Config} {turns : ElementKind → Turns}
    {t t' : FileTree} {summary : Summary} (hone : c.twoPass = false)
    (h : runWith client c turns t = (.ok summary, t')) :
    ∃ elements : ElementKind → List Element,
      (∀ kind, client.Handed (c.filter kind) c.windows (elements kind)) ∧
      (∀ kind label,
        let maps := Collection.mapsOf label ((c.filter kind).writtenRows (elements kind))
        ((summary.stats.labels.get kind.output).get? label).map (·.count) = listed maps.length ∧
        ((summary.schema.get kind.output).get? label).map (·.count) = listed maps.length ∧
        ∀ name,
          summary.stats.propertyCount? kind.output label name =
            listed (maps.countP fun m => m.contains name) ∧
          (summary.schema.observations? kind.output label name =
            if LabelSchema.isTokenName name then none else listed (maps.countP (carries name))) ∧
          (summary.stats.propertyCount? kind.output label name =
              summary.schema.observations? kind.output label name ↔
            ∀ m ∈ maps, m.contains name = true →
              LabelSchema.isTokenName name = false ∧ carries name m = true)) ∧
      summary.stats.labels.results = ∅ ∧ summary.schema.results = ∅ := by
  obtain ⟨elements, hall, hresults⟩ := numbers_runWith hone h
  refine ⟨elements, fun kind => (hall kind).1, fun kind label => ?_, hresults⟩
  obtain ⟨-, htallies, hlists⟩ := hall kind
  refine ⟨htallies.count label, hlists.count label, fun name => ?_⟩
  have hstats : summary.stats.propertyCount? kind.output label name = _ :=
    htallies.property label name
  have hschema : summary.schema.observations? kind.output label name = _ :=
    hlists.column label name
  have hvalues : ∀ maps, listed (LabelSchema.valuesOf false name maps).length =
      if LabelSchema.isTokenName name then none else listed (maps.countP (carries name)) := by
    intro maps
    rw [LabelSchema.length_valuesOf_false]
    split <;> rfl
  rw [hvalues] at hschema
  exact ⟨hstats, hschema, by rw [hstats, hschema]; exact listed_contains_eq_iff name _⟩

/-- A node with a null and one with the name of a token. -/
def nullAndToken : List Element :=
  [.node { id := "1", tags := ["t"], properties := .ofList [("p", .null), ("q", .str "x")] },
    .node { id := "2", tags := ["t"], properties := .ofList [("q", .str "y"), ("~r", .str "z")] }]

/-- The statistics list a null and a token that have no column. The other property is counted
alike. -/
theorem observations_agree_iff_null_and_token :
    let client := Client.scripted (some 2) nullAndToken [] []
    let c : Config :=
      { dir := ⟨.ofNames [], ["out"]⟩, workers := 2
        windows := { width := 1, approxNodes := some 1000, approxEdges := some 1000 } }
    let turns : ElementKind → Turns := fun _ => { write := [0, 1, 0, 1, 0, 1, 1, 0, 0, 1, 0, 1] }
    ∃ summary t', runWith client c turns ∅ = (.ok summary, t') ∧
      ["p", "q", "~r"].map (fun name => (summary.stats.propertyCount? .nodes (.single "t") name,
        summary.schema.observations? .nodes (.single "t") name)) =
          [(some 1, none), (some 2, some 2), (some 1, none)] ∧
      ∃ elements : ElementKind → List Element,
        (∀ kind, client.Handed (c.filter kind) c.windows (elements kind)) ∧
        ∀ name, (summary.stats.propertyCount? .nodes (.single "t") name =
            summary.schema.observations? .nodes (.single "t") name ↔
          ∀ m ∈ Collection.mapsOf (.single "t") (c.nodeFilter.writtenRows (elements .nodes)),
            m.contains name = true →
              LabelSchema.isTokenName name = false ∧ carries name m = true) := by
  intro client c turns
  have hrun : ((runWith client c turns ∅).1.toOption.map fun summary =>
      ["p", "q", "~r"].map fun name => (summary.stats.propertyCount? .nodes (.single "t") name,
        summary.schema.observations? .nodes (.single "t") name)) =
          some [(some 1, none), (some 2, some 2), (some 1, none)] := by decide +kernel
  rcases hresult : runWith client c turns ∅ with ⟨result, t'⟩
  rw [hresult] at hrun
  obtain ⟨summary, hok, hnumbers⟩ := Option.map_eq_some_iff.1 hrun
  obtain rfl := eq_ok_of_toOption hok
  obtain ⟨elements, hhanded, hall, -⟩ := observations_agree_iff rfl hresult
  exact ⟨summary, t', rfl, hnumbers, elements, hhanded, fun name =>
    ((hall .nodes (.single "t")).2.2 name).2.2⟩

end FullExport

end GraphExport
