import GraphExport.Proofs.Job.Phases
import GraphExport.Proofs.Source.PushDown
import GraphExport.Proofs.Source.ReadBack

/-!
# GraphExport.Proofs.Job.Agreement

A full export, and a query job that asks for all nodes and edges and reads the rows as elements. The
one has the source filter the elements, the other filters the rows.

* `Desk.Same`: lists of deeds that do the same.
* `Graph.deeds_matching`, `Graph.found_matching`: the elements that the source keeps back would be
  passed over.
* `QueryExport.same_deeds`: what is done for the rows of all elements of a kind is what a phase does
  for the elements that the filter asks for.
* `QueryExport.elementMaps_agree`: the two jobs leave the same files, or the file system stops both.
-/

namespace GraphExport

/-! ## Deeds that do the same -/

namespace Desk

/-- The deeds do the same, at every desk. -/
def Same (deeds deeds' : List Deed) : Prop := ∀ k : Desk, k.takeAll deeds = k.takeAll deeds'

variable {a a' b b' : List Deed}

theorem Same.refl (deeds : List Deed) : Same deeds deeds := fun _ => rfl

theorem Same.append (h : Same a a') (h' : Same b b') : Same (a ++ b) (a' ++ b') := by
  intro k
  rcases ha : k.takeAll a with ⟨result, k'⟩
  have ha' := (h k).symm.trans ha
  cases result with
  | error f => rw [takeAll_append_error ha, takeAll_append_error ha']
  | ok _ => rw [takeAll_append_ok ha, takeAll_append_ok ha', h' k']

theorem Same.flatMap {α : Type} {l : List α} {f f' : α → List Deed}
    (h : ∀ x ∈ l, Same (f x) (f' x)) : Same (l.flatMap f) (l.flatMap f') := by
  induction l with
  | nil => exact .refl []
  | cons x rest ih =>
    exact (h x List.mem_cons_self).append (ih fun y hy => h y (List.mem_cons_of_mem _ hy))

/-- A deed that does what another one does. -/
theorem same_of_take {d d' : Deed} (h : ∀ k, take d k = take d' k) : Same [d] [d'] := by
  intro k
  simp only [takeAll, feed, h]

/-- Files that are to have no columns from the start are as they were. -/
theorem same_seed_empty (kind : OutputKind) : Same [.seed kind ∅] [] := by
  intro k
  have hseeds : (k.ledger.seeds.modify kind fun c => c.union ∅) = k.ledger.seeds := by
    cases kind <;> rfl
  simp only [takeAll, feed, take, Ledger.act, hseeds]

end Desk

/-! ## Elements -/

namespace Element

variable {e e' : Element} {filters : KindFilters} {filter : LabelFilter}

/-- Elements with the same parts are written alike. -/
theorem Alike.deeds (h : e.Alike e') (filters : KindFilters) :
    Desk.Same (filters.deeds e) (filters.deeds e') := by
  unfold KindFilters.deeds
  rw [h.classify, h.kind]
  cases GraphExport.classify filters e' with
  | error f => exact .refl _
  | ok verdict =>
    cases verdict with
    | ignore => exact .refl _
    | write label properties =>
      refine Desk.same_of_take fun k => ?_
      simp only [Desk.take, Ledger.act, h.entry]

/-- Of the filters, the one of its own kind decides what is done with an element. -/
theorem deeds_of_get (h : filters.get e.kind = some filter) (hkind : e.kind = filter.kind) :
    filters.deeds e = (KindFilters.single filter).deeds e := by
  have hsingle : (KindFilters.single filter).get e.kind = some filter := by rw [hkind, get_single]
  simp only [KindFilters.deeds, classify, h, hsingle]

theorem scanElement_of_get (h : filters.get e.kind = some filter) (hkind : e.kind = filter.kind)
    (allowTokens : Bool) (g : GraphSchema) :
    scanElement filters allowTokens e g = scanElement (.single filter) allowTokens e g := by
  have hsingle : (KindFilters.single filter).get e.kind = some filter := by rw [hkind, get_single]
  simp only [scanElement, h, hsingle]

/-- Nothing is done with an element that does not pass the filter. -/
theorem deeds_of_barred (he : e.IsWhole) (hkind : e.kind = filter.kind)
    (h : filter.admits e = false) : (KindFilters.single filter).deeds e = [] := by
  have hnone : filter.rowOf? e = none := by
    rw [← Option.not_isSome_iff_eq_none, filter.isSome_rowOf?, h]
    exact Bool.false_ne_true
  rw [KindFilters.deeds, classify_whole he hkind, hnone]

theorem scanned?_of_barred (hkind : e.kind = filter.kind) (h : filter.admits e = false) :
    (KindFilters.single filter).scanned? e = none := by
  unfold LabelFilter.admits at h
  unfold KindFilters.scanned?
  rw [hkind, get_single]
  dsimp only
  split
  · rename_i label _ hlabel _
    rw [hlabel] at h
    exact if_neg (Bool.eq_false_iff.1 h)
  · rfl

end Element

namespace Graph

variable {g : Graph} {filter : LabelFilter}

theorem barred_of_not_matching {e : Element} (he : e ∈ g.matching filter.kind [])
    (h : acceptedAtSource filter.labels (labelAtSource e) = false) : filter.admits e = false := by
  by_contra hadmits
  rw [Bool.not_eq_false] at hadmits
  rw [acceptedAtSource_of_admits he hadmits] at h
  cases h

/-- The elements that the source keeps back have no deeds. -/
theorem deeds_matching (g : Graph) (filter : LabelFilter) :
    (g.matching filter.kind filter.labels).flatMap (KindFilters.single filter).deeds =
      (g.matching filter.kind []).flatMap (KindFilters.single filter).deeds := by
  have hfilter : ∀ l ⊆ g.matching filter.kind [],
      (l.filter fun e => acceptedAtSource filter.labels (labelAtSource e)).flatMap
        (KindFilters.single filter).deeds = l.flatMap (KindFilters.single filter).deeds := by
    intro l hl
    induction l with
    | nil => rfl
    | cons e rest ih =>
      have hrest := ih (List.subset_of_cons_subset hl)
      rw [List.filter_cons, List.flatMap_cons]
      split
      · rw [List.flatMap_cons, hrest]
      · rename_i hbarred
        have he := hl List.mem_cons_self
        obtain ⟨hwhole, hkind⟩ := matching_whole he
        rw [hrest, Element.deeds_of_barred hwhole hkind
          (barred_of_not_matching he (Bool.eq_false_iff.2 hbarred)), List.nil_append]
  rw [matching_eq_filter]
  exact hfilter _ (List.Subset.refl _)

/-- The elements that the source keeps back leave no trace in the schemas. -/
theorem found_matching (g : Graph) (filter : LabelFilter) :
    filter.found (g.matching filter.kind filter.labels) =
      filter.found (g.matching filter.kind []) := by
  have hrows : filter.scannedRows (g.matching filter.kind filter.labels) =
      filter.scannedRows (g.matching filter.kind []) := by
    rw [matching_eq_filter, LabelFilter.scannedRows, List.filterMap_filter]
    refine List.filterMap_congr fun e he => ?_
    split
    · rfl
    · rename_i hbarred
      exact (Element.scanned?_of_barred (matching_whole he).2
        (barred_of_not_matching he (Bool.eq_false_iff.2 hbarred))).symm
  rw [LabelFilter.found, hrows, LabelFilter.found]

end Graph

/-- A scan of elements of one kind finds their schemas and no others. -/
theorem get_scanAll (filter : LabelFilter) (elements : List Element) (g : GraphSchema)
    (kind : OutputKind) :
    (elements.foldl (fun g e => scanElement (.single filter) false e g) g).get kind =
      if kind = filter.kind.output then (g.get kind).updateAll false (filter.scannedRows elements)
      else g.get kind := by
  induction elements generalizing g with
  | nil => exact (ite_self _).symm
  | cons e rest ih =>
    have hrows : filter.scannedRows (e :: rest) =
        filter.scannedRows [e] ++ filter.scannedRows rest :=
      List.filterMap_append (l := [e])
    rw [List.foldl_cons, ih]
    split
    · rename_i heq
      rw [heq, get_scanElement, hrows]
      exact List.foldl_append.symm
    · rename_i hne
      rw [scanElement_eq]
      cases h : (KindFilters.single filter).scanned? e with
      | none => rfl
      | some row =>
        rw [KindFilters.kind_of_scanned? h]
        exact PerKind.get_set_of_ne _ _ hne

/-! ## Queries for all elements -/

/-- Structured queries need no more than a full export does. -/
theorem Config.validateForQueries_true {c : Config} (h : c.validate = .ok ()) :
    c.validateForQueries true = .ok () := by
  unfold validateForQueries queryFault?
  rw [validate_eq_ok.1 h]
  rfl

/-- The query for the elements of a kind, with all that they have. -/
def elementMapQuery : ElementKind → String
  | .nodes => "g.V().elementMap()"
  | .edges => "g.E().elementMap()"

theorem Graph.submit_elementMap (g : Graph) (kind : ElementKind) :
    g.submit (elementMapQuery kind) =
      { items := ((g.matching kind []).map (rowOf true true)).map .row } := by
  have hparse : Traversal.parse? (elementMapQuery kind) = some ⟨kind, [], .elementMap⟩ := by
    cases kind <;> decide +kernel
  rw [submit_all hparse, ← matching_all, project, List.map_map]
  rfl

namespace QueryExport

variable {g : Graph} {c : Config} {kind : ElementKind}

theorem get_filters (c : Config) (kind : ElementKind) :
    (filters c).get kind = some (c.filter kind) := by
  cases kind <;> rfl

/-- The rows of the elements of a kind are written as its elements are. -/
theorem same_rows (hkind : (c.filter kind).kind = kind)
    (hplain : ∀ e ∈ g.matching kind [], Graph.Plain e) (name : String) :
    Desk.Same (((g.matching kind []).map (Graph.rowOf true true)).flatMap (rowDeeds c true name))
      ((g.matching kind (c.filter kind).labels).flatMap
        (KindFilters.single (c.filter kind)).deeds) := by
  have hall := g.deeds_matching (c.filter kind)
  rw [hkind] at hall
  rw [hall, List.flatMap_map]
  refine Desk.Same.flatMap fun e he => ?_
  obtain ⟨hwhole, he'⟩ := Graph.matching_whole he
  rw [← Element.deeds_of_get (by rw [he', get_filters]) (he'.trans hkind.symm)]
  exact (Graph.alike_ofRow hwhole (hplain e he)).deeds (filters c)

/-- The rows of the elements of a kind have the schemas of its elements. -/
theorem same_seeds (hkind : (c.filter kind).kind = kind)
    (hplain : ∀ e ∈ g.matching kind [], Graph.Plain e) (name : String) :
    Desk.Same (seedDeeds c true name ((g.matching kind []).map (Graph.rowOf true true)))
      [.seed kind.output ((c.filter kind).found (g.matching kind (c.filter kind).labels))] := by
  have hfound := g.found_matching (c.filter kind)
  rw [hkind] at hfound
  have hscan : ((g.matching kind []).map (Graph.rowOf true true)).foldl
      (fun s row => scanElement (filters c) false (.ofRow row) s) GraphSchema.empty =
        (g.matching kind []).foldl
          (fun s e => scanElement (.single (c.filter kind)) false e s) GraphSchema.empty := by
    rw [List.foldl_map]
    refine List.foldl_ext _ _ _ fun s e he => ?_
    obtain ⟨hwhole, he'⟩ := Graph.matching_whole he
    rw [(Graph.alike_ofRow hwhole (hplain e he)).scanElement,
      Element.scanElement_of_get (by rw [he', get_filters]) (he'.trans hkind.symm)]
  have hget := get_scanAll (c.filter kind) (g.matching kind []) GraphSchema.empty
  unfold seedDeeds
  rw [if_pos rfl, hscan, hfound]
  generalize (g.matching kind []).foldl
    (fun s e => scanElement (.single (c.filter kind)) false e s) GraphSchema.empty = schema at hget
  rw [hkind] at hget
  dsimp only
  cases kind with
  | nodes =>
    have hnodes : schema.nodes = (c.filter .nodes).found (g.matching .nodes []) :=
      (hget .nodes).trans (if_pos rfl)
    have hedges : schema.edges = ∅ := (hget .edges).trans (if_neg (by decide))
    rw [hnodes, hedges]
    exact (Desk.Same.refl [_]).append (Desk.same_seed_empty .edges)
  | edges =>
    have hnodes : schema.nodes = ∅ := (hget .nodes).trans (if_neg (by decide))
    have hedges : schema.edges = (c.filter .edges).found (g.matching .edges []) :=
      (hget .edges).trans (if_pos rfl)
    rw [hnodes, hedges]
    exact (Desk.same_seed_empty .nodes).append (Desk.Same.refl [_])

/-- What is done for the rows of all elements of a kind is what a phase does for the elements that
the filter asks for. -/
theorem same_deeds (kind : ElementKind) (hkind : (c.filter kind).kind = kind)
    (hplain : ∀ e ∈ g.matching kind [], Graph.Plain e) {q : NamedQuery}
    (hquery : q.query = elementMapQuery kind) :
    Desk.Same (deeds g.client c true q) (FullExport.deeds c.twoPass (c.filter kind)
      (g.matching kind (c.filter kind).labels)) := by
  have hanswers : g.client.answers q.query = _ := hquery ▸ g.submit_elementMap kind
  unfold deeds FullExport.deeds
  simp only [hanswers, Delivery.rows_map, Delivery.fails_map, Bool.false_eq_true, if_false, hkind,
    List.append_nil]
  have hrows := same_rows hkind hplain q.name
  cases c.twoPass with
  | false => exact hrows
  | true => exact (same_seeds hkind hplain q.name).append hrows

theorem isOf_deeds {filter : LabelFilter} {elements : List Element}
    (h : ∀ e ∈ elements, e.kind = filter.kind) (twoPass : Bool) :
    ∀ d ∈ FullExport.deeds twoPass filter elements, d.IsOf filter.kind.output := by
  intro d hd
  rcases List.mem_append.1 hd with hseed | hrow
  · cases twoPass with
    | false => cases hseed
    | true =>
      rw [List.mem_singleton.1 hseed]
      exact rfl
  · obtain ⟨e, he, hrow⟩ := List.mem_flatMap.1 hrow
    unfold KindFilters.deeds at hrow
    split at hrow
    · cases hrow
    · rw [List.mem_singleton.1 hrow]
      exact congrArg ElementKind.output (h e he)
    · rw [List.mem_singleton.1 hrow]
      exact trivial

/-- The deeds of both queries leave what the two phases of a full export leave. -/
theorem closing_elementMaps (hvalid : c.validate = .ok ()) (hskip : c.windows.skip = 0)
    (hlimit : c.windows.limit = none)
    (hplain : ∀ kind, ∀ e ∈ g.matching kind [], Graph.Plain e) {queries : List NamedQuery}
    (hqueries : queries.map (·.query) = [elementMapQuery .nodes, elementMapQuery .edges])
    (dir : Path) (t : FileTree) :
    closing c dir ((startDesk c true dir t).takeAll (allDeeds g.client c true queries)) =
      FullExport.closing g c dir
        (Shared.desk dir c.format { disk := ⟨t, 0, { max := c.maxHandles }⟩ }) := by
  obtain ⟨hnodes, hedges⟩ := Config.kinds_of_validate hvalid
  have hstreamed : ∀ filter,
      FullExport.streamed g c filter = g.matching filter.kind filter.labels := by
    intro filter
    rw [FullExport.streamed, hskip, hlimit]
    rfl
  obtain ⟨q, rest, rfl, hq, hrest⟩ := List.map_eq_cons_iff.1 hqueries
  obtain ⟨q', rest, rfl, hq', hrest⟩ := List.map_eq_cons_iff.1 hrest
  obtain rfl := List.map_eq_nil_iff.1 hrest
  have hdeeds : Desk.Same (allDeeds g.client c true [q, q'])
      (FullExport.deeds c.twoPass c.nodeFilter (FullExport.streamed g c c.nodeFilter) ++
        FullExport.deeds c.twoPass c.edgeFilter (FullExport.streamed g c c.edgeFilter)) := by
    have hboth : allDeeds g.client c true [q, q'] =
        deeds g.client c true q ++ deeds g.client c true q' := by
      simp [allDeeds]
    rw [hboth, hstreamed, hstreamed, hnodes, hedges]
    exact (same_deeds .nodes hnodes (hplain .nodes) hq).append
      (same_deeds .edges hedges (hplain .edges) hq')
  have hkinds : ∀ filter, ∀ d ∈ FullExport.deeds c.twoPass filter (FullExport.streamed g c filter),
      d.IsOf filter.kind.output := fun filter =>
    isOf_deeds (fun e he => by
      rw [hstreamed] at he
      exact (Graph.matching_whole he).2) c.twoPass
  have hofNodes := hkinds c.nodeFilter
  have hofEdges := hkinds c.edgeFilter
  rw [hnodes] at hofNodes
  rw [hedges] at hofEdges
  rw [hdeeds, closing_phases hofNodes hofEdges t { max := c.maxHandles }]
  rfl

/-- A full export, and a query job that asks for all nodes and then for all edges and reads the rows
as elements, agree on every dump whose nodes have no colon in a tag: they leave the same schema, the
same statistics and the same files, byte for byte, or the file system stops both. The rows join the
tags of a node by colons, so where tags have colons of their own, a row says less than its node. -/
theorem elementMaps_agree {text : String} (hdump : Graph.ofDump text = .ok g)
    (htags : ∀ n ∈ g.nodes, ∀ tag ∈ n.tags, ':' ∉ tag.toList)
    (hvalid : c.validate = .ok ()) (hworkers : c.workers = 1) (hskip : c.windows.skip = 0)
    (hlimit : c.windows.limit = none) {groups : List NamedQueries}
    (hqueries : (groups.flatMap NamedQueries.flat).map (·.query) =
      ["g.V().elementMap()", "g.E().elementMap()"]) (t : FileTree) :
    (∃ f f', (run g.client c groups true false t).1 = .error f ∧ f.cause = .io ∧
        (FullExport.run g.client c t).1 = .error f' ∧ f'.cause = .io) ∨
      ∃ queried exported t', run g.client c groups true false t = (.ok queried, t') ∧
        FullExport.run g.client c t = (.ok exported, t') ∧
        queried.schema = exported.schema ∧ queried.stats = exported.stats := by
  have hplain : ∀ kind, ∀ e ∈ g.matching kind [], Graph.Plain e := fun _ =>
    Graph.plain_of_ofDump hdump htags
  have hsoft : ∀ q ∈ groups.flatMap NamedQueries.flat, (g.client.answers q.query).FailsSoftly := by
    intro q hq
    have hmem := List.mem_map_of_mem (f := NamedQuery.query) hq
    rw [hqueries] at hmem
    have helements : ∃ kind, q.query = elementMapQuery kind := by
      rcases List.mem_cons.1 hmem with hnodes | hedges
      · exact ⟨.nodes, hnodes⟩
      · exact ⟨.edges, List.mem_singleton.1 hedges⟩
    obtain ⟨kind, hquery⟩ := helements
    rw [hquery, show g.client.answers (elementMapQuery kind) = _ from g.submit_elementMap kind]
    exact Delivery.failsSoftly_of_none rfl
  have hfit : (c.windows.skip + c.windows.limit.getD 0 : Nat) ≤ maxWord := by
    rw [hskip, hlimit]
    decide
  obtain ⟨hio, hleft⟩ := left?_run hsoft hworkers (Config.validateForQueries_true hvalid) t
  obtain ⟨hio', hleft'⟩ := FullExport.left?_run (g := g) hvalid hworkers hfit t
  simp only [closing_elementMaps hvalid hskip hlimit hplain hqueries] at hleft
  have hagree := hleft.trans hleft'.symm
  rcases hqueried : run g.client c groups true false t with ⟨f | queried, t'⟩ <;>
    rcases hexported : FullExport.run g.client c t with ⟨f' | exported, t''⟩ <;>
    rw [hqueried, hexported] at hagree <;> rw [hqueried] at hio <;> rw [hexported] at hio'
  · exact .inl ⟨f, f', rfl, hio f rfl, rfl, hio' f' rfl⟩
  · cases hagree
  · cases hagree
  · obtain ⟨hschema, hrest⟩ := Prod.mk.inj (Option.some.inj hagree)
    obtain ⟨hstats, rfl⟩ := Prod.mk.inj hrest
    exact .inr ⟨queried, exported, t', rfl, rfl, hschema, hstats⟩

/-- Two nodes, of which one has two tags, and an edge between them. The file of the edge tells the
tags of its ends. -/
theorem elementMaps_agree_two_nodes :
    let text := "[[[\"1\",[\"person\",\"admin\"],\x7b\"age\":7\x7d],[\"2\",[\"person\"]]]," ++
      "[[\"3\",\"knows\",\"1\",\"2\"]]]"
    let edgeFilter := LabelFilter.all .edgeWithEndpoints
    let dir : Route := ⟨.ofNames [], ["out"]⟩
    let c : Config := { dir, workers := 1, maxHandles := 1, twoPass := true, edgeFilter }
    let groups : List NamedQueries := [⟨"all", ["g.V().elementMap()", "g.E().elementMap()"]⟩]
    ∃ g queried exported t', Graph.ofDump text = .ok g ∧
      run g.client c groups true false ∅ = (.ok queried, t') ∧
      FullExport.run g.client c ∅ = (.ok exported, t') ∧ queried.stats = exported.stats ∧
      t'.read? (.ofNames ["out", "edges", "_admin_person_-knows-_person_-3.csv"]) =
        some "~id,~label,~from,~to,~fromLabels,~toLabels\n3,knows,1,2,admin;person,person\n" := by
  intro text edgeFilter dir c groups
  have hplain : ((Graph.ofDump text).toOption.map fun g =>
      g.nodes.all fun n => n.tags.all fun tag => !tag.toList.contains ':') = some true := by
    decide +kernel
  have hrun : ((Graph.ofDump text).toOption.map fun g =>
      ((run g.client c groups true false ∅).1.isOk, (run g.client c groups true false ∅).2.read?
        (.ofNames ["out", "edges", "_admin_person_-knows-_person_-3.csv"]))) = some (true, some
          "~id,~label,~from,~to,~fromLabels,~toLabels\n3,knows,1,2,admin;person,person\n") := by
    decide +kernel
  cases hdump : Graph.ofDump text with
  | error f =>
    rw [hdump] at hplain
    cases hplain
  | ok g =>
    rw [hdump] at hplain hrun
    obtain ⟨hok, hread⟩ := Prod.mk.inj (Option.some.inj hrun)
    have htags : ∀ n ∈ g.nodes, ∀ tag ∈ n.tags, ':' ∉ tag.toList := by
      simpa [Except.toOption] using hplain
    have hqueries : (groups.flatMap NamedQueries.flat).map (·.query) =
      ["g.V().elementMap()", "g.E().elementMap()"] := rfl
    rcases elementMaps_agree hdump htags (c := c) (by decide) rfl rfl rfl hqueries ∅ with
      ⟨f, -, hfailed, -⟩ | ⟨queried, exported, t', hqueried, hexported, -, hstats⟩
    · rw [hfailed] at hok
      cases hok
    · rw [hqueried] at hread
      exact ⟨g, queried, exported, t', rfl, hqueried, hexported, hstats, hread⟩

end QueryExport

end GraphExport
