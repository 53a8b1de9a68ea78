import GraphExport.Proofs.Crew.Alone
import GraphExport.Proofs.Job.Plans
import GraphExport.Proofs.Source.PushDown
import GraphExport.Proofs.Source.Spliced

/-!
# GraphExport.Proofs.Job.Splitting

Splitting a query over the windows of a plan. The windows cut the sequence of all elements, before
any step of the query, so a query that takes every element by itself gives over the windows what it
gives over the elements of the plan.

* `split_eq`: a query is split in the same way however often the plans were used before.
* `split_delivers_wanted`: the rows of the texts are the rows of the query on the wanted elements.
-/

namespace GraphExport

/-! ## Plans that are shared -/

/-- The plans that are kept are those that would be made now. -/
def PlanCache.Fresh (client : Client) (config : Config) (cache : PlanCache) : Prop :=
  ∀ kind p, cache.get? kind = some p →
    Plan.forFilter client (config.filter kind) config.windows config.workers = .ok p

/-- The plans that are kept after groups of queries were split. -/
def PlanCache.afterSplitting (client : Client) (config : Config) (earlier : List NamedQueries) :
    PlanCache :=
  earlier.foldl (fun cache group => (group.split client config cache).2) {}

namespace PlanCache

variable {client : Client} {config : Config} {cache cache' : PlanCache}

theorem fresh_empty (client : Client) (config : Config) : Fresh client config {} := by
  intro kind p h
  cases kind <;> cases h

theorem get?_set (cache : PlanCache) (kind kind' : ElementKind) (p : Plan) :
    (cache.set kind p).get? kind' = if kind' = kind then some p else cache.get? kind' := by
  cases kind <;> cases kind' <;> rfl

theorem Fresh.set (h : Fresh client config cache) {kind : ElementKind} {p : Plan}
    (hp : Plan.forFilter client (config.filter kind) config.windows config.workers = .ok p) :
    Fresh client config (cache.set kind p) := by
  intro kind' q hq
  rw [get?_set] at hq
  split at hq
  · rename_i hkind
    cases hq
    rw [hkind]
    exact hp
  · exact h kind' q hq

/-- A plan is the same whether it was kept or is made now. -/
theorem Fresh.planFor (h : Fresh client config cache) (kind : ElementKind) :
    (∃ p, Plan.forFilter client (config.filter kind) config.windows config.workers = .ok p ∧
      ∃ cache', cache.planFor client config kind = .ok (p, cache') ∧
        Fresh client config cache') ∨
    ∃ f, Plan.forFilter client (config.filter kind) config.windows config.workers = .error f ∧
      cache.planFor client config kind = .error f := by
  cases hget : cache.get? kind with
  | some p => exact .inl ⟨p, h kind p hget, cache, by simp only [PlanCache.planFor, hget], h⟩
  | none =>
    cases hp : Plan.forFilter client (config.filter kind) config.windows config.workers with
    | ok p =>
      exact .inl ⟨p, rfl, cache.set kind p, by simp only [PlanCache.planFor, hget, hp], h.set hp⟩
    | error f => exact .inr ⟨f, rfl, by simp only [PlanCache.planFor, hget, hp]⟩

end PlanCache

/-- What a query is split into, with a plan of its own. -/
def splitAlone (client : Client) (config : Config) (query : String) :
    Except Failure (List String) :=
  match cutQuery query with
  | none => .ok [query]
  | some (kind, source, rest) =>
    (Plan.forFilter client (config.filter kind) config.windows config.workers).map fun plan =>
      splitAt source rest query plan.remaining

theorem splitQueries_fresh {client : Client} {config : Config} {cache : PlanCache}
    (h : cache.Fresh client config) (queries : List String) :
    (splitQueries client config queries cache).1 =
        (queries.mapM (splitAlone client config)).map List.flatten ∧
      (splitQueries client config queries cache).2.Fresh client config := by
  induction queries generalizing cache with
  | nil => exact ⟨rfl, h⟩
  | cons query queries ih =>
    rw [List.mapM_cons]
    cases hcut : cutQuery query with
    | none =>
      obtain ⟨hresult, hfresh⟩ := ih h
      have halone : splitAlone client config query = .ok [query] := by
        simp only [splitAlone, hcut]
      simp only [splitQueries, hcut]
      refine ⟨?_, hfresh⟩
      rw [hresult, halone]
      cases queries.mapM (splitAlone client config) <;> rfl
    | some cut =>
      obtain ⟨kind, source, rest⟩ := cut
      rcases h.planFor kind with ⟨plan, hplan, cache', hcache, hfresh'⟩ | ⟨f, hplan, hcache⟩
      · have halone : splitAlone client config query =
            .ok (splitAt source rest query plan.remaining) := by
          simp only [splitAlone, hcut, hplan]
          rfl
        have hback : plan.drained.reset = plan := by
          obtain ⟨width, estimate, workers, -, rfl⟩ := Plan.forFilter_ok hplan
          rw [Plan.drained, Plan.reset_after, Plan.reset_make]
        obtain ⟨hresult, hfresh⟩ := ih (hfresh'.set hplan)
        simp only [splitQueries, hcut, hcache, hback]
        refine ⟨?_, hfresh⟩
        rw [hresult, halone]
        cases queries.mapM (splitAlone client config) <;> rfl
      · have halone : splitAlone client config query = .error f := by
          simp only [splitAlone, hcut, hplan]
          rfl
        simp only [splitQueries, hcut, hcache, halone]
        exact ⟨rfl, h⟩

theorem fresh_afterSplitting (client : Client) (config : Config) (earlier : List NamedQueries) :
    (PlanCache.afterSplitting client config earlier).Fresh client config := by
  suffices h : ∀ cache : PlanCache, cache.Fresh client config →
      (earlier.foldl (fun cache group => (group.split client config cache).2) cache).Fresh client
        config from h {} (PlanCache.fresh_empty client config)
  induction earlier with
  | nil => exact fun cache h => h
  | cons group earlier ih =>
    exact fun cache h => ih _ (splitQueries_fresh h group.queries).2

/-- Splitting takes each query by itself, whatever was split before. -/
theorem split_eq (client : Client) (config : Config) (earlier : List NamedQueries)
    (group : NamedQueries) :
    (group.split client config (.afterSplitting client config earlier)).1 =
      (group.queries.mapM (splitAlone client config)).map
        fun texts => { group with queries := texts.flatten } := by
  have h := (splitQueries_fresh (fresh_afterSplitting client config earlier) group.queries).1
  simp only [NamedQueries.split, h]
  cases group.queries.mapM (splitAlone client config) <;> rfl

/-! ## Queries that take every element by itself -/

/-- The traversal keeps or drops each element for what it is, and answers for each that it keeps. -/
def Traversal.IsElementwise (t : Traversal) : Prop :=
  (∀ step ∈ t.steps, ∃ tags, step = .hasLabel tags) ∧ t.projection ≠ .count

namespace Graph

/-- The graph with the elements of a kind from `skip` on, at most `limit` of them. -/
def cut (g : Graph) (kind : ElementKind) (skip : Nat) (limit : Option Nat) : Graph :=
  match kind with
  | .nodes => { g with nodes := wanted skip limit g.nodes }
  | .edges => { g with edges := wanted skip limit g.edges }

theorem map_wanted {α β : Type} (f : α → β) (skip : Nat) (limit : Option Nat) (items : List α) :
    (wanted skip limit items).map f = wanted skip limit (items.map f) := by
  cases limit <;> simp only [wanted, List.map_drop, List.map_take]

theorem matching_cut (g : Graph) (kind : ElementKind) (skip : Nat) (limit : Option Nat) :
    (g.cut kind skip limit).matching kind [] = wanted skip limit (g.matching kind []) := by
  cases kind <;> simp only [matching_all, all, cut, map_wanted]

/-- What a traversal answers to a sequence of elements. -/
def answersTo (t : Traversal) (items : List Element) : List Answer :=
  project (t.steps.foldl applyStep items) t.projection

theorem foldl_applyStep_append {steps : List Step}
    (h : ∀ step ∈ steps, ∃ tags, step = .hasLabel tags) (a b : List Element) :
    steps.foldl applyStep (a ++ b) = steps.foldl applyStep a ++ steps.foldl applyStep b := by
  induction steps generalizing a b with
  | nil => rfl
  | cons step steps ih =>
    obtain ⟨tags, rfl⟩ := h step List.mem_cons_self
    simp only [List.foldl_cons, applyStep, List.filter_append]
    exact ih (fun step hstep => h step (List.mem_cons_of_mem _ hstep)) _ _

theorem foldl_applyStep_nil {steps : List Step}
    (h : ∀ step ∈ steps, ∃ tags, step = .hasLabel tags) : steps.foldl applyStep [] = [] := by
  induction steps with
  | nil => rfl
  | cons step steps ih =>
    obtain ⟨tags, rfl⟩ := h step List.mem_cons_self
    exact ih fun step hstep => h step (List.mem_cons_of_mem _ hstep)

theorem project_append {p : Projection} (h : p ≠ .count) (a b : List Element) :
    project (a ++ b) p = project a p ++ project b p := by
  cases p with
  | count => exact absurd rfl h
  | _ => simp only [project, List.map_append]

theorem project_nil {p : Projection} (h : p ≠ .count) : project [] p = [] := by
  cases p with
  | count => exact absurd rfl h
  | _ => rfl

/-- Asked piece by piece, such a traversal answers as it does to the whole. -/
theorem flatMap_answersTo {α : Type} {t : Traversal} (ht : t.IsElementwise) (pieces : List α)
    (f : α → List Element) :
    pieces.flatMap (fun a => answersTo t (f a)) = answersTo t (pieces.flatMap f) := by
  induction pieces with
  | nil => simp [answersTo, foldl_applyStep_nil ht.1, project_nil ht.2]
  | cons a pieces ih =>
    rw [List.flatMap_cons, List.flatMap_cons, ih]
    simp only [answersTo]
    rw [foldl_applyStep_append ht.1, project_append ht.2]

theorem submit_of_parse {g : Graph} {query : String} {t : Traversal}
    (h : Traversal.parse? query = some t) :
    g.submit query = { items := answersTo t (g.matching t.kind []) } := by
  simp only [submit, h, run, answersTo]

/-- The text for a window asks the query of the elements in the window. -/
theorem submit_splitAt {g : Graph} {query source rest : String} {kind : ElementKind}
    {t : Traversal} (hcut : cutQuery query = some (kind, source, rest))
    (hparse : Traversal.parse? query = some t) {w : Window}
    (hstart : minWord ≤ w.start ∧ w.start ≤ maxWord) (hstop : minWord ≤ w.stop ∧ w.stop ≤ maxWord) :
    (Traversal.parse? (if w.isAll then query else source ++ "." ++ w.text ++ rest)).isSome ∧
      g.submit (if w.isAll then query else source ++ "." ++ w.text ++ rest) =
        { items := answersTo t (w.slice (g.matching t.kind [])) } := by
  by_cases hall : w.isAll = true
  · have hw : w = .all := of_decide_eq_true hall
    rw [if_pos hall, submit_of_parse hparse, hparse, hw, Window.slice_all]
    exact ⟨rfl, rfl⟩
  · have hspliced := Traversal.parse?_spliced hcut hparse hstart hstop
    rw [if_neg hall, submit_of_parse hspliced, hspliced]
    exact ⟨rfl, rfl⟩

theorem exists_splitAlone (g : Graph) (c : Config) (query : String) :
    ∃ texts, splitAlone g.client c query = .ok texts := by
  unfold splitAlone
  split
  · exact ⟨_, rfl⟩
  · rename_i kind source rest hcut
    obtain ⟨p, hp⟩ := g.exists_forFilter (c.filter kind) c.windows c.workers
    exact ⟨_, by rw [hp]; rfl⟩

/-- A graph can be counted, so every group is split, each of its queries into its own texts. -/
theorem exists_splitTexts (g : Graph) (c : Config) :
    ∃ texts : String → List String, (∀ query, splitAlone g.client c query = .ok (texts query)) ∧
      ∀ earlier group, (NamedQueries.split g.client c group
        (.afterSplitting g.client c earlier)).1 =
          .ok { group with queries := group.queries.flatMap texts } := by
  obtain ⟨texts, htexts⟩ := Classical.skolem.1 (exists_splitAlone g c)
  refine ⟨texts, htexts, fun earlier group => ?_⟩
  have hmap : group.queries.mapM (splitAlone g.client c) = .ok (group.queries.map texts) := by
    rw [show splitAlone g.client c = fun query => .ok (texts query) from funext htexts]
    exact List.mapM_pure
  rw [split_eq, hmap, List.flatMap_def]
  rfl

/-- The texts for the windows of a plan ask the query of the elements of the plan. -/
theorem splitAt_delivers {g : Graph} {query source rest : String} {kind : ElementKind}
    {t : Traversal} (hcut : cutQuery query = some (kind, source, rest))
    (hparse : Traversal.parse? query = some t) (ht : t.IsElementwise) {p : Plan} (hp : p.Sound) :
    (∀ text ∈ splitAt source rest query p.remaining,
      (Traversal.parse? text).isSome ∧ (g.submit text).failure = none) ∧
    (splitAt source rest query p.remaining).flatMap (fun text => (g.submit text).items) =
      answersTo t (p.rest (g.matching t.kind [])) := by
  have hwindow := fun w (hw : w ∈ p.remaining) =>
    submit_splitAt (g := g) hcut hparse (Plan.bounds_of_mem_windows hp hw).1
      (Plan.bounds_of_mem_windows hp hw).2
  constructor
  · intro text htext
    obtain ⟨w, hw, rfl⟩ := List.mem_map.1 htext
    exact ⟨(hwindow w hw).1, congrArg Delivery.failure (hwindow w hw).2⟩
  · rw [← Plan.flatMap_remaining hp, ← flatMap_answersTo ht, splitAt, List.flatMap_map]
    exact List.flatMap_congr fun w hw => congrArg Delivery.items (hwindow w hw).2

theorem splitAlone_delivers {g : Graph} {c : Config} {query : String} {t : Traversal}
    (hfit : (c.windows.skip + c.windows.limit.getD 0 : Nat) ≤ maxWord)
    (hparse : Traversal.parse? query = some t) (ht : t.IsElementwise) {texts : List String}
    (h : splitAlone g.client c query = .ok texts) :
    (∀ text ∈ texts, (Traversal.parse? text).isSome ∧ (g.submit text).failure = none) ∧
      texts.flatMap (fun text => (g.submit text).items) =
        ((g.cut t.kind c.windows.skip c.windows.limit).submit query).items := by
  obtain ⟨source, rest, hcut⟩ := Traversal.cutQuery_of_parse? hparse
  obtain ⟨p, hplan⟩ := g.exists_forFilter (c.filter t.kind) c.windows c.workers
  have htexts : texts = splitAt source rest query p.remaining := by
    simp only [splitAlone, hcut, hplan] at h
    exact (Except.ok.inj h).symm
  obtain ⟨hp, hrest⟩ := Plan.rest_forFilter hfit hplan
  rw [htexts, submit_of_parse hparse, matching_cut, ← hrest]
  exact splitAt_delivers hcut hparse ht hp

/-- Every query is split in one way, whatever was split before with the same plans and whatever
stands around it in its group. Where the query takes each element by itself, the texts are
traversals again, and their rows, put together in order, are the rows of the query on the graph
whose elements of that kind are the wanted ones. -/
theorem split_delivers_wanted (g : Graph) (c : Config) (query : String) (t : Traversal)
    (hfit : (c.windows.skip + c.windows.limit.getD 0 : Nat) ≤ maxWord)
    (hparse : Traversal.parse? query = some t) (ht : t.IsElementwise) :
    ∃ texts : List String,
      (∀ (earlier : List NamedQueries) (name : String) (before after : List String),
        ∃ first last : List String,
          (NamedQueries.split g.client c ⟨name, before⟩ {}).1 = .ok ⟨name, first⟩ ∧
          (NamedQueries.split g.client c ⟨name, after⟩ {}).1 = .ok ⟨name, last⟩ ∧
          (NamedQueries.split g.client c ⟨name, before ++ query :: after⟩
            (.afterSplitting g.client c earlier)).1 = .ok ⟨name, first ++ texts ++ last⟩) ∧
      (∀ text ∈ texts, (Traversal.parse? text).isSome ∧ (g.submit text).failure = none) ∧
      texts.flatMap (fun text => (g.submit text).items) =
        ((g.cut t.kind c.windows.skip c.windows.limit).submit query).items := by
  obtain ⟨texts, halone, hsplit⟩ := exists_splitTexts g c
  obtain ⟨hread, hrows⟩ := splitAlone_delivers hfit hparse ht (halone query)
  refine ⟨texts query, fun earlier name before after => ?_, hread, hrows⟩
  have hempty : PlanCache.afterSplitting g.client c [] = {} := rfl
  have hbefore := hsplit [] ⟨name, before⟩
  have hafter := hsplit [] ⟨name, after⟩
  rw [hempty] at hbefore hafter
  refine ⟨before.flatMap texts, after.flatMap texts, hbefore, hafter, ?_⟩
  rw [hsplit earlier ⟨name, before ++ query :: after⟩]
  simp

/-- Three nodes, of which the first is skipped, in windows of one element. -/
theorem split_delivers_wanted_three_nodes :
    let g : Graph := ⟨[⟨"1", ["a"], ∅⟩, ⟨"2", ["b"], ∅⟩, ⟨"3", ["a"], ∅⟩], []⟩
    let c : Config :=
      { dir := ⟨.top, ["out"]⟩, windows := { width := 1, skip := 1, limit := some 5 } }
    let t : Traversal := ⟨.nodes, [.hasLabel ["a"]], .id⟩
    (c.windows.skip + c.windows.limit.getD 0 : Nat) ≤ maxWord ∧
      Traversal.parse? "g.V().hasLabel('a').id()" = some t ∧ t.IsElementwise ∧
      ∃ texts : List String, ∀ earlier : List NamedQueries,
        (NamedQueries.split g.client c ⟨"a", ["g.V().hasLabel('a').id()"]⟩
          (.afterSplitting g.client c earlier)).1 = .ok ⟨"a", texts⟩ ∧
        texts.flatMap (fun text => (g.submit text).items) = [.value (.str "3")] := by
  intro g c t
  have hparse : Traversal.parse? "g.V().hasLabel('a').id()" = some t := by
    have hsource : Traversal.cutSource "g.V().hasLabel('a').id()".toList =
        some (.nodes, ".hasLabel('a').id()".toList) := by decide
    have hfirst : Traversal.cutStep ".hasLabel('a').id()".toList =
        some ("hasLabel".toList, "'a'".toList, ".id()".toList) := by decide
    have hsecond : Traversal.cutStep ".id()".toList = some ("id".toList, [], []) := by decide
    rw [Traversal.parse?_eq_of_cut hsource, Traversal.cutSteps_of_cutStep hfirst,
      Traversal.cutSteps_of_cutStep hsecond, Traversal.cutSteps_of_none rfl]
    rfl
  have ht : t.IsElementwise := by
    refine ⟨fun step hstep => ⟨["a"], List.mem_singleton.1 hstep⟩, by decide⟩
  obtain ⟨texts, hsplit, -, hrows⟩ :=
    split_delivers_wanted g c "g.V().hasLabel('a').id()" t (by decide) hparse ht
  refine ⟨by decide, hparse, ht, texts, fun earlier => ?_⟩
  obtain ⟨first, last, hfirst, hlast, hall⟩ := hsplit earlier "a" [] []
  cases hfirst
  cases hlast
  refine ⟨by simpa using hall, ?_⟩
  rw [hrows, submit_of_parse hparse]
  rfl

end Graph

end GraphExport
