import GraphExport.Proofs.Source.Exported

/-!
# GraphExport.Proofs.Source.PushDown

A filter is tested twice: the source is asked for its labels only, and what the source delivers is
tested again under the label that the strategy gives. The source compares whole labels, with the end
points of an edge. Under the strategy `edge` a label has no end points, so a filter label that asks
for some is matched at the source and never afterwards. And a source that is asked for no labels
delivers everything, also for a filter that no label passes.

* `Graph.matching_eq_filter`: what the source admits, as one test on elements.
* `Graph.admits_eq`: the test of the export, from the test of the source.
* `Graph.pushDown`: where the two select the same elements.
-/

namespace GraphExport

theorem Window.slice_all {α : Type} (items : List α) : Window.all.slice items = items := by
  have hbounds : Window.all.bounds items.length = (0, items.length) := by
    simp [Window.bounds, Window.all, Window.isNone, Window.none]
  simp [Window.slice, hbounds]

/-! ## Labels without end points -/

theorem TagSet.subset_empty (s : TagSet) : s.subset ∅ = s.isEmpty := by
  rw [Bool.eq_iff_iff, subset_iff, isEmpty, List.isEmpty_iff]
  exact List.subset_nil

theorem TagSet.subset_of_isEmpty {s : TagSet} (h : s.isEmpty = true) (t : TagSet) :
    s.subset t = true := by
  have htags : s.tags = [] := List.isEmpty_iff.1 h
  simp [subset, htags]

namespace Label

/-- A candidate without end points is matched by labels that ask for none. -/
theorem isMatchedBy_own (l : Label) (own : TagSet) :
    l.isMatchedBy ⟨own, ∅, ∅⟩ = (!l.hasEndpoints && l.own.subset own) := by
  simp only [isMatchedBy, hasEndpoints, TagSet.subset_empty]
  cases l.own.subset own <;> cases l.source.isEmpty <;> cases l.target.isEmpty <;> rfl

theorem isMatchedBy_of_hasEndpoints_eq_false {l : Label} (h : l.hasEndpoints = false)
    (candidate : Label) : l.isMatchedBy candidate = l.own.subset candidate.own := by
  simp only [hasEndpoints, Bool.or_eq_false_iff, Bool.not_eq_false'] at h
  simp [isMatchedBy, TagSet.subset_of_isEmpty h.1, TagSet.subset_of_isEmpty h.2]

/-- Cutting the end points off the candidate costs the labels that ask for end points their match,
and no other label. -/
theorem isMatchedBy_cut (l candidate : Label) :
    l.isMatchedBy ⟨candidate.own, ∅, ∅⟩ = (!l.hasEndpoints && l.isMatchedBy candidate) := by
  rw [isMatchedBy_own]
  cases h : l.hasEndpoints with
  | true => rfl
  | false => rw [isMatchedBy_of_hasEndpoints_eq_false h]

end Label

/-! ## The labels of a filter -/

namespace LabelFilter

/-- The filter asks for labels one by one, and for none. -/
def AsksForNothing (filter : LabelFilter) : Prop := filter.isSpecified = true ∧ filter.labels = []

/-- A source that is asked for no labels gives all of them, whether the filter lets all pass or
none. -/
theorem acceptedAtSource_eq {filter : LabelFilter} (h : ¬ filter.AsksForNothing)
    (candidate : Label) : acceptedAtSource filter.labels candidate = filter.accepts candidate := by
  cases filter with
  | all strategy => rfl
  | specified strategy labels =>
    have hlabels : labels.isEmpty = false :=
      List.isEmpty_eq_false_iff.2 fun hnil => h ⟨rfl, hnil⟩
    simp [acceptedAtSource, accepts, LabelFilter.labels, hlabels]

theorem accepts_of_asksForNothing {filter : LabelFilter} (h : filter.AsksForNothing)
    (label : Label) : filter.accepts label = false := by
  cases filter with
  | all strategy => cases h.1
  | specified strategy labels =>
    obtain rfl : labels = [] := h.2
    rfl

theorem acceptedAtSource_of_accepts {filter : LabelFilter} {label : Label}
    (h : filter.accepts label = true) : acceptedAtSource filter.labels label = true := by
  by_cases hnothing : filter.AsksForNothing
  · rw [accepts_of_asksForNothing hnothing] at h
    cases h
  · rw [acceptedAtSource_eq hnothing, h]

/-- With the end points cut off, a label passes where it matches a label that asks for none. -/
theorem accepts_of_cut {filter : LabelFilter} {candidate : Label}
    (h : filter.accepts ⟨candidate.own, ∅, ∅⟩ = true) : filter.accepts candidate = true := by
  cases filter with
  | all strategy => rfl
  | specified strategy labels =>
    simp only [accepts, List.any_eq_true, Label.isMatchedBy_cut, Bool.and_eq_true] at h ⊢
    obtain ⟨l, hl, -, hmatch⟩ := h
    exact ⟨l, hl, hmatch⟩

end LabelFilter

/-! ## The two tests -/

/-- The label that a graph compares with the labels of a query. -/
def Graph.labelAtSource : Element → Label
  | .node n => nodeLabel n
  | .edge x => edgeLabel x
  | _ => default

/-- The label of the element, given by the strategy, passes the filter. -/
def LabelFilter.admits (filter : LabelFilter) (e : Element) : Bool :=
  match filter.labelOf e with
  | .ok label => filter.accepts label
  | .error _ => false

/-- The elements of the kind of a filter that pass it, in the order of the graph. -/
def Graph.accepted (g : Graph) (filter : LabelFilter) : List Element :=
  (g.matching filter.kind []).filter filter.admits

/-- Where an edge matches a label of the filter, it matches one that asks for no end points. -/
def LabelFilter.OwnTagsDecide (filter : LabelFilter) (g : Graph) : Prop :=
  ∀ x ∈ g.edges, ∀ l ∈ filter.labels, l.isMatchedBy (Graph.edgeLabel x) = true →
    ∃ l' ∈ filter.labels, l'.hasEndpoints = false ∧ l'.isMatchedBy (Graph.edgeLabel x) = true

theorem LabelFilter.isSome_rowOf? (filter : LabelFilter) (e : Element) :
    (filter.rowOf? e).isSome = filter.admits e := by
  unfold rowOf? admits
  cases filter.labelOf e with
  | error f => rfl
  | ok label => cases h : filter.accepts label <;> simp [h]

namespace Graph

variable {g : Graph} {filter : LabelFilter} {e : Element}

theorem matching_eq_filter (g : Graph) (kind : ElementKind) (labels : List Label) :
    g.matching kind labels =
      (g.matching kind []).filter fun e => acceptedAtSource labels (labelAtSource e) := by
  have hall : ∀ l, acceptedAtSource [] l = true := fun _ => rfl
  cases kind with
  | nodes => simp [matching, List.filter_map, hall, labelAtSource, Function.comp_def]
  | edges => simp [matching, List.filter_map, hall, labelAtSource, Function.comp_def]

theorem mem_matching_edges {x : Edge} : .edge x ∈ g.matching .edges [] ↔ x ∈ g.edges := by
  simp [matching, acceptedAtSource]

/-- The export tests the label that the source tests, or that label with its end points cut off. -/
theorem admits_eq (he : e ∈ g.matching filter.kind []) :
    filter.admits e =
      filter.accepts (if filter.strategy = .edge then ⟨(labelAtSource e).own, ∅, ∅⟩
        else labelAtSource e) := by
  obtain ⟨hwhole, hkind⟩ := matching_whole he
  unfold LabelFilter.admits LabelFilter.labelOf
  unfold LabelFilter.kind at hkind
  generalize filter.strategy = strategy at hkind ⊢
  cases e, hwhole using Element.IsWhole.cases with
  | node n =>
    cases strategy with
    | node => rfl
    | edge => cases hkind
    | edgeWithEndpoints => cases hkind
  | edge x =>
    cases strategy with
    | node => cases hkind
    | edge => rfl
    | edgeWithEndpoints => rfl

/-- The source keeps no element back that the export would accept. -/
theorem acceptedAtSource_of_admits (he : e ∈ g.matching filter.kind [])
    (h : filter.admits e = true) : acceptedAtSource filter.labels (labelAtSource e) = true := by
  refine LabelFilter.acceptedAtSource_of_accepts ?_
  rw [admits_eq he] at h
  split at h
  · exact LabelFilter.accepts_of_cut h
  · exact h

theorem filter_admits_matching (g : Graph) (filter : LabelFilter) :
    (g.matching filter.kind filter.labels).filter filter.admits = g.accepted filter := by
  rw [matching_eq_filter, List.filter_filter]
  refine List.filter_congr fun e he => ?_
  cases h : filter.admits e with
  | false => rfl
  | true => rw [acceptedAtSource_of_admits he h]; rfl

/-- Own tags decide where cutting the end points off costs no edge of the graph its acceptance. -/
theorem ownTagsDecide_iff : filter.OwnTagsDecide g ↔
    ∀ x ∈ g.edges, filter.accepts (edgeLabel x) = true →
      filter.accepts ⟨(edgeLabel x).own, ∅, ∅⟩ = true := by
  cases filter with
  | all strategy => exact ⟨fun _ _ _ _ => rfl, fun _ _ _ _ hl => by cases hl⟩
  | specified strategy labels =>
    simp only [LabelFilter.OwnTagsDecide, LabelFilter.accepts, LabelFilter.labels, List.any_eq_true,
      Label.isMatchedBy_cut, Bool.and_eq_true, Bool.not_eq_true', forall_exists_index, and_imp]

/-- Both tests agree on all elements of the kind, or the filter asks for nothing and there is some
element, or the strategy forgets end points that some edge needs for its match. -/
theorem admits_of_acceptedAtSource_iff (g : Graph) (filter : LabelFilter) :
    (∀ e ∈ g.matching filter.kind [], acceptedAtSource filter.labels (labelAtSource e) = true →
        filter.admits e = true) ↔
      (filter.AsksForNothing → g.all filter.kind = []) ∧
        (filter.strategy = .edge → filter.OwnTagsDecide g) := by
  have hedges : filter.strategy = .edge → filter.kind = .edges := by
    intro hedge
    rw [LabelFilter.kind, hedge]
    rfl
  constructor
  · intro hall
    refine ⟨fun hnothing => List.eq_nil_iff_forall_not_mem.2 fun e he => ?_, fun hedge =>
      ownTagsDecide_iff.2 fun x hx haccepts => ?_⟩
    · rw [← matching_all] at he
      have hadmits := hall e he (by rw [hnothing.2]; rfl)
      rw [admits_eq he, LabelFilter.accepts_of_asksForNothing hnothing] at hadmits
      cases hadmits
    · have hmem : .edge x ∈ g.matching filter.kind [] := by
        rw [hedges hedge]
        exact mem_matching_edges.2 hx
      have hadmits := hall _ hmem (LabelFilter.acceptedAtSource_of_accepts haccepts)
      rwa [admits_eq hmem, if_pos hedge] at hadmits
  · rintro ⟨hnothing, hdecide⟩ e he hsource
    have hsome : ¬ filter.AsksForNothing := by
      intro h
      rw [matching_all, hnothing h] at he
      cases he
    rw [LabelFilter.acceptedAtSource_eq hsome] at hsource
    rw [admits_eq he]
    split
    case isFalse => exact hsource
    case isTrue hedge =>
      rw [hedges hedge] at he
      obtain ⟨x, hx, rfl⟩ := List.mem_map.1 he
      exact ownTagsDecide_iff.1 (hdecide hedge) x (List.mem_filter.1 hx).1 hsource

theorem matching_eq_accepted_iff (g : Graph) (filter : LabelFilter) :
    g.matching filter.kind filter.labels = g.accepted filter ↔
      (filter.AsksForNothing → g.all filter.kind = []) ∧
        (filter.strategy = .edge → filter.OwnTagsDecide g) := by
  rw [← admits_of_acceptedAtSource_iff, ← filter_admits_matching, eq_comm, List.filter_eq_self,
    matching_eq_filter]
  simp only [List.mem_filter, and_imp]

theorem count_windowQuery (g : Graph) (filter : LabelFilter) (w : Window) :
    g.client.count (filter.apply ⟨filter.kind, w, []⟩) =
      .ok (g.matching filter.kind filter.labels).length := by
  cases filter <;> rfl

/-- The accepted elements are those that an export of all elements writes. -/
theorem length_exportedRows (g : Graph) (filter : LabelFilter) :
    (g.exportedRows filter 0 none).length = (g.accepted filter).length := by
  have hwanted : wanted 0 none (g.matching filter.kind filter.labels) =
      g.matching filter.kind filter.labels := by simp [wanted]
  rw [exportedRows, hwanted, List.length_filterMap_eq_countP, ← filter_admits_matching,
    ← List.countP_eq_length_filter]
  exact List.countP_congr fun e _ => by rw [filter.isSome_rowOf?]

/-- A graph that is asked for the labels of a filter delivers every element that passes the filter,
in the order of the graph, and counts what it delivers. What it delivers is exactly what passes, and
so what it counts is what an export writes, with two exceptions. A filter that asks for labels one
by one and for none lets nothing pass, while the source takes it for no restriction. And where the
strategy is `edge`, some edge may match only labels of the filter that ask for end points. What is
delivered then is counted and fetched and dropped. -/
theorem pushDown (g : Graph) (filter : LabelFilter) :
    let query := filter.apply ⟨filter.kind, .all, []⟩
    let delivered := g.client.elements query
    delivered.failure = none ∧
      g.client.count query = .ok delivered.items.length ∧
      delivered.items.filter filter.admits = g.accepted filter ∧
      (delivered.items = g.accepted filter ↔
        (filter.AsksForNothing → g.all filter.kind = []) ∧
          (filter.strategy = .edge → filter.OwnTagsDecide g)) ∧
      (g.client.count query = .ok (g.exportedRows filter 0 none).length ↔
        (filter.AsksForNothing → g.all filter.kind = []) ∧
          (filter.strategy = .edge → filter.OwnTagsDecide g)) := by
  intro query delivered
  have hdelivered : delivered.items = g.matching filter.kind filter.labels := by
    rw [← Window.slice_all (g.matching filter.kind filter.labels)]
    exact congrArg Delivery.items (elements_windowQuery g filter .all)
  have hcount : g.client.count query = .ok delivered.items.length := by
    rw [hdelivered]
    exact count_windowQuery g filter .all
  refine ⟨rfl, hcount, ?_, ?_, ?_⟩
  · rw [hdelivered, filter_admits_matching]
  · rw [hdelivered, matching_eq_accepted_iff]
  · rw [hcount, length_exportedRows, ← matching_eq_accepted_iff, hdelivered, Except.ok.injEq,
      ← filter_admits_matching]
    -- The accepted elements are some of the delivered ones, so equal numbers make equal lists.
    exact ⟨fun h => (List.filter_sublist.eq_of_length h.symm).symm, fun h => congrArg _ h⟩

/-- One node, and a filter that names no label. -/
example :
    let g : Graph := ⟨[⟨"1", ["person"], ∅⟩], []⟩
    let filter : LabelFilter := .specified .node []
    (g.matching filter.kind filter.labels).length = 1 ∧ (g.accepted filter).length = 0 := by
  decide

/-- One edge, from a person to a software, that is asked for as such. -/
example :
    let g : Graph := ⟨[], [⟨"3", "created", "1", "2", ["person"], ["software"], ∅⟩]⟩
    let filter : LabelFilter := .specified .edge [.withEndpoints "created" ["person"] ["software"]]
    (g.matching filter.kind filter.labels).length = 1 ∧ (g.accepted filter).length = 0 := by
  decide

end Graph

end GraphExport
