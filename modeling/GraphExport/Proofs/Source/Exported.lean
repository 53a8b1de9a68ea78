import GraphExport.Job.WindowDuty
import GraphExport.Proofs.Crew.Alone
import GraphExport.Proofs.Output.Book
import GraphExport.Source.Graph

/-!
# GraphExport.Proofs.Source.Exported

The rows that an export of a graph has to write: the wanted elements that the source admits, each
with its label if the filter accepts that, in the order of the source.

* `classify_whole`: an element of a graph is never malformed.
* `LabelWriter.writeElement_whole`: an open writer writes the row of the element.
-/

namespace GraphExport

/-- The row of an element of a graph under a label: its id, the label, and for an edge its end
points, with their tags if the label has any. -/
def exportedRow (label : Label) : Element → WrittenRow
  | .node n => ⟨[n.id, label.text], n.properties⟩
  | .edge x =>
    ⟨[x.id, label.text, x.source, x.target] ++
      if label.hasEndpoints then [joinCell label.source.tags, joinCell label.target.tags] else [],
      x.properties⟩
  | _ => ⟨[], ∅⟩

/-- The label and the row of an element that the filter accepts. -/
def LabelFilter.rowOf? (filter : LabelFilter) (e : Element) : Option (Label × WrittenRow) :=
  match filter.labelOf e with
  | .ok label => if filter.accepts label then some (label, exportedRow label e) else none
  | .error _ => none

/-- The rows that an export of a kind has to write, with their labels. -/
def Graph.exportedRows (g : Graph) (filter : LabelFilter) (skip : Nat) (limit : Option Nat) :
    List (Label × WrittenRow) :=
  (wanted skip limit (g.matching filter.kind filter.labels)).filterMap filter.rowOf?

/-- The element is of a graph, and so has all its parts. -/
def Element.IsWhole : Element → Prop
  | .node _ | .edge _ => True
  | _ => False

/-- Only the nodes and edges of a graph are whole. -/
@[elab_as_elim]
theorem Element.IsWhole.cases {motive : (e : Element) → e.IsWhole → Prop}
    (node : ∀ n, motive (.node n) trivial) (edge : ∀ x, motive (.edge x) trivial) (e : Element)
    (he : e.IsWhole) : motive e he := by
  cases e with
  | node n => exact node n
  | edge x => exact edge x
  | projected _ _ => exact he.elim
  | nodeRow _ => exact he.elim
  | edgeRow _ => exact he.elim

theorem LabelFilter.rowOf?_eq_some {filter : LabelFilter} {e : Element} {label : Label}
    {r : WrittenRow} (h : filter.rowOf? e = some (label, r)) : r = exportedRow label e := by
  unfold rowOf? at h
  split at h
  · split at h
    · simp only [Option.some.injEq, Prod.mk.injEq] at h
      rw [← h.2, h.1]
    · cases h
  · cases h

namespace Graph

/-- All elements of a kind. -/
def all (g : Graph) : ElementKind → List Element
  | .nodes => g.nodes.map .node
  | .edges => g.edges.map .edge

theorem matching_all (g : Graph) (kind : ElementKind) : g.matching kind [] = g.all kind := by
  cases kind <;> simp [matching, acceptedAtSource, all]

/-- A traversal without steps answers for all elements of its kind. -/
theorem submit_all {g : Graph} {query : String} {kind : ElementKind} {projection : Projection}
    (h : Traversal.parse? query = some ⟨kind, [], projection⟩) :
    g.submit query = { items := project (g.all kind) projection } := by
  simp only [submit, h, run, List.foldl_nil, matching_all]

theorem matching_whole {g : Graph} {kind : ElementKind} {labels : List Label} {e : Element}
    (h : e ∈ g.matching kind labels) : e.IsWhole ∧ e.kind = kind := by
  cases kind with
  | nodes =>
    obtain ⟨n, -, rfl⟩ := List.mem_map.1 h
    exact ⟨trivial, rfl⟩
  | edges =>
    obtain ⟨x, -, rfl⟩ := List.mem_map.1 h
    exact ⟨trivial, rfl⟩

theorem mem_exportedRows {g : Graph} {filter : LabelFilter} {skip : Nat} {limit : Option Nat}
    {label : Label} {r : WrittenRow} (h : (label, r) ∈ g.exportedRows filter skip limit) :
    ∃ e : Element, e.IsWhole ∧ e.kind = filter.kind ∧ r = exportedRow label e := by
  obtain ⟨e, he, hrow⟩ := List.mem_filterMap.1 h
  obtain ⟨hwhole, hkind⟩ := matching_whole (mem_of_mem_wanted he)
  exact ⟨e, hwhole, hkind, LabelFilter.rowOf?_eq_some hrow⟩

/-- A graph delivers the elements of a window, cut out of those that the filter asks for. -/
theorem elements_windowQuery (g : Graph) (filter : LabelFilter) (w : Window) :
    g.client.elements (windowQuery filter.kind filter w) =
      { items := w.slice (g.matching filter.kind filter.labels) } := by
  cases filter <;> rfl

end Graph

section Whole

variable {filter : LabelFilter} {e : Element}

theorem labelOf_whole (he : e.IsWhole) (hkind : e.kind = filter.kind) :
    ∃ label, filter.labelOf e = .ok label := by
  unfold LabelFilter.labelOf
  unfold LabelFilter.kind at hkind
  generalize filter.strategy = strategy at hkind ⊢
  cases e, he using Element.IsWhole.cases with
  | node n =>
    cases strategy with
    | node => exact ⟨_, rfl⟩
    | edge => cases hkind
    | edgeWithEndpoints => cases hkind
  | edge x =>
    cases strategy with
    | node => cases hkind
    | edge => exact ⟨_, rfl⟩
    | edgeWithEndpoints => exact ⟨_, rfl⟩

theorem get_single (filter : LabelFilter) :
    (KindFilters.single filter).get filter.kind = some filter := by
  unfold KindFilters.single KindFilters.get
  cases filter.kind <;> rfl

/-- An element of a graph is never malformed. -/
theorem classify_whole (he : e.IsWhole) (hkind : e.kind = filter.kind) :
    classify (.single filter) e = .ok
      (match filter.rowOf? e with
        | none => .ignore
        | some (label, r) => .write label r.properties) := by
  obtain ⟨label, hlabel⟩ := labelOf_whole he hkind
  unfold classify LabelFilter.rowOf?
  rw [hkind, get_single]
  simp only [hlabel]
  by_cases haccepts : filter.accepts label = true
  · rw [haccepts, ← hkind]
    cases e, he using Element.IsWhole.cases with
    | node n => rfl
    | edge x => rfl
  · rw [Bool.not_eq_true] at haccepts
    rw [haccepts]
    rfl

theorem ofElement_whole (he : e.IsWhole) (label : Label) :
    WrittenRow.ofElement e.kind.output label e = .ok (exportedRow label e) := by
  cases e, he using Element.IsWhole.cases with
  | node n => rfl
  | edge x => rfl

/-- An open writer writes the row of the element. -/
theorem LabelWriter.writeElement_whole (he : e.IsWhole) {w : LabelWriter}
    (hkind : w.kind = e.kind.output) (hformat : w.format = .csv) (hopen : w.isOpen = true) :
    ∃ schema line, w.writeElement e = .ok (w.row schema, line) := by
  have hline : ∀ schema, ∃ line, elementLine .csv e.kind.output w.label schema e = .ok line := by
    intro schema
    have hrow := WrittenRow.ofElement_ok.1 (ofElement_whole he w.label)
    exact ⟨_, by simp only [elementLine, csvRecord, hrow.1, hrow.2]; rfl⟩
  unfold writeElement
  cases e, he using Element.IsWhole.cases with
  | node n =>
    obtain ⟨line, hl⟩ := hline (w.schema.update n.properties false)
    refine ⟨w.schema.update n.properties false, line, ?_⟩
    simp only [hkind, Element.kind, ElementKind.output, hformat, hopen] at hl ⊢
    simp [Element.id, Element.properties, bind, Except.bind, hl]
  | edge x =>
    obtain ⟨line, hl⟩ := hline (w.schema.update x.properties false)
    refine ⟨w.schema.update x.properties false, line, ?_⟩
    simp only [hkind, Element.kind, ElementKind.output, hformat, hopen] at hl ⊢
    simp [Element.id, Element.properties, Element.source, Element.target, Element.endpoint, bind,
      Except.bind, Except.map, hl]

end Whole

end GraphExport
