import GraphExport.Proofs.Label.Canonical
import GraphExport.Proofs.Source.ReadBack

/-!
# GraphExport.Proofs.Source.RowLabels

The labels of the rows that traversals make of elements. A row has the tags of a node put together
as one, so that a colon which one tag ends in may come back at the start of the next.

* `sameTags_carryColons`: the tags stay the same if no tag but the last one leaves a colon over.
* `Graph.labelOf_nodeRow_eq_iff`: when a node has the same label as a row.
* `Graph.row_labels`: the labels of all rows of a graph, against those of its elements.
* `Graph.row_labels_last_colon`, `Graph.row_labels_colon`: a node that keeps its label, and a node
  that has another label as a row.
-/

namespace GraphExport

theorem sameTags_carryColons {tags : List String}
    (h : ∀ t ∈ tags.dropLast, endsOpen t.toList = false) : SameTags (carryColons tags) tags := by
  rw [carryColons_eq_self_iff.2 h]
  intro t
  exact Iff.rfl

namespace Graph

/-! ## The rows of a graph -/

/-- The row of a node is the same with and without end points. -/
theorem submit_nodeRows (g : Graph) {query : String}
    (hquery : query ∈ ["g.V().elementMap()", "g.V().valueMap(true)"]) :
    g.submit query = { items := g.nodes.map fun n => .row (rowOf true true (.node n)) } := by
  simp only [List.mem_cons, List.not_mem_nil, or_false] at hquery
  rcases hquery with rfl | rfl
  · have hparse : Traversal.parse? "g.V().elementMap()" = some ⟨.nodes, [], .elementMap⟩ := by
      decide +kernel
    rw [submit_all hparse, all, project, List.map_map]
    rfl
  · have hparse : Traversal.parse? "g.V().valueMap(true)" =
        some ⟨.nodes, [], .valueMapWithTokens⟩ := by
      decide +kernel
    rw [submit_all hparse, all, project, List.map_map]
    rfl

theorem submit_edgeRows (g : Graph) : g.submit "g.E().elementMap()" =
    { items := g.edges.map fun x => .row (rowOf true true (.edge x)) } := by
  have hparse : Traversal.parse? "g.E().elementMap()" = some ⟨.edges, [], .elementMap⟩ := by
    decide +kernel
  rw [submit_all hparse, all, project, List.map_map]
  rfl

/-! ## Their labels -/

theorem labelOf_nodeRow_eq_iff (n : Node) :
    LabelStrategy.node.labelOf (.ofRow (rowOf true true (.node n))) =
      LabelStrategy.node.labelOf (.node n) ↔ SameTags (carryColons n.tags) n.tags := by
  have hnode : LabelStrategy.node.labelOf (.node n) = .ok (.ofTags n.tags) := rfl
  rw [labelOf_nodeRow, hnode, Except.ok.injEq, (Label.Made.ofTags _).eq_iff (.ofTags _)]
  exact and_iff_left ⟨fun _ => Iff.rfl, fun _ => Iff.rfl⟩

/-- The row of a node is labelled by the tags of the node, and the row of an edge by its tag and
the tags at its ends, with the colons that tags leave over moved on to the tags behind them. So the
label is the one of the element itself exactly if this makes the same tags, and it does if no tag
but the last one ends in an odd number of colons. -/
theorem row_labels (g : Graph) :
    (∀ query ∈ ["g.V().elementMap()", "g.V().valueMap(true)"],
      g.submit query = { items := g.nodes.map fun n => .row (rowOf true true (.node n)) }) ∧
    g.submit "g.E().elementMap()" =
      { items := g.edges.map fun x => .row (rowOf true true (.edge x)) } ∧
    (∀ n ∈ g.nodes,
      LabelStrategy.node.labelOf (.ofRow (rowOf true true (.node n))) =
        .ok (.ofTags (carryColons n.tags)) ∧
      (LabelStrategy.node.labelOf (.ofRow (rowOf true true (.node n))) =
        LabelStrategy.node.labelOf (.node n) ↔ SameTags (carryColons n.tags) n.tags)) ∧
    (∀ x ∈ g.edges, ∃ label rowLabel,
      LabelStrategy.edgeWithEndpoints.labelOf (.edge x) = .ok label ∧
      LabelStrategy.edgeWithEndpoints.labelOf (.ofRow (rowOf true true (.edge x))) =
        .ok rowLabel ∧
      rowLabel = .withEndpoints x.tag (carryColons x.sourceTags) (carryColons x.targetTags) ∧
      rowLabel.own = label.own ∧
      (rowLabel.source = label.source ↔ SameTags (carryColons x.sourceTags) x.sourceTags) ∧
      (rowLabel.target = label.target ↔ SameTags (carryColons x.targetTags) x.targetTags)) ∧
    ∀ tags : List String,
      (∀ t ∈ tags.dropLast, (t.toList.reverse.takeWhile (· = ':')).length % 2 = 0) →
        SameTags (carryColons tags) tags := by
  refine ⟨fun query hquery => g.submit_nodeRows hquery, g.submit_edgeRows, fun n _ => ?_,
    fun x _ => ?_, fun tags heven => ?_⟩
  · exact ⟨labelOf_nodeRow n, labelOf_nodeRow_eq_iff n⟩
  · exact ⟨_, _, rfl, labelOf_edgeRow x, rfl, rfl, TagSet.ofList_eq_iff, TagSet.ofList_eq_iff⟩
  · refine sameTags_carryColons fun t ht => ?_
    have hcount := heven t ht
    rw [Bool.eq_false_iff, ne_eq, endsOpen_iff_odd]
    omega

/-- A colon at the end of the last tag has nowhere to go. -/
theorem row_labels_last_colon :
    let n : Node := ⟨"1", ["b::", "a:"], ∅⟩
    (∀ t ∈ n.tags.dropLast, (t.toList.reverse.takeWhile (· = ':')).length % 2 = 0) ∧
      LabelStrategy.node.labelOf (.ofRow (rowOf true true (.node n))) =
        LabelStrategy.node.labelOf (.node n) := by
  intro n
  have heven : ∀ t ∈ n.tags.dropLast, (t.toList.reverse.takeWhile (· = ':')).length % 2 = 0 := by
    decide
  obtain ⟨-, -, hnodes, -, hsame⟩ := row_labels ⟨[n], []⟩
  exact ⟨heven, (hnodes n List.mem_cons_self).2.2 (hsame n.tags heven)⟩

/-- The colon at the end of `a:` comes back at the start of the other tag. -/
theorem row_labels_colon :
    let g : Graph := ⟨[⟨"1", ["a:", "b"], ∅⟩], []⟩
    ∃ row, g.submit "g.V().elementMap()" = { items := [.row row] } ∧
      LabelStrategy.node.labelOf (.ofRow row) = .ok (.ofTags ["a", ":b"]) ∧
      LabelStrategy.node.labelOf (.node ⟨"1", ["a:", "b"], ∅⟩) = .ok (.ofTags ["a:", "b"]) ∧
      Label.ofTags ["a", ":b"] ≠ Label.ofTags ["a:", "b"] := by
  refine ⟨rowOf true true (.node ⟨"1", ["a:", "b"], ∅⟩), submit_nodeRows _ (by simp), ?_, rfl,
    by decide⟩
  have hcarry : carryColons ["a:", "b"] = ["a", ":b"] := by
    simp [carryColons, endsOpen]
  rw [labelOf_nodeRow, hcarry]

end Graph

end GraphExport
