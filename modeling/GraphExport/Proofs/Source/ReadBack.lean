import GraphExport.Job.Station
import GraphExport.Proofs.Data.Maps
import GraphExport.Proofs.Label.Pieces
import GraphExport.Proofs.Output.Request
import GraphExport.Proofs.Source.Exported

/-!
# GraphExport.Proofs.Source.ReadBack

The row that a traversal makes of an element, read as an element again.

* `Element.Alike`: elements that have the same parts, and the same label however labels are given.
  What is done with them is the same: `Element.Alike.classify` and the like.
* `Graph.get?_rowOf_node`, `Graph.get?_rowOf_edge`: the fields of the row of an element.
* `Graph.labelOf_nodeRow`, `Graph.labelOf_edgeRow`: the label of the row, whatever the tags.
* `Graph.alike_ofRow`: the row of an element has its parts, if no tag has a colon.
-/

namespace GraphExport

/-! ## Elements with the same parts -/

/-- The elements have the same parts, and the same label however labels are given. -/
structure Element.Alike (e e' : Element) : Prop where
  kind : e.kind = e'.kind
  id : e.id = e'.id
  source : e.source = e'.source
  target : e.target = e'.target
  properties : e.properties = e'.properties
  label : ∀ strategy : LabelStrategy, strategy.labelOf e = strategy.labelOf e'

namespace Element.Alike

variable {e e' : Element}

theorem classify (h : e.Alike e') (filters : KindFilters) :
    GraphExport.classify filters e = GraphExport.classify filters e' := by
  simp only [GraphExport.classify, LabelFilter.labelOf, h.kind, h.label, h.id, h.source, h.target,
    h.properties]

theorem scanElement (h : e.Alike e') (filters : KindFilters) (allowTokens : Bool)
    (g : GraphSchema) : GraphExport.scanElement filters allowTokens e g =
      GraphExport.scanElement filters allowTokens e' g := by
  simp only [GraphExport.scanElement, LabelFilter.labelOf, h.kind, h.label, h.properties]

/-- They take the same line in every file. -/
theorem entry (h : e.Alike e') (format : Format) (kind : OutputKind) (label : Label)
    (schema : LabelSchema) :
    (Item.element e).entry format kind label schema =
      (Item.element e').entry format kind label schema := by
  simp only [Item.entry, elementLine, csvRecord, structuralCells, elementObject, h.id, h.source,
    h.target, h.properties]

end Element.Alike

/-! ## The fields of a row -/

/-- A row has the values of its properties under their names. -/
theorem Row.get?_columns (row : Row) (name : String) :
    (row.columns false).get? name = row.get? (.property name) := by
  have hproperty : ∀ {k : RowKey}, (false || !k.isToken) = true → k = .property k.name := by
    intro k hk
    cases k <;> first | rfl | cases hk
  have hkeys : (((row.entries.filter fun e => false || !e.1.isToken).map fun e =>
      (e.1.name, e.2)).map (·.1)).Nodup := by
    have hrow := row.increasing.nodup_keys
    rw [List.nodup_iff_pairwise_ne, List.pairwise_map] at hrow
    rw [List.map_map, List.nodup_iff_pairwise_ne, List.pairwise_map, List.pairwise_filter]
    refine hrow.imp fun {a b} hab ha hb hname => hab ?_
    rw [hproperty ha, hproperty hb]
    exact congrArg RowKey.property hname
  refine Option.ext fun v => ?_
  rw [columns, SortedMap.get?_ofList_eq_some hkeys, ← SortedMap.mem_entries, List.mem_map]
  constructor
  · rintro ⟨⟨k, v⟩, he, heq⟩
    obtain ⟨hmem, hk⟩ := List.mem_filter.1 he
    cases heq
    rwa [← hproperty hk]
  · intro hmem
    exact ⟨(.property name, v), List.mem_filter.2 ⟨hmem, rfl⟩, rfl⟩

namespace Graph

theorem mem_propertyFields {m : PropertyMap} {k : RowKey} {v : Json} :
    (k, v) ∈ propertyFields m ↔ ∃ name, k = .property name ∧ m.get? name = some v := by
  simp only [propertyFields, List.mem_map, Prod.exists, Prod.mk.injEq, SortedMap.mem_entries]
  constructor
  · rintro ⟨name, v, hget, rfl, rfl⟩
    exact ⟨name, rfl, hget⟩
  · rintro ⟨name, rfl, hget⟩
    exact ⟨name, v, hget, rfl, rfl⟩

/-- The row of some tokens and properties. -/
theorem get?_row {tokens : List (RowKey × Json)} (hnodup : (tokens.map (·.1)).Nodup)
    (htokens : ∀ e ∈ tokens, e.1.isToken = true) (m : PropertyMap) (k : RowKey) :
    (SortedMap.ofList (tokens ++ propertyFields m)).get? k =
      match k with
      | .property name => m.get? name
      | k => tokens.lookup k := by
  have hkeys : ((tokens ++ propertyFields m).map (·.1)).Nodup := by
    rw [List.map_append, List.nodup_append]
    refine ⟨hnodup, ?_, ?_⟩
    · have hm := m.increasing.nodup_keys
      rw [List.nodup_iff_pairwise_ne, List.pairwise_map] at hm
      rw [propertyFields, List.map_map, List.nodup_iff_pairwise_ne, List.pairwise_map]
      exact hm.imp fun {a b} hab heq => hab (RowKey.property.inj heq)
    · rintro a ha b hb rfl
      obtain ⟨e, he, rfl⟩ := List.mem_map.1 ha
      obtain ⟨⟨k, v⟩, hmem, hk⟩ := List.mem_map.1 hb
      obtain ⟨name, rfl, -⟩ := mem_propertyFields.1 hmem
      have := htokens e he
      rw [← hk] at this
      cases this
  refine Option.ext fun v => ?_
  rw [SortedMap.get?_ofList_eq_some hkeys, List.mem_append, mem_propertyFields]
  have hnone : ∀ name, (.property name, v) ∉ tokens := fun name hmem => nomatch htokens _ hmem
  cases k with
  | property name => simp [hnone]
  | id => simp [lookup_eq_some_iff hnodup]
  | label => simp [lookup_eq_some_iff hnodup]
  | source => simp [lookup_eq_some_iff hnodup]
  | target => simp [lookup_eq_some_iff hnodup]

theorem get?_rowOf_node (n : Node) (k : RowKey) :
    (rowOf true true (.node n)).get? k =
      match k with
      | .property name => n.properties.get? name
      | k => [(.id, Json.str n.id), (.label, joinTags n.tags)].lookup k :=
  get?_row (by simp) (by simp [RowKey.isToken]) n.properties k

theorem get?_rowOf_edge (x : Edge) (k : RowKey) :
    (rowOf true true (.edge x)).get? k =
      match k with
      | .property name => x.properties.get? name
      | k => [(.id, Json.str x.id), (.label, .str x.tag),
          (.source, vertexRef x.source x.sourceTags),
          (.target, vertexRef x.target x.targetTags)].lookup k := by
  have hrow : rowOf true true (.edge x) = .ofList ([(.id, Json.str x.id), (.label, .str x.tag),
      (.source, vertexRef x.source x.sourceTags), (.target, vertexRef x.target x.targetTags)] ++
        propertyFields x.properties) := rfl
  rw [hrow]
  exact get?_row (by simp) (by simp [RowKey.isToken]) x.properties k

/-- No tag that is put together with others has a colon. -/
def Plain : Element → Prop
  | .node n => ∀ t ∈ n.tags, ':' ∉ t.toList
  | .edge x => (∀ t ∈ x.sourceTags, ':' ∉ t.toList) ∧ ∀ t ∈ x.targetTags, ':' ∉ t.toList
  | _ => True

theorem carryColons_of_plain {tags : List String} (h : ∀ t ∈ tags, ':' ∉ t.toList) :
    carryColons tags = tags :=
  carryColons_eq_self_iff.2 fun t ht => endsOpen_of_not_mem (h t (List.dropLast_subset _ ht))

theorem columns_rowOf {m : PropertyMap} {row : Row}
    (h : ∀ name, row.get? (.property name) = m.get? name) : row.columns false = m :=
  SortedMap.ext_get? fun name => (row.get?_columns name).trans (h name)

/-! ## Nodes -/

theorem ofRow_nodeRow (n : Node) :
    Element.ofRow (rowOf true true (.node n)) = .nodeRow (rowOf true true (.node n)) := by
  have htarget : (rowOf true true (.node n)).get? .target = none := get?_rowOf_node n .target
  simp [Element.ofRow, SortedMap.contains, htarget]

theorem id_nodeRow (n : Node) : (Element.nodeRow (rowOf true true (.node n))).id = .ok n.id := by
  rw [Element.id, show (rowOf true true (.node n)).get? .id = some (.str n.id) from
    get?_rowOf_node n .id]
  rfl

theorem tags_nodeRow (n : Node) :
    (Element.nodeRow (rowOf true true (.node n))).tags = .ok ["::".intercalate n.tags] := by
  rw [Element.tags, show (rowOf true true (.node n)).get? .label = some (joinTags n.tags) from
    get?_rowOf_node n .label]
  rfl

/-- The row of a node is labelled like the node with the left over colons of its tags moved on. -/
theorem labelOf_nodeRow (n : Node) :
    LabelStrategy.node.labelOf (.ofRow (rowOf true true (.node n))) =
      .ok (.ofTags (carryColons n.tags)) := by
  simp only [ofRow_nodeRow, LabelStrategy.labelOf, tags_nodeRow, Label.ofTags, TagSet.ofList_joined]

theorem alike_nodeRow {n : Node} (hplain : Plain (.node n)) :
    (Element.ofRow (rowOf true true (.node n))).Alike (.node n) := by
  have hid := id_nodeRow n
  have hend : ∀ side, (Element.nodeRow (rowOf true true (.node n))).endpoint side =
      (Element.node n).endpoint side := by
    intro side
    show (Element.nodeRow _).defect _ = _
    rw [Element.defect, hid]
    rfl
  have hlabel := labelOf_nodeRow n
  rw [carryColons_of_plain hplain, ofRow_nodeRow] at hlabel
  rw [ofRow_nodeRow]
  refine ⟨rfl, hid, ?_, ?_, ?_, fun strategy => ?_⟩
  · rw [Element.source, hend, Element.source]
  · rw [Element.target, hend, Element.target]
  · exact congrArg Except.ok (columns_rowOf fun name => get?_rowOf_node n (.property name))
  · cases strategy with
    | node => exact hlabel
    | edge => exact hlabel
    | edgeWithEndpoints =>
      -- A node has no ends, so it has no label of this kind.
      have hends : (Element.nodeRow (rowOf true true (.node n))).sourceTags =
          (Element.node n).sourceTags := by
        rw [Element.sourceTags, hend, Element.sourceTags]
      have hnone : (Element.node n).sourceTags =
        .error (Cause.malformed n.id .notAnEdge) := rfl
      have hown : (Element.node n).tags = .ok n.tags := rfl
      simp only [LabelStrategy.labelOf, tags_nodeRow, hown, hends, hnone]

/-! ## Edges -/

theorem get?_source_edgeRow (x : Edge) :
    (rowOf true true (.edge x)).get? .source = some (vertexRef x.source x.sourceTags) :=
  get?_rowOf_edge x .source

theorem get?_target_edgeRow (x : Edge) :
    (rowOf true true (.edge x)).get? .target = some (vertexRef x.target x.targetTags) :=
  get?_rowOf_edge x .target

theorem ofRow_edgeRow (x : Edge) :
    Element.ofRow (rowOf true true (.edge x)) = .edgeRow (rowOf true true (.edge x)) := by
  simp [Element.ofRow, SortedMap.contains, get?_source_edgeRow, get?_target_edgeRow]

theorem id_edgeRow (x : Edge) : (Element.edgeRow (rowOf true true (.edge x))).id = .ok x.id := by
  rw [Element.id, show (rowOf true true (.edge x)).get? .id = some (.str x.id) from
    get?_rowOf_edge x .id]
  rfl

theorem tags_edgeRow (x : Edge) :
    (Element.edgeRow (rowOf true true (.edge x))).tags = .ok [x.tag] := by
  rw [Element.tags, show (rowOf true true (.edge x)).get? .label = some (.str x.tag) from
    get?_rowOf_edge x .label]
  rfl

theorem endpoint_edgeRow (side : Endpoint) {row : Row} {id : String} {tags : List String}
    (h : row.get? side.rowKey = some (vertexRef id tags)) :
    (Element.edgeRow row).endpoint side = .ok (id, ["::".intercalate tags]) := by
  have hfields : ∀ key, (SortedMap.ofList [("~id", Json.str id), ("~label", joinTags tags)] :
      PropertyMap).get? key = [("~label", joinTags tags), ("~id", Json.str id)].lookup key :=
    SortedMap.get?_ofList _
  simp only [Element.endpoint, h, vertexRef, hfields]
  rfl

/-- The row of an edge is labelled like the edge with the left over colons of the tags at either end
moved on. -/
theorem labelOf_edgeRow (x : Edge) :
    LabelStrategy.edgeWithEndpoints.labelOf (.ofRow (rowOf true true (.edge x))) =
      .ok (.withEndpoints x.tag (carryColons x.sourceTags) (carryColons x.targetTags)) := by
  have hsource : (Element.edgeRow (rowOf true true (.edge x))).sourceTags =
      .ok ["::".intercalate x.sourceTags] := by
    rw [Element.sourceTags, endpoint_edgeRow .source (get?_source_edgeRow x)]
    rfl
  have htarget : (Element.edgeRow (rowOf true true (.edge x))).targetTags =
      .ok ["::".intercalate x.targetTags] := by
    rw [Element.targetTags, endpoint_edgeRow .target (get?_target_edgeRow x)]
    rfl
  simp only [ofRow_edgeRow, LabelStrategy.labelOf, tags_edgeRow, hsource, htarget,
    List.headD_cons, Label.withEndpoints, TagSet.ofList_joined]

theorem alike_edgeRow {x : Edge} (hplain : Plain (.edge x)) :
    (Element.ofRow (rowOf true true (.edge x))).Alike (.edge x) := by
  have hlabel := labelOf_edgeRow x
  rw [carryColons_of_plain hplain.1, carryColons_of_plain hplain.2, ofRow_edgeRow] at hlabel
  rw [ofRow_edgeRow]
  refine ⟨rfl, id_edgeRow x, ?_, ?_, ?_, fun strategy => ?_⟩
  · rw [Element.source, endpoint_edgeRow .source (get?_source_edgeRow x)]
    rfl
  · rw [Element.target, endpoint_edgeRow .target (get?_target_edgeRow x)]
    rfl
  · exact congrArg Except.ok (columns_rowOf fun name => get?_rowOf_edge x (.property name))
  · have hown : (Element.edge x).tags = .ok [x.tag] := rfl
    cases strategy with
    | node => simp only [LabelStrategy.labelOf, tags_edgeRow, hown]
    | edge => simp only [LabelStrategy.labelOf, tags_edgeRow, hown]
    | edgeWithEndpoints => exact hlabel

/-- The row of an element has the parts of the element, if no tag has a colon. -/
theorem alike_ofRow {e : Element} (he : e.IsWhole) (hplain : Plain e) :
    (Element.ofRow (rowOf true true e)).Alike e := by
  cases e, he using Element.IsWhole.cases with
  | node n => exact alike_nodeRow hplain
  | edge x => exact alike_edgeRow hplain

/-! ## Dumps -/

/-- The ends of an edge have the tags of nodes of the dump. -/
theorem linked_of_ofDump {text : String} {g : Graph} (h : ofDump text = .ok g) :
    ∃ edges, g = link g.nodes edges := by
  unfold ofDump at h
  split at h
  · rename_i g' hdecode
    cases h
    obtain ⟨v, -, hv⟩ := Option.bind_eq_some_iff.1 hdecode
    obtain ⟨⟨depth, slots⟩, -, hslots⟩ := Option.bind_eq_some_iff.1 hv
    dsimp only at hslots
    split at hslots
    · obtain ⟨nodes, -, hrest⟩ := Option.bind_eq_some_iff.1 hslots
      obtain ⟨edges, -, hlink⟩ := Option.bind_eq_some_iff.1 hrest
      cases hlink
      exact ⟨edges, rfl⟩
    · cases hslots
  · cases h

theorem tagsOf_plain {nodes : List Node} (h : ∀ n ∈ nodes, ∀ tag ∈ n.tags, ':' ∉ tag.toList)
    (id : String) : ∀ tag ∈ tagsOf nodes id, ':' ∉ tag.toList := by
  unfold tagsOf
  cases hfind : nodes.reverse.find? fun n => n.id = id with
  | none =>
    intro tag htag
    cases htag
  | some n => exact h n (List.mem_reverse.1 (List.mem_of_find?_eq_some hfind))

/-- In a dump without colons in the tags of nodes, no end of an edge has one either. -/
theorem plain_of_ofDump {text : String} {g : Graph} (hdump : ofDump text = .ok g)
    (h : ∀ n ∈ g.nodes, ∀ tag ∈ n.tags, ':' ∉ tag.toList) {kind : ElementKind}
    {labels : List Label} : ∀ e ∈ g.matching kind labels, Plain e := by
  intro e he
  cases kind with
  | nodes =>
    obtain ⟨n, hn, rfl⟩ := List.mem_map.1 he
    exact h n (List.mem_filter.1 hn).1
  | edges =>
    obtain ⟨x, hx, rfl⟩ := List.mem_map.1 he
    have hmem := (List.mem_filter.1 hx).1
    obtain ⟨edges, hlink⟩ := linked_of_ofDump hdump
    rw [hlink] at hmem
    obtain ⟨e, -, rfl⟩ := List.mem_map.1 hmem
    exact ⟨tagsOf_plain h e.source, tagsOf_plain h e.target⟩

end Graph

end GraphExport
