import GraphExport.Proofs.Label.Tags
import GraphExport.Proofs.Source.PushDown
import GraphExport.Proofs.Source.ReadBack
import GraphExport.Proofs.Source.Spliced

/-!
# GraphExport.Proofs.Source.QueryText

The text of an element query, submitted as a traversal. A query for a label compares the tags that
the written tags of an element stand for; its text asks for each tag among the tags as they are
written. The two part over elements with a tag such as `a::b`, which the query cuts and its text
does not.

* `Traversal.parse?_text`: what the text of a query is read as.
* `Graph.submit_text`: the text delivers the rows of the elements that bear the tags as
  written.
* `Graph.queryText_delivers`: where that is what the query delivers.
-/

namespace GraphExport

/-- A tag that can be put into a traversal in quotes. -/
def IsQuotable (t : String) : Prop :=
  ∀ c ∈ t.toList, Text.isBlank c = false ∧ c ≠ '\'' ∧ c ≠ '"' ∧ c ≠ ',' ∧ c ≠ '(' ∧ c ≠ ')'

instance (t : String) : Decidable (IsQuotable t) := List.decidableBAll _ t.toList

theorem Text.stripBy_quoted {p : Char → Bool} {q : Char} (hq : p q = true) {s : List Char}
    (hs : ∀ c ∈ s, p c = false) : stripBy p (q :: (s ++ [q])) = s := by
  have hback : ∀ c ∈ s.reverse, p c = false := fun c hc => hs c (List.mem_reverse.1 hc)
  rw [stripBy_cons hq]
  cases s with
  | nil => rw [List.nil_append, stripBy_cons hq]; rfl
  | cons c s =>
    rw [stripBy, List.cons_append, List.dropWhile_cons_of_neg (by simp [hs c]), ← List.cons_append,
      List.reverse_append, List.reverse_singleton, List.singleton_append,
      List.dropWhile_cons_of_pos hq, dropWhile_eq_self hback, List.reverse_reverse]

namespace Traversal

/-! ## Reading the text of a query -/

/-- A tag in quotes is one argument. -/
theorem arguments_quoted {t : String} (ht : IsTag t) (h : IsQuotable t) :
    arguments ('\'' :: (t.toList ++ ['\''])) = [t] := by
  have hcomma : ',' ∉ '\'' :: (t.toList ++ ['\'']) := by
    simp only [List.mem_cons, List.mem_append, List.not_mem_nil, or_false, not_or]
    exact ⟨by decide, fun hmem => (h _ hmem).2.2.2.1 rfl, by decide⟩
  have hblank : ∀ c ∈ '\'' :: (t.toList ++ ['\'']), Text.isBlank c = false := by
    simp only [List.mem_cons, List.mem_append, List.not_mem_nil, or_false]
    rintro c (rfl | hc | rfl)
    · decide
    · exact (h c hc).1
    · decide
  have hquotes : ∀ c ∈ t.toList, (decide (c = '\'') || decide (c = '"')) = false := fun c hc => by
    simp [(h c hc).2.1, (h c hc).2.2.1]
  rw [arguments, Text.cutAt_of_not_mem hcomma, List.map_singleton, Text.stripBy_eq_self hblank,
    Text.stripBy_quoted (by decide) hquotes, String.ofList_toList]
  exact List.filter_eq_self.2 fun u hu => bne_iff_ne.2 (List.mem_singleton.1 hu ▸ ht.1)

theorem cutSteps_tagStep {t : String} (ht : IsTag t) (h : IsQuotable t) (rest : List Char) :
    cutSteps ((tagStep t).toList ++ rest) =
      (("hasLabel", [t]) :: (cutSteps rest).1, (cutSteps rest).2) := by
  have htext : (tagStep t).toList ++ rest =
      '.' :: ("hasLabel".toList ++ '(' :: ('\'' :: (t.toList ++ ['\'']) ++ ')' :: rest)) := by
    have hopen : (".hasLabel('" : String).toList = '.' :: "hasLabel".toList ++ ['(', '\''] := by
      decide
    have hclose : ("')" : String).toList = ['\'', ')'] := by decide
    simp [tagStep, hopen, hclose]
  have hopen : '(' ∉ '\'' :: (t.toList ++ ['\'']) := by
    simp only [List.mem_cons, List.mem_append, List.not_mem_nil, or_false, not_or]
    exact ⟨by decide, fun hmem => (h _ hmem).2.2.2.2.1 rfl, by decide⟩
  have hclose : ')' ∉ '\'' :: (t.toList ++ ['\'']) := by
    simp only [List.mem_cons, List.mem_append, List.not_mem_nil, or_false, not_or]
    exact ⟨by decide, fun hmem => (h _ hmem).2.2.2.2.2 rfl, by decide⟩
  have hstep := cutStep_append (show '(' ∉ "hasLabel".toList by decide) ⟨hopen, hclose⟩ rest
  rw [htext, cutSteps_of_cutStep hstep, arguments_quoted ht h]
  rfl

theorem cutSteps_tagSteps {tags : List String} (h : ∀ t ∈ tags, IsTag t ∧ IsQuotable t)
    (rest : List Char) :
    cutSteps ((String.join (tags.map tagStep)).toList ++ rest) =
      (tags.map (fun t => ("hasLabel", [t])) ++ (cutSteps rest).1, (cutSteps rest).2) := by
  induction tags with
  | nil => rfl
  | cons t tags ih =>
    obtain ⟨⟨ht, hquotable⟩, htags⟩ := List.forall_mem_cons.1 h
    rw [List.map_cons, String.join_cons, String.toList_append, List.append_assoc,
      cutSteps_tagStep ht hquotable, ih htags]
    rfl

theorem ofSteps?_tagSteps (tags : List String) (rest : List (String × List String)) :
    ofSteps? (tags.map (fun t => ("hasLabel", [t])) ++ rest) =
      (ofSteps? rest).map fun (steps, p) => (tags.map (fun t => .hasLabel [t]) ++ steps, p) := by
  induction tags with
  | nil => simp
  | cons t tags ih =>
    simp only [List.map_cons, List.cons_append, ofSteps?, meaning?, ih, Option.map_map]
    rfl

/-- The end of the text of a query: nothing, or the step of its window. -/
def windowSteps (w : Window) : String := if w.isAll then "" else "." ++ w.text

/-- The steps that a query is read as: one for each tag, and one for the window if it has bounds. -/
def stepsOf (l : Label) (w : Window) : List Step :=
  l.own.tags.map (fun t => .hasLabel [t]) ++ if w.isAll then [] else [.range w]

theorem cutSteps_windowSteps (w : Window) :
    cutSteps (windowSteps w).toList =
      (if w.isAll then [] else [("range", [toString w.start, toString w.stop])], []) := by
  rw [windowSteps]
  split
  · exact cutSteps_of_none rfl
  · have htext : ("." ++ w.text).toList = '.' :: (w.text.toList ++ []) := by
      have hdot : ("." : String).toList = ['.'] := by decide
      simp [hdot]
    rw [htext, cutSteps_window, cutSteps_of_none rfl]

/-- What the text of a query for one label is read as. -/
theorem parse?_text {l : Label} (hl : l.hasEndpoints = false)
    (htags : ∀ t ∈ l.own.tags, IsQuotable t) (kind : ElementKind) {w : Window}
    (hstart : minWord ≤ w.start ∧ w.start ≤ maxWord) (hstop : minWord ≤ w.stop ∧ w.stop ≤ maxWord) :
    parse? (ElementQuery.text ⟨kind, w, [l]⟩) = some ⟨kind, stepsOf l w, .elementMap⟩ := by
  obtain ⟨hsource, htarget⟩ : l.source.tags = [] ∧ l.target.tags = [] := by
    simpa [Label.hasEndpoints, TagSet.isEmpty] using hl
  have hquotable : ∀ t ∈ l.own.tags, IsTag t ∧ IsQuotable t := fun t ht =>
    ⟨l.own.areTags t ht, htags t ht⟩
  have htext : ElementQuery.text ⟨kind, w, [l]⟩ = kind.sourceStep ++
      String.join (l.own.tags.map tagStep) ++ windowSteps w := by
    simp [ElementQuery.text, labelSteps, Label.steps, windowSteps, hsource, htarget, String.join]
  have hcut : cutSource (ElementQuery.text ⟨kind, w, [l]⟩).toList =
      some (kind, (String.join (l.own.tags.map tagStep)).toList ++ (windowSteps w).toList) := by
    rw [htext, String.toList_append, String.toList_append, List.append_assoc]
    cases kind <;> rfl
  have hwindow : ofSteps?
      (if w.isAll then [] else [("range", [toString w.start, toString w.stop])]) =
        some (if w.isAll then [] else [.range w], .elementMap) := by
    split
    · rfl
    · simp only [ofSteps?, meaning?_range hstart hstop, Option.map_some]
  rw [parse?_eq_of_cut hcut, cutSteps_tagSteps hquotable, cutSteps_windowSteps, ofSteps?_tagSteps,
    hwindow]
  rfl

end Traversal

namespace Graph

variable {g : Graph} {l : Label} {e : Element}

/-! ## Delivering -/

/-- The tags of an element as they are written in the graph. -/
def rawTags : Element → List String
  | .node n => n.tags
  | .edge x => [x.tag]
  | _ => []

/-- Each of the label's own tags is written on the element. -/
def bears (l : Label) (e : Element) : Bool := l.own.tags.all fun t => hasTag [t] e

theorem hasTag_singleton (t : String) (e : Element) : hasTag [t] e = true ↔ t ∈ rawTags e := by
  cases e with
  | node n => simp [hasTag, rawTags]
  | edge x => simpa [hasTag, rawTags] using eq_comm
  | projected _ _ => simp [hasTag, rawTags]
  | nodeRow _ => simp [hasTag, rawTags]
  | edgeRow _ => simp [hasTag, rawTags]

theorem bears_iff : bears l e = true ↔ ∀ t ∈ l.own.tags, t ∈ rawTags e := by
  simp only [bears, List.all_eq_true, hasTag_singleton]

theorem foldl_hasLabel (tags : List String) (items : List Element) :
    (tags.map fun t => Step.hasLabel [t]).foldl applyStep items =
      items.filter fun e => tags.all fun t => hasTag [t] e := by
  induction tags generalizing items with
  | nil => simp
  | cons t tags ih =>
    rw [List.map_cons, List.foldl_cons, ih, applyStep, List.filter_filter]
    exact List.filter_congr fun e _ => by rw [List.all_cons, Bool.and_comm]

theorem foldl_stepsOf (l : Label) (w : Window) (items : List Element) :
    (Traversal.stepsOf l w).foldl applyStep items = w.slice (items.filter (bears l)) := by
  have hfilter : items.filter (fun e => l.own.tags.all fun t => hasTag [t] e) =
      items.filter (bears l) := rfl
  rw [Traversal.stepsOf, List.foldl_append, foldl_hasLabel, hfilter]
  split
  · rename_i hall
    rw [of_decide_eq_true hall, Window.slice_all]
    rfl
  · rfl

/-- The row of an element with its id, its label and its end points. -/
def elementRow (e : Element) : Answer := .row (rowOf true true e)

/-- The text of a query delivers the rows of the elements that bear the tags as written, cut to the
window. -/
theorem submit_text (g : Graph) (hl : l.hasEndpoints = false)
    (htags : ∀ t ∈ l.own.tags, IsQuotable t) (kind : ElementKind) {w : Window}
    (hstart : minWord ≤ w.start ∧ w.start ≤ maxWord) (hstop : minWord ≤ w.stop ∧ w.stop ≤ maxWord) :
    g.submit (ElementQuery.text ⟨kind, w, [l]⟩) =
      { items := (w.slice ((g.all kind).filter (bears l))).map elementRow } := by
  have hparse := Traversal.parse?_text hl htags kind hstart hstop
  simp only [submit, hparse, run, foldl_stepsOf, matching_all]
  rfl

/-! ## Tags as written and tags that they stand for -/

/-- Tags as they are written are among the tags that they stand for, where they stand for
themselves. -/
theorem mem_writtenTags_of_mem {t : String} (ht : IsTag t) {written : List String}
    (h : t ∈ written) : t ∈ writtenTags written := by
  refine List.mem_filter.2 ⟨List.mem_flatMap.2 ⟨t, h, ?_⟩, bne_iff_ne.2 ht.1⟩
  rw [cutTag_of_hasSeparator ht.2, List.map_singleton, String.ofList_toList]
  exact List.mem_singleton_self t

theorem mem_of_mem_writtenTags {t : String} {written : List String}
    (hwritten : ∀ u ∈ written, hasSeparator u.toList = false) (h : t ∈ writtenTags written) :
    t ∈ written := by
  obtain ⟨u, hu, ht⟩ := List.mem_flatMap.1 (List.mem_filter.1 h).1
  rw [cutTag_of_hasSeparator (hwritten u hu), List.map_singleton, String.ofList_toList,
    List.mem_singleton] at ht
  rwa [ht]

theorem own_labelAtSource (he : e.IsWhole) : (labelAtSource e).own = .ofList (rawTags e) := by
  cases e, he using Element.IsWhole.cases with
  | node n => rfl
  | edge x => rfl

/-- What the source compares with a label without end points. -/
theorem isMatchedBy_labelAtSource (hl : l.hasEndpoints = false) (he : e.IsWhole) :
    l.isMatchedBy (labelAtSource e) = true ↔ ∀ t ∈ l.own.tags, t ∈ writtenTags (rawTags e) := by
  rw [Label.isMatchedBy_of_hasEndpoints_eq_false hl, own_labelAtSource he, TagSet.subset_iff]
  exact forall₂_congr fun _ _ => TagSet.mem_ofList

/-- Bearing the tags as written is more than being matched. -/
theorem isMatchedBy_of_bears (hl : l.hasEndpoints = false) (he : e.IsWhole)
    (h : bears l e = true) : l.isMatchedBy (labelAtSource e) = true :=
  (isMatchedBy_labelAtSource hl he).2 fun t ht =>
    mem_writtenTags_of_mem (l.own.areTags t ht) (bears_iff.1 h t ht)

/-- It is the same where no tag is cut. -/
theorem bears_of_isMatchedBy (hl : l.hasEndpoints = false) (he : e.IsWhole)
    (hraw : ∀ t ∈ rawTags e, hasSeparator t.toList = false)
    (h : l.isMatchedBy (labelAtSource e) = true) : bears l e = true :=
  bears_iff.2 fun t ht =>
    mem_of_mem_writtenTags hraw ((isMatchedBy_labelAtSource hl he).1 h t ht)

theorem mem_matching_singleton {kind : ElementKind} :
    e ∈ g.matching kind [l] ↔ e ∈ g.all kind ∧ l.isMatchedBy (labelAtSource e) = true := by
  rw [matching_eq_filter, matching_all, List.mem_filter]
  simp [acceptedAtSource]

theorem isWhole_of_mem_all {kind : ElementKind} (he : e ∈ g.all kind) : e.IsWhole :=
  (matching_whole (matching_all g kind ▸ he)).1

/-- The elements that bear the tags are some of those that match. -/
theorem filter_bears_matching (g : Graph) (hl : l.hasEndpoints = false) (kind : ElementKind) :
    (g.matching kind [l]).filter (bears l) = (g.all kind).filter (bears l) := by
  rw [matching_eq_filter, matching_all, List.filter_filter]
  refine List.filter_congr fun e he => ?_
  cases h : bears l e with
  | false => rfl
  | true => simp [acceptedAtSource, isMatchedBy_of_bears hl (isWhole_of_mem_all he) h]

theorem filter_bears_eq_matching_iff (g : Graph) (hl : l.hasEndpoints = false)
    (kind : ElementKind) :
    (g.all kind).filter (bears l) = g.matching kind [l] ↔
      ∀ e ∈ g.matching kind [l], bears l e = true := by
  rw [← filter_bears_matching g hl, List.filter_eq_self]

theorem get?_id_elementRow (he : e.IsWhole) : (rowOf true true e).get? .id = some (idOf e) := by
  cases e, he using Element.IsWhole.cases with
  | node n => exact get?_rowOf_node n .id
  | edge x => exact get?_rowOf_edge x .id

theorem elements_apply (g : Graph) {filter : LabelFilter} (hfilter : filter.labels = [l])
    (kind : ElementKind) (w : Window) :
    g.client.elements (filter.apply ⟨kind, w, []⟩) =
      { items := w.slice (g.matching kind [l]) } := by
  cases filter with
  | all strategy => cases hfilter
  | specified strategy labels =>
    cases hfilter
    rfl

/-- A query for one label without end points, whose tags can be put in quotes, and its text. The
text never fails. It delivers one row for each element that bears the tags as they are written, in
the order of the graph and with its id, cut to the window. Each such element is matched by the
query, but the query matches also those whose tags hold the label's only after they are cut. So the
text delivers what the query delivers, for every window, exactly if every element that is matched
bears the tags as written. That is so where no tag of the kind holds `::`. -/
theorem queryText_delivers (g : Graph) {filter : LabelFilter} (hfilter : filter.labels = [l])
    (hl : l.hasEndpoints = false) (htags : ∀ t ∈ l.own.tags, IsQuotable t) (kind : ElementKind) :
    let query := fun w : Window => filter.apply ⟨kind, w, []⟩
    let IsWord := fun w : Window =>
      (minWord ≤ w.start ∧ w.start ≤ maxWord) ∧ minWord ≤ w.stop ∧ w.stop ≤ maxWord
    let Agrees := fun w : Window => g.submit (query w).text =
      { items := (g.client.elements (query w)).items.map elementRow }
    (∀ w, IsWord w → g.submit (query w).text =
      { items := (w.slice ((g.all kind).filter (bears l))).map elementRow }) ∧
    (∀ e ∈ g.all kind, (rowOf true true e).get? .id = some (idOf e) ∧
      (bears l e = true → l.isMatchedBy (labelAtSource e) = true)) ∧
    ((∀ w, IsWord w → Agrees w) ↔ ∀ e ∈ g.matching kind [l], bears l e = true) ∧
    ((∀ e ∈ g.all kind, ∀ t ∈ rawTags e, hasSeparator t.toList = false) →
      ∀ w, IsWord w → Agrees w) := by
  intro query IsWord Agrees
  have hquery : ∀ w, query w = ⟨kind, w, [l]⟩ := fun w => by
    cases filter with
    | all strategy => cases hfilter
    | specified strategy labels =>
      cases hfilter
      rfl
  have hsubmit : ∀ w, IsWord w → g.submit (query w).text =
      { items := (w.slice ((g.all kind).filter (bears l))).map elementRow } := fun w hw => by
    rw [hquery]
    exact submit_text g hl htags kind hw.1 hw.2
  have hagrees : ∀ w, IsWord w → (Agrees w ↔
      (w.slice ((g.all kind).filter (bears l))).map elementRow =
        (w.slice (g.matching kind [l])).map elementRow) := fun w hw => by
    simp only [Agrees, hsubmit w hw, query, elements_apply g hfilter, Delivery.mk.injEq, and_true]
  have hiff : (∀ w, IsWord w → Agrees w) ↔ ∀ e ∈ g.matching kind [l], bears l e = true := by
    rw [← filter_bears_eq_matching_iff g hl]
    constructor
    · intro h
      have hall : IsWord .all := by decide
      have hmap := (hagrees .all hall).1 (h .all hall)
      -- The elements that bear the tags are some of those that match, so equal numbers suffice.
      have hlength := congrArg List.length hmap
      rw [List.length_map, List.length_map, Window.slice_all, Window.slice_all] at hlength
      rw [← filter_bears_matching g hl] at hlength ⊢
      exact List.filter_sublist.eq_of_length hlength
    · intro h w hw
      rw [hagrees w hw, h]
  refine ⟨hsubmit, fun e he => ?_, hiff, fun hraw => hiff.2 fun e he => ?_⟩
  · exact ⟨get?_id_elementRow (isWhole_of_mem_all he),
      isMatchedBy_of_bears hl (isWhole_of_mem_all he)⟩
  · obtain ⟨hall, hmatch⟩ := mem_matching_singleton.1 he
    exact bears_of_isMatchedBy hl (isWhole_of_mem_all hall) (hraw e hall) hmatch

/-- A node with the tag `a::b` is delivered by the query for `a`, and not by its text. -/
theorem queryText_delivers_uncut :
    let g : Graph := ⟨[⟨"1", ["a::b"], ∅⟩, ⟨"2", ["a"], ∅⟩], []⟩
    let filter : LabelFilter := .specified .node [.single "a"]
    let query : ElementQuery := filter.apply ⟨.nodes, .all, []⟩
    g.submit query.text = { items := [elementRow (.node ⟨"2", ["a"], ∅⟩)] } ∧
      (g.client.elements query).items = [.node ⟨"1", ["a::b"], ∅⟩, .node ⟨"2", ["a"], ∅⟩] := by
  intro g filter query
  have hfilter : filter.labels = [.single "a"] := rfl
  have htags : ∀ t ∈ (Label.single "a").own.tags, IsQuotable t := by decide
  have hdelivers := (queryText_delivers g hfilter rfl htags .nodes).1 .all (by decide)
  exact ⟨hdelivers, rfl⟩

end Graph

end GraphExport
