import GraphExport.Label.Filter
import GraphExport.Label.Json
import GraphExport.Proofs.Json.Decode
import GraphExport.Proofs.Label.Pieces

/-!
# GraphExport.Proofs.Label.Canonical

Labels in every way they come about. The tags that a label keeps are those that the written tags
stand for, whatever their order, their repetitions and the `::` between them.

* `mem_writtenTags_iff`: the tags that a list of written tags stands for.
* `TagSet.ofList_eq_iff`: two lists make the same set of tags if they stand for the same tags.
* `Label.Made`: the ways in which labels come about, with the written tags that each way reads.
* `Label.canonical`: equality and matching of labels, in terms of their tags.
-/

namespace GraphExport

/-! ## Sets of tags -/

/-- The tag is one of those that a list of written tags stands for: a piece of one of them that is
not empty. -/
def StandsFor (written : List String) (t : String) : Prop :=
  t ≠ "" ∧ ∃ s ∈ written, ∃ pieces, IsCut s.toList pieces ∧ t.toList ∈ pieces

def SameTags (a b : List String) : Prop := ∀ t, StandsFor a t ↔ StandsFor b t

/-- The tags increase strictly, and each stands for itself. -/
structure IsCanonical (tags : List String) : Prop where
  increasing : tags.Pairwise (· < ·)
  ne_empty : ∀ t ∈ tags, t ≠ ""
  whole : ∀ t ∈ tags, ¬ [':', ':'] <:+: t.toList

theorem mem_writtenTags_iff {written : List String} {t : String} :
    t ∈ writtenTags written ↔ StandsFor written t := by
  simp only [writtenTags, List.mem_filter, List.mem_flatMap, List.mem_map, bne_iff_ne]
  constructor
  · rintro ⟨⟨s, hs, piece, hpiece, rfl⟩, hne⟩
    exact ⟨hne, s, hs, cutTag s.toList, isCut_cutTag _, by rwa [String.toList_ofList]⟩
  · rintro ⟨hne, s, hs, pieces, hcut, hmem⟩
    rw [isCut_iff.1 hcut] at hmem
    exact ⟨⟨s, hs, t.toList, hmem, String.ofList_toList⟩, hne⟩

namespace TagSet

theorem isCanonical (s : TagSet) : IsCanonical s.tags where
  increasing := s.increasing
  ne_empty t ht := (s.areTags t ht).1
  whole t ht := not_infix_iff.2 (s.areTags t ht).2

/-- A set of tags has one list of its tags only. -/
theorem ext_mem {a b : TagSet} (h : ∀ t, t ∈ a.tags ↔ t ∈ b.tags) : a = b := by
  have hnodup : ∀ s : TagSet, s.tags.Nodup := fun s => s.increasing.imp fun {t u} hlt heq => by
    rw [heq] at hlt
    exact String.lt_irrefl u hlt
  have hperm : a.tags.Perm b.tags := (List.perm_ext_iff_of_nodup (hnodup a) (hnodup b)).2 h
  refine ext_tags (hperm.eq_of_pairwise (fun t u _ _ htu hut => ?_) a.increasing b.increasing)
  exact absurd hut (String.lt_asymm htu)

theorem mem_ofList_iff {written : List String} {t : String} :
    t ∈ (ofList written).tags ↔ StandsFor written t :=
  mem_ofList.trans mem_writtenTags_iff

theorem ofList_eq_iff {a b : List String} : ofList a = ofList b ↔ SameTags a b := by
  constructor
  · intro h t
    rw [← mem_ofList_iff, h, mem_ofList_iff]
  · intro h
    refine ext_mem fun t => ?_
    rw [mem_ofList_iff, mem_ofList_iff]
    exact h t

theorem eq_of_subset {a b : TagSet} (hab : a.tags ⊆ b.tags) (hba : b.tags ⊆ a.tags) : a = b :=
  ext_mem fun _ => ⟨fun h => hab h, fun h => hba h⟩

end TagSet

namespace Label

/-! ## The ways in which labels come about -/

/-- The label is made of written tags, its own and those at either end. -/
inductive Made : List String → List String → List String → Label → Prop
  | single (tag : String) : Made [tag] [] [] (single tag)
  | ofTags (tags : List String) : Made tags [] [] (ofTags tags)
  | withEndpoints (tag : String) (source target : List String) :
      Made [tag] source target (withEndpoints tag source target)
  | parsedTags {text : String}
      (hcut : cutQualified (Text.stripBy Text.isBlank text.toList) = none) :
      Made (tagsOfText (Text.stripBy Text.isBlank text.toList)) [] [] (parse text)
  | parsedParts {text : String} {source middle target : List Char}
      (hcut : cutQualified (Text.stripBy Text.isBlank text.toList) =
        some (source, middle, target)) :
      Made [String.ofList middle] (tagsOfText source) (tagsOfText target) (parse text)
  | ofElement {strategy : LabelStrategy} {e : Element} {tags : List String} {l : Label}
      (hstrategy : strategy ≠ .edgeWithEndpoints) (htags : e.tags = .ok tags)
      (hlabel : strategy.labelOf e = .ok l) : Made tags [] [] l
  | ofEdge {e : Element} {tags source target : List String} {l : Label} (htags : e.tags = .ok tags)
      (hsource : e.sourceTags = .ok source) (htarget : e.targetTags = .ok target)
      (hlabel : LabelStrategy.edgeWithEndpoints.labelOf e = .ok l) :
      Made [tags.headD ""] source target l
  | decodedTag {depth : Nat} {tag : String} {l : Label}
      (hlabel : decode depth (.str tag) = some l) : Made [tag] [] [] l
  | decodedTags {depth : Nat} {v : Written} {tags : List String} {l : Label}
      (htags : Decode.list .string depth v = some tags) (hlabel : decode depth v = some l) :
      Made tags [] [] l
  | decodedEdge {depth below : Nat} {v vtag vsource vtarget : Written} {tag : String}
      {source target : List String} {l : Label}
      (hslots : Decode.namedSlots [["~label"], ["~fromLabels"], ["~toLabels"]] depth v =
        some (below, [some vtag, some vsource, some vtarget]))
      (htag : Decode.string below vtag = some tag)
      (hsource : Decode.list .string below vsource = some source)
      (htarget : Decode.list .string below vtarget = some target)
      (hlabel : decode depth v = some l) : Made [tag] source target l

/-- Any label that is read from JSON was written as a tag, as a list of tags or as an object. -/
theorem decode_cases {depth : Nat} {v : Written} {l : Label} (h : decode depth v = some l) :
    (∃ tag : String, v = .str tag ∧ l = single tag) ∨
      (∃ tags, Decode.list .string depth v = some tags ∧ l = ofTags tags) ∨
      decodeEdge depth v = some l := by
  unfold decode Decode.firstOf at h
  split at h
  · obtain ⟨way, hway, hl⟩ := List.exists_of_findSome?_eq_some h
    simp only [List.mem_cons, List.not_mem_nil, or_false] at hway
    rcases hway with rfl | rfl | rfl
    · obtain ⟨tag, htag, rfl⟩ := Option.map_eq_some_iff.1 hl
      unfold Decode.string at htag
      split at htag
      · exact .inl ⟨tag, by rw [htag], rfl⟩
      · cases htag
    · obtain ⟨tags, htags, rfl⟩ := Option.map_eq_some_iff.1 hl
      exact .inr (.inl ⟨tags, htags, rfl⟩)
    · exact .inr (.inr hl)
  · cases h

/-- An object is read as a label if it has the three fields of one. -/
theorem decodeEdge_eq_some {depth : Nat} {v : Written} {l : Label}
    (h : decodeEdge depth v = some l) : ∃ below vtag vsource vtarget tag source target,
      Decode.namedSlots [["~label"], ["~fromLabels"], ["~toLabels"]] depth v =
        some (below, [some vtag, some vsource, some vtarget]) ∧
      Decode.string below vtag = some tag ∧ Decode.list .string below vsource = some source ∧
      Decode.list .string below vtarget = some target ∧ l = withEndpoints tag source target := by
  simp only [decodeEdge, Option.bind_eq_bind, Option.bind_eq_some_iff, Prod.exists] at h
  obtain ⟨below, slots, hslots, h⟩ := h
  have hread : ∀ {α : Type} {d : Decode α} {slot : Option Written} {a : α},
      Decode.required d below slot = some a → ∃ v, slot = some v ∧ d below v = some a := by
    intro α d slot a ha
    cases slot with
    | none => cases ha
    | some v => exact ⟨v, rfl, ha⟩
  split at h
  · simp only [Option.bind_eq_some_iff, Option.some.injEq] at h
    obtain ⟨tag, htag, source, hsource, target, htarget, rfl⟩ := h
    obtain ⟨vtag, rfl, htag⟩ := hread htag
    obtain ⟨vsource, rfl, hsource⟩ := hread hsource
    obtain ⟨vtarget, rfl, htarget⟩ := hread htarget
    exact ⟨below, vtag, vsource, vtarget, tag, source, target, hslots, htag, hsource, htarget, rfl⟩
  · cases h

/-- A label is made of its written tags and of nothing else, in whichever way it comes about. -/
theorem Made.eq_mk {own source target : List String} {l : Label} (h : Made own source target l) :
    l = ⟨.ofList own, .ofList source, .ofList target⟩ := by
  cases h with
  | single tag => rfl
  | ofTags tags => rfl
  | withEndpoints tag source target => rfl
  | parsedTags hcut =>
    simp only [parse, hcut]
    rfl
  | parsedParts hcut =>
    simp only [parse, hcut]
    rfl
  | @ofElement strategy _ _ _ hstrategy htags hlabel =>
    cases strategy with
    | node =>
      simp only [LabelStrategy.labelOf, htags] at hlabel
      cases hlabel
      rfl
    | edge =>
      simp only [LabelStrategy.labelOf, htags] at hlabel
      cases hlabel
      rfl
    | edgeWithEndpoints => exact absurd rfl hstrategy
  | ofEdge htags hsource htarget hlabel =>
    simp only [LabelStrategy.labelOf, htags, hsource, htarget] at hlabel
    cases hlabel
    rfl
  | decodedTag hlabel =>
    cases hlabel
    rfl
  | decodedTags htags hlabel =>
    obtain ⟨items, rfl⟩ := Decode.exists_arr_of_list htags
    obtain ⟨tag, hv, -⟩ | ⟨tags, htags', rfl⟩ | hedge := decode_cases hlabel
    · cases hv
    · rw [htags] at htags'
      cases htags'
      rfl
    · obtain ⟨_, _, _, _, _, _, _, hslots, -⟩ := decodeEdge_eq_some hedge
      obtain ⟨fields, hv⟩ := Decode.exists_obj_of_namedSlots hslots
      cases hv
  | decodedEdge hslots htag hsource htarget hlabel =>
    obtain ⟨fields, rfl⟩ := Decode.exists_obj_of_namedSlots hslots
    obtain ⟨tag, hv, -⟩ | ⟨tags, htags, -⟩ | hedge := decode_cases hlabel
    · cases hv
    · obtain ⟨items, hv⟩ := Decode.exists_arr_of_list htags
      cases hv
    · obtain ⟨_, _, _, _, _, _, _, hslots', htag', hsource', htarget', rfl⟩ :=
        decodeEdge_eq_some hedge
      rw [hslots] at hslots'
      cases hslots'
      rw [htag] at htag'
      rw [hsource] at hsource'
      rw [htarget] at htarget'
      cases htag'
      cases hsource'
      cases htarget'
      rfl

theorem made_parse (text : String) : ∃ own source target, Made own source target (parse text) := by
  cases hcut : cutQualified (Text.stripBy Text.isBlank text.toList) with
  | none => exact ⟨_, _, _, .parsedTags hcut⟩
  | some parts =>
    obtain ⟨source, middle, target⟩ := parts
    exact ⟨_, _, _, .parsedParts hcut⟩

theorem made_labelOf {strategy : LabelStrategy} {e : Element} {l : Label}
    (h : strategy.labelOf e = .ok l) : ∃ own source target, Made own source target l := by
  cases htags : e.tags with
  | error f => cases strategy <;> simp [LabelStrategy.labelOf, htags] at h
  | ok tags =>
    cases strategy with
    | node => exact ⟨tags, [], [], .ofElement (by decide) htags h⟩
    | edge => exact ⟨tags, [], [], .ofElement (by decide) htags h⟩
    | edgeWithEndpoints =>
      cases hsource : e.sourceTags with
      | error f => simp [LabelStrategy.labelOf, htags, hsource] at h
      | ok source =>
        cases htarget : e.targetTags with
        | error f => simp [LabelStrategy.labelOf, htags, hsource, htarget] at h
        | ok target => exact ⟨_, source, target, .ofEdge htags hsource htarget h⟩

theorem made_decode {depth : Nat} {v : Written} {l : Label} (h : decode depth v = some l) :
    ∃ own source target, Made own source target l := by
  obtain ⟨tag, rfl, -⟩ | ⟨tags, htags, -⟩ | hedge := decode_cases h
  · exact ⟨[tag], [], [], .decodedTag h⟩
  · exact ⟨tags, [], [], .decodedTags htags h⟩
  · obtain ⟨_, _, _, _, tag, source, target, hslots, htag, hsource, htarget, -⟩ :=
      decodeEdge_eq_some hedge
    exact ⟨[tag], source, target, .decodedEdge hslots htag hsource htarget h⟩

/-! ## Equality and matching -/

theorem isMatchedBy_iff {f c : Label} : f.isMatchedBy c = true ↔
    f.own.tags ⊆ c.own.tags ∧ f.source.tags ⊆ c.source.tags ∧ f.target.tags ⊆ c.target.tags := by
  rw [isMatchedBy, Bool.and_eq_true, Bool.and_eq_true, TagSet.subset_iff, TagSet.subset_iff,
    TagSet.subset_iff, and_assoc]

/-- Labels that are made of written tags are equal if the tags stand for the same ones, at either
end as well. -/
theorem Made.eq_iff {own source target own' source' target' : List String} {l l' : Label}
    (h : Made own source target l) (h' : Made own' source' target' l') :
    l = l' ↔ SameTags own own' ∧ SameTags source source' ∧ SameTags target target' := by
  rw [h.eq_mk, h'.eq_mk, Label.mk.injEq, TagSet.ofList_eq_iff, TagSet.ofList_eq_iff,
    TagSet.ofList_eq_iff]

/-- The tags of every label are canonical, so that labels are equal exactly if they are made of the
same tags, and one label matches another exactly if its tags are among those of the other. -/
theorem canonical :
    (∀ l : Label, IsCanonical l.own.tags ∧ IsCanonical l.source.tags ∧ IsCanonical l.target.tags) ∧
    ((∀ text, ∃ own source target, Made own source target (parse text)) ∧
      (∀ strategy e l, LabelStrategy.labelOf strategy e = .ok l →
        ∃ own source target, Made own source target l) ∧
      ∀ depth v l, decode depth v = some l → ∃ own source target, Made own source target l) ∧
    (∀ {own source target own' source' target' l l'}, Made own source target l →
      Made own' source' target' l' →
      (l = l' ↔ SameTags own own' ∧ SameTags source source' ∧ SameTags target target')) ∧
    (∀ f c : Label, f.isMatchedBy c = true ↔ f.own.tags ⊆ c.own.tags ∧
      f.source.tags ⊆ c.source.tags ∧ f.target.tags ⊆ c.target.tags) ∧
    (∀ l : Label, l.isMatchedBy l = true) ∧
    (∀ f g c : Label, f.isMatchedBy g = true → g.isMatchedBy c = true → f.isMatchedBy c = true) ∧
    ∀ f c : Label, f.isMatchedBy c = true → c.isMatchedBy f = true → f = c := by
  refine ⟨fun l => ⟨l.own.isCanonical, l.source.isCanonical, l.target.isCanonical⟩,
    ⟨made_parse, fun _ _ _ => made_labelOf, fun _ _ _ => made_decode⟩, Made.eq_iff,
    fun _ _ => isMatchedBy_iff, fun l => ?_, fun f g c hfg hgc => ?_, fun f c hfc hcf => ?_⟩
  · exact isMatchedBy_iff.2 ⟨List.Subset.refl _, List.Subset.refl _, List.Subset.refl _⟩
  · obtain ⟨hown, hsource, htarget⟩ := isMatchedBy_iff.1 hfg
    obtain ⟨hown', hsource', htarget'⟩ := isMatchedBy_iff.1 hgc
    exact isMatchedBy_iff.2 ⟨fun _ ht => hown' (hown ht), fun _ ht => hsource' (hsource ht),
      fun _ ht => htarget' (htarget ht)⟩
  · obtain ⟨hown, hsource, htarget⟩ := isMatchedBy_iff.1 hfc
    obtain ⟨hown', hsource', htarget'⟩ := isMatchedBy_iff.1 hcf
    rw [← show Label.mk f.own f.source f.target = f from rfl, TagSet.eq_of_subset hown hown',
      TagSet.eq_of_subset hsource hsource', TagSet.eq_of_subset htarget htarget']

/-- Tags in another order, grouped otherwise and twice. -/
theorem canonical_regrouped :
    Made ["b", "a::b"] [] [] (parse " b; a::b ") ∧
      Made ["a", "b::", "a"] [] [] (ofTags ["a", "b::", "a"]) ∧
      parse " b; a::b " = ofTags ["a", "b::", "a"] ∧ SameTags ["b", "a::b"] ["a", "b::", "a"] := by
  have hmade : Made ["b", "a::b"] [] [] (parse " b; a::b ") := by
    have htags : tagsOfText (Text.stripBy Text.isBlank (" b; a::b " : String).toList) =
        ["b", "a::b"] := by decide
    rw [← htags]
    exact .parsedTags (by decide)
  have hmade' : Made ["a", "b::", "a"] [] [] (ofTags ["a", "b::", "a"]) := .ofTags _
  have hsame : parse " b; a::b " = ofTags ["a", "b::", "a"] := by decide
  obtain ⟨-, -, heq_iff, -⟩ := canonical
  exact ⟨hmade, hmade', hsame, ((heq_iff hmade hmade').1 hsame).1⟩

end Label

end GraphExport
