import GraphExport.Label.Json
import GraphExport.Proofs.Json.Decode
import GraphExport.Proofs.Label.Tags

/-!
# GraphExport.Proofs.Label.ReadBack

Labels read back from their JSON form. With end points the own tags are written as one text, which
is read as one tag, so that a label with end points and several own tags comes back as another.

* `TagSet.ofList_tags`: the tags of a set, written one by one, stand for the set.
* `TagSet.tags_ofList_text`: its text stands for one tag, or for none where the set is empty.
* `Label.decode_toJson`: what a label is read back as, at any depth.
* `Label.reads_back`: it is the label itself unless it has end points and several own tags.
-/

namespace GraphExport

theorem writtenTags_of_areTags {l : List String} (h : ∀ t ∈ l, IsTag t) : writtenTags l = l := by
  have hcut : ∀ t ∈ l, (cutTag t.toList).map String.ofList = [t] := fun t ht => by
    rw [cutTag_of_hasSeparator (h t ht).2, List.map_singleton, String.ofList_toList]
  rw [writtenTags, List.flatMap_congr hcut, List.flatMap_singleton']
  exact List.filter_eq_self.2 fun t ht => bne_iff_ne.2 (h t ht).1

theorem foldr_insertTag_of_increasing {l : List String} (h : l.Pairwise (· < ·)) :
    l.foldr insertTag [] = l := by
  induction l with
  | nil => rfl
  | cons t rest ih =>
    obtain ⟨ht, hrest⟩ := List.pairwise_cons.1 h
    rw [List.foldr_cons, ih hrest]
    cases rest with
    | nil => rfl
    | cons u rest => exact if_pos (ht u List.mem_cons_self)

/-! ## A text of several tags -/

/-- Nothing is cut where texts without `::` are put together with `;`. -/
theorem hasSeparator_append_semicolon {s rest : List Char} (hs : hasSeparator s = false)
    (hrest : hasSeparator rest = false) : hasSeparator (s ++ ';' :: rest) = false := by
  fun_induction hasSeparator s with
  | case1 => exact hasSeparator_cons_of_ne hrest (by simp)
  | case2 => cases hs
  | case3 c s hc ih =>
    refine hasSeparator_cons_of_ne (ih hs) fun hcolon hhead => ?_
    cases s with
    | nil => cases hhead
    | cons d s =>
      cases hhead
      exact hc s hcolon rfl

namespace TagSet

theorem ofList_tags (s : TagSet) : ofList s.tags = s := by
  have hwritten := congrArg (List.foldr insertTag []) (writtenTags_of_areTags s.areTags)
  exact ext_tags (hwritten.trans (foldr_insertTag_of_increasing s.increasing))

theorem hasSeparator_intercalate {tags : List String} (h : ∀ t ∈ tags, IsTag t) :
    hasSeparator (";".intercalate tags).toList = false := by
  induction tags with
  | nil => rfl
  | cons t rest ih =>
    have ht := (h t List.mem_cons_self).2
    have hrest := ih fun u hu => h u (List.mem_cons_of_mem _ hu)
    cases rest with
    | nil => rwa [String.intercalate_singleton]
    | cons u rest =>
      have hsep : (";" : String).toList = [';'] := by decide
      rw [String.intercalate_cons_cons, String.toList_append, String.toList_append, hsep,
        List.append_assoc, List.singleton_append]
      exact hasSeparator_append_semicolon ht hrest

theorem text_eq_empty {s : TagSet} : s.text = "" ↔ s.tags = [] := by
  constructor
  · intro h
    cases hs : s.tags with
    | nil => rfl
    | cons t rest =>
      have ht := (s.areTags t (by rw [hs]; exact List.mem_cons_self)).1
      rw [text, hs] at h
      cases rest with
      | nil => exact absurd (by rwa [String.intercalate_singleton] at h) ht
      | cons u rest =>
        have := congrArg String.toList h
        simp [String.intercalate_cons_cons] at this
  · intro h
    rw [text, h]
    rfl

/-- The text of a set stands for one tag, or for none where the set is empty. -/
theorem tags_ofList_text (s : TagSet) :
    (ofList [s.text]).tags = if s.tags = [] then [] else [s.text] := by
  split
  · rename_i h
    rw [text, h]
    rfl
  · rename_i h
    have htag : IsTag s.text :=
      ⟨fun he => h (text_eq_empty.1 he), hasSeparator_intercalate s.areTags⟩
    exact congrArg (List.foldr insertTag []) (writtenTags_of_isTag htag)

/-- A set is what its text stands for if it has one tag at most. -/
theorem ofList_text_iff (s : TagSet) : ofList [s.text] = s ↔ s.tags.length ≤ 1 := by
  have htags := s.tags_ofList_text
  constructor
  · intro h
    rw [h] at htags
    rw [htags]
    split <;> simp
  · intro h
    refine ext_tags ?_
    rw [htags]
    cases hs : s.tags with
    | nil => rfl
    | cons t rest =>
      cases rest with
      | nil => simp [text, hs]
      | cons u rest => simp [hs] at h

end TagSet

namespace Label

/-! ## Reading back -/

/-- What the JSON form of a label is read as. -/
def readBack (l : Label) : Label := if l.hasEndpoints then { l with own := .ofList [l.text] } else l

theorem readable_toJson (l : Label) (depth : Nat) :
    Decode.readable (depth + 2) (.ofJson l.toJson) = true := by
  have hstrings := fun tags : List String => Decode.toJsonItems?_strings tags depth
  unfold toJson
  split
  · simp [Decode.readable, Json.strings, Written.ofJson, Written.ofJsonFields, Written.toJson?,
      Written.toJsonFields?, hstrings]
  · split
    · rfl
    · exact Decode.readable_strings _ _

theorem decodeEdge_toJson {l : Label} (h : l.hasEndpoints = true) (depth : Nat) :
    decodeEdge (depth + 2) (.ofJson l.toJson) = some l.readBack := by
  have hslots : Decode.namedSlots [["~label"], ["~fromLabels"], ["~toLabels"]] (depth + 2)
      (.ofJson l.toJson) = some (depth + 1, [some (.ofJson (.str l.text)),
        some (.ofJson (.strings l.source.tags)), some (.ofJson (.strings l.target.tags))]) := by
    rw [toJson, if_pos h]
    rfl
  have hlabel : Decode.string (depth + 1) (.ofJson (.str l.text)) = some l.text := rfl
  simp only [decodeEdge, hslots, Option.bind_eq_bind, Option.bind_some, Decode.required, hlabel,
    Decode.strings_ofJson]
  rw [withEndpoints, TagSet.ofList_tags, TagSet.ofList_tags, readBack, if_pos h]

/-- A label without end points is the label of its tags. -/
theorem ofTags_tags {l : Label} (h : l.hasEndpoints = false) : ofTags l.own.tags = l := by
  have hempty : ∀ {s : TagSet}, s.isEmpty = true → ∅ = s := fun hs =>
    TagSet.ext_tags (List.isEmpty_iff.1 hs).symm
  rw [hasEndpoints, Bool.or_eq_false_iff, Bool.not_eq_false', Bool.not_eq_false'] at h
  rw [ofTags, TagSet.ofList_tags]
  exact congrArg₂ (Label.mk l.own) (hempty h.1) (hempty h.2)

theorem decode_toJson (l : Label) (depth : Nat) :
    decode (depth + 2) (.ofJson l.toJson) = some l.readBack := by
  rw [decode, Decode.firstOf, if_pos (readable_toJson l depth)]
  cases h : l.hasEndpoints with
  | true =>
    -- An object is neither a string nor a list, so only the third way is left.
    have hedge := decodeEdge_toJson h depth
    rw [toJson, if_pos h] at hedge ⊢
    simp only [List.findSome?_cons, hedge]
    rfl
  | false =>
    have hback : l.readBack = ofTags l.own.tags := by rw [readBack, h, ofTags_tags h]; rfl
    rw [hback, toJson, if_neg (Bool.eq_false_iff.1 h)]
    split
    · rename_i tag htag
      rw [htag]
      rfl
    · have hsecond : (Decode.list .string (depth + 2) (.ofJson (.strings l.own.tags))).map ofTags =
          some (ofTags l.own.tags) := by rw [Decode.strings_ofJson]; rfl
      simp only [List.findSome?_cons, hsecond]
      rfl

theorem readBack_eq_iff (l : Label) :
    l.readBack = l ↔ (l.hasEndpoints = true → l.own.tags.length ≤ 1) := by
  rw [readBack]
  split
  · rename_i h
    rw [imp_iff_right h, ← TagSet.ofList_text_iff]
    exact ⟨congrArg own, fun hown => by rw [text, hown]⟩
  · rename_i h
    exact iff_of_true rfl fun h' => absurd h' h

/-- A label is read back as itself, unless it has end points and several own tags. Then its own
tags come back as one, their text. -/
theorem reads_back (l : Label) :
    ∃ back, Decode.fromJson? decode l.toJson = some back ∧ back.source = l.source ∧
      back.target = l.target ∧ (back = l ↔ (l.hasEndpoints = true → l.own.tags.length ≤ 1)) ∧
      (back ≠ l → back.own.tags = [l.text]) := by
  refine ⟨l.readBack, decode_toJson l 125, ?_, ?_, l.readBack_eq_iff, fun hne => ?_⟩
  · rw [readBack]
    split <;> rfl
  · rw [readBack]
    split <;> rfl
  · have htags := l.own.tags_ofList_text
    rw [ne_eq, readBack_eq_iff, Classical.not_imp] at hne
    obtain ⟨hends, hlong⟩ := hne
    rw [if_neg fun hnil => hlong (by rw [hnil]; exact Nat.zero_le 1)] at htags
    rw [readBack, if_pos hends]
    exact htags

example : Decode.fromJson? decode (withEndpoints "a::b" ["x"] []).toJson =
    some (withEndpoints "a;b" ["x"] []) := by decide

end Label

end GraphExport
