import GraphExport.Proofs.Label.ReadBack
import GraphExport.Proofs.Source.Spliced

/-!
# GraphExport.Proofs.Label.FilterText

The text form of a label, `a;b` or `(source)-own-(target)`, read as the text of a filter. The parts
are told apart by the parentheses, so tags may hold dashes, or be nothing else.

* `Label.cutQualified_written`: the three parts are found where they were written.
* `Label.parse_qualifiedText`: a label is read as it is read from its JSON form.
* `Label.parse_qualifiedText_eq_iff`: it is the label itself unless it has end points and several
  own tags, or none.
-/

namespace GraphExport

/-- A tag that can be written in the text form: no blank, none of the separators of that form. -/
def IsPlainTag (t : String) : Prop :=
  ∀ c ∈ t.toList, Text.isBlank c = false ∧ c ≠ ';' ∧ c ≠ '(' ∧ c ≠ ')'

instance (t : String) : Decidable (IsPlainTag t) := List.decidableBAll _ t.toList

namespace TagSet

/-- What is not in the text of a set of plain tags. -/
theorem of_mem_text {s : TagSet} (h : ∀ t ∈ s.tags, IsPlainTag t) {c : Char}
    (hc : c ∈ s.text.toList) : Text.isBlank c = false ∧ c ≠ '(' ∧ c ≠ ')' := by
  rcases Text.of_mem_joined hc with rfl | ⟨t, ht, hc⟩
  · decide
  · obtain ⟨hblank, -, hopen, hclose⟩ := h t ht c hc
    exact ⟨hblank, hopen, hclose⟩

end TagSet

namespace Label

/-! ## One set of tags -/

theorem tagsOfText_text {s : TagSet} (h : ∀ t ∈ s.tags, IsPlainTag t) :
    tagsOfText s.text.toList = s.tags := by
  cases hs : s.tags with
  | nil => rw [TagSet.text, hs]; rfl
  | cons t rest =>
    rw [hs] at h
    have htags : ∀ u ∈ t :: rest, IsTag u := hs ▸ s.areTags
    have hstrip : ∀ u ∈ t :: rest, Text.stripBy Text.isBlank u.toList = u.toList := fun u hu =>
      Text.stripBy_eq_self fun c hc => (h u hu c hc).1
    have hfull : ∀ p ∈ (t :: rest).map String.toList, (!p.isEmpty) = true :=
      List.forall_mem_map.2 fun u hu => by simpa using (htags u hu).1
    rw [tagsOfText, TagSet.text, hs,
      Text.cutAt_joined fun u hu hc => (h u hu ';' hc).2.1 rfl, List.map_map,
      Function.comp_def, List.map_congr_left hstrip,
      List.filter_eq_self.2 hfull, List.map_map]
    exact (List.map_congr_left fun u _ => String.ofList_toList).trans (List.map_id _)

/-! ## Three parts -/

/-- Without a parenthesis that opens there is no target to cut off. -/
theorem cutTarget_of_not_mem {s : List Char} (h : '(' ∉ s) : cutTarget s = none := by
  induction s with
  | nil => rfl
  | cons c rest ih =>
    have hrest : (if c = '\n' then none else cutTarget rest) = none := by
      rw [ih fun hmem => h (List.mem_cons_of_mem _ hmem), ite_self]
    rw [cutTarget, hrest]
    rintro target - rfl
    exact h (List.mem_cons_of_mem _ List.mem_cons_self)

theorem cutTarget_open {target : List Char} (h : '(' ∉ target) :
    cutTarget ('(' :: target) = none := by
  have hrest : (if '(' = '\n' then none else cutTarget target) = none := by
    rw [cutTarget_of_not_mem h, ite_self]
  rw [cutTarget, hrest]
  rintro _ ⟨⟩

/-- The target is what stands behind the last `-(`, so that the middle may hold dashes. -/
theorem cutTarget_written {middle target : List Char} (hmiddle : '\n' ∉ middle)
    (hopen : '(' ∉ target) (hclose : ')' ∉ target) :
    cutTarget (middle ++ '-' :: '(' :: target) = some (middle, target) := by
  induction middle with
  | nil =>
    have hrest : (if '-' = '\n' then none else cutTarget ('(' :: target)) = none := by
      rw [cutTarget_open hopen, ite_self]
    rw [List.nil_append, cutTarget, hrest]
    simp [hclose]
  | cons c middle ih =>
    have hc : c ≠ '\n' := fun hc => hmiddle (hc ▸ List.mem_cons_self)
    simp only [List.cons_append, cutTarget, if_neg hc,
      ih fun hmem => hmiddle (List.mem_cons_of_mem _ hmem)]

/-- The text of three parts, read from the first parenthesis that closes. -/
theorem cutQualified_open {source : List Char} (h : ')' ∉ source) (c : Char) (body : List Char) :
    cutQualified ('(' :: (source ++ ')' :: '-' :: c :: body)) =
      if c = '\n' || body.getLast? != some ')' then none
      else (cutTarget body.dropLast).map fun (middle, target) => (source, c :: middle, target) := by
  have hsource : ∀ d ∈ source, (d != ')') = true := fun d hd =>
    bne_iff_ne.2 fun hd' => h (hd' ▸ hd)
  rw [cutQualified, List.takeWhile_append_of_pos hsource, List.dropWhile_append_of_pos hsource]
  simp only [List.takeWhile_cons, List.dropWhile_cons, bne_self_eq_false, Bool.false_eq_true,
    if_false, List.append_nil]
  split
  · rfl
  · cases cutTarget body.dropLast <;> rfl

/-- The three parts are found where they were written. -/
theorem cutQualified_written {source middle target : List Char} (hsource : ')' ∉ source)
    (hne : middle ≠ []) (hmiddle : '\n' ∉ middle) (hopen : '(' ∉ target) (hclose : ')' ∉ target) :
    cutQualified ('(' :: (source ++ ')' :: '-' :: (middle ++ '-' :: '(' :: (target ++ [')'])))) =
      some (source, middle, target) := by
  obtain ⟨c, middle, rfl⟩ := List.exists_cons_of_ne_nil hne
  have hc : c ≠ '\n' := fun hc => hmiddle (hc ▸ List.mem_cons_self)
  have hbody : middle ++ '-' :: '(' :: (target ++ [')']) =
      middle ++ '-' :: '(' :: target ++ [')'] := by simp
  rw [List.cons_append, hbody, cutQualified_open hsource, List.getLast?_concat,
    List.dropLast_concat, cutTarget_written (fun hmem => hmiddle (List.mem_cons_of_mem _ hmem))
      hopen hclose]
  simp [hc]

/-- Nothing between the dashes makes no middle part. -/
theorem cutQualified_no_middle {source target : List Char} (hsource : ')' ∉ source)
    (hopen : '(' ∉ target) :
    cutQualified ('(' :: (source ++ ')' :: '-' :: '-' :: '(' :: (target ++ [')']))) = none := by
  rw [cutQualified_open hsource, ← List.cons_append, List.dropLast_concat, cutTarget_open hopen,
    Option.map_none, ite_self]

theorem cutQualified_of_not_mem {s : List Char} (h : '(' ∉ s) : cutQualified s = none := by
  cases s with
  | nil => rfl
  | cons c rest =>
    rw [cutQualified]
    rintro rest' ⟨⟩
    exact h List.mem_cons_self

/-! ## A label -/

/-- All tags of a label can be written in the text form. -/
def IsPlain (l : Label) : Prop := ∀ t ∈ l.own.tags ++ l.source.tags ++ l.target.tags, IsPlainTag t

instance (l : Label) : Decidable l.IsPlain :=
  List.decidableBAll _ (l.own.tags ++ l.source.tags ++ l.target.tags)

namespace IsPlain

variable {l : Label} (h : l.IsPlain)
include h

theorem own : ∀ t ∈ l.own.tags, IsPlainTag t := fun t ht => h t (by simp [ht])

theorem source : ∀ t ∈ l.source.tags, IsPlainTag t := fun t ht => h t (by simp [ht])

theorem target : ∀ t ∈ l.target.tags, IsPlainTag t := fun t ht => h t (by simp [ht])

end IsPlain

theorem toList_qualifiedText {l : Label} (h : l.hasEndpoints = true) :
    l.qualifiedText.toList = '(' :: (l.source.text.toList ++ ')' :: '-' ::
      (l.text.toList ++ '-' :: '(' :: (l.target.text.toList ++ [')']))) := by
  rw [qualifiedText, if_pos h]
  simp [String.toList_append]

/-- Nothing is taken off the ends of the text before it is read. -/
theorem stripBy_qualifiedText {l : Label} (h : l.IsPlain) :
    Text.stripBy Text.isBlank l.qualifiedText.toList = l.qualifiedText.toList := by
  refine Text.stripBy_eq_self fun c hc => ?_
  cases hends : l.hasEndpoints with
  | true =>
    rw [toList_qualifiedText hends] at hc
    simp only [List.mem_cons, List.mem_append, List.not_mem_nil, or_false] at hc
    rcases hc with rfl | hc | rfl | rfl | hc | rfl | rfl | hc | rfl
    · decide
    · exact (TagSet.of_mem_text h.source hc).1
    · decide
    · decide
    · exact (TagSet.of_mem_text h.own hc).1
    · decide
    · decide
    · exact (TagSet.of_mem_text h.target hc).1
    · decide
  | false =>
    rw [qualifiedText, if_neg (Bool.eq_false_iff.1 hends)] at hc
    exact (TagSet.of_mem_text h.own hc).1

theorem parse_of_not_hasEndpoints {l : Label} (h : l.IsPlain) (hends : l.hasEndpoints = false) :
    parse l.qualifiedText = l := by
  have hnone : cutQualified l.text.toList = none :=
    cutQualified_of_not_mem fun hmem => (TagSet.of_mem_text h.own hmem).2.1 rfl
  have hstrip := stripBy_qualifiedText h
  have htext : l.qualifiedText = l.text := if_neg (Bool.eq_false_iff.1 hends)
  rw [htext] at hstrip ⊢
  simp only [parse, hstrip, hnone]
  rw [text, tagsOfText_text h.own, ofTags_tags hends]

/-- A label is read from its text form as it is read from its JSON form, where it has own tags. -/
theorem parse_qualifiedText {l : Label} (h : l.IsPlain)
    (hown : l.hasEndpoints = true → l.own.tags ≠ []) : parse l.qualifiedText = l.readBack := by
  cases hends : l.hasEndpoints with
  | false =>
    rw [parse_of_not_hasEndpoints h hends, readBack, hends]
    rfl
  | true =>
    have hne : l.text.toList ≠ [] := fun he =>
      hown hends (TagSet.text_eq_empty.1 (String.toList_eq_nil_iff.1 he))
    have hcut : cutQualified l.qualifiedText.toList =
        some (l.source.text.toList, l.text.toList, l.target.text.toList) := by
      rw [toList_qualifiedText hends]
      refine cutQualified_written ?_ hne ?_ ?_ ?_
      · exact fun hmem => (TagSet.of_mem_text h.source hmem).2.2 rfl
      · exact fun hmem => absurd (TagSet.of_mem_text h.own hmem).1 (by decide)
      · exact fun hmem => (TagSet.of_mem_text h.target hmem).2.1 rfl
      · exact fun hmem => (TagSet.of_mem_text h.target hmem).2.2 rfl
    simp only [parse, stripBy_qualifiedText h, hcut]
    rw [tagsOfText_text h.source, tagsOfText_text h.target, withEndpoints, TagSet.ofList_tags,
      TagSet.ofList_tags, String.ofList_toList, readBack, if_pos hends]

/-- A label with end points and no own tags is read as one without end points. -/
theorem hasEndpoints_parse_of_no_own {l : Label} (h : l.IsPlain) (hends : l.hasEndpoints = true)
    (hown : l.own.tags = []) : (parse l.qualifiedText).hasEndpoints = false := by
  have htext : l.text.toList = [] := String.toList_eq_nil_iff.2 (TagSet.text_eq_empty.2 hown)
  have hcut : cutQualified l.qualifiedText.toList = none := by
    rw [toList_qualifiedText hends, htext]
    refine cutQualified_no_middle ?_ ?_
    · exact fun hmem => (TagSet.of_mem_text h.source hmem).2.2 rfl
    · exact fun hmem => (TagSet.of_mem_text h.target hmem).2.1 rfl
  simp only [parse, stripBy_qualifiedText h, hcut]
  rfl

/-- A label of plain tags is what its text is read as, exactly if it has one own tag wherever it
has end points. There may be any number of tags at either end, and of own tags without end
points. -/
theorem parse_qualifiedText_eq_iff {l : Label} (h : l.IsPlain) :
    parse l.qualifiedText = l ↔ (l.hasEndpoints = true → l.own.tags.length = 1) := by
  by_cases hown : l.hasEndpoints = true → l.own.tags ≠ []
  · rw [parse_qualifiedText h hown, readBack_eq_iff]
    refine forall_congr' fun hends => ?_
    have := List.length_pos_iff.2 (hown hends)
    omega
  · rw [Classical.not_imp, not_not] at hown
    obtain ⟨hends, hnil⟩ := hown
    refine iff_of_false (fun heq => ?_) fun hone => ?_
    · have := hasEndpoints_parse_of_no_own h hends hnil
      rw [heq, hends] at this
      cases this
    · rw [hnil] at hone
      cases hone hends

/-- An edge with no tag at its source, and a tag that looks like the marks between the parts. -/
theorem parse_qualifiedText_eq_iff_dashes :
    (withEndpoints "--" [] ["-", "a-b"]).IsPlain ∧
      (withEndpoints "--" [] ["-", "a-b"]).qualifiedText = "()----(-;a-b)" ∧
      parse "()----(-;a-b)" = withEndpoints "--" [] ["-", "a-b"] := by
  have hplain : (withEndpoints "--" [] ["-", "a-b"]).IsPlain := by decide +kernel
  have htext : (withEndpoints "--" [] ["-", "a-b"]).qualifiedText = "()----(-;a-b)" := by
    decide +kernel
  refine ⟨hplain, htext, ?_⟩
  rw [← htext]
  exact (parse_qualifiedText_eq_iff hplain).2 fun _ => rfl

end Label

end GraphExport
