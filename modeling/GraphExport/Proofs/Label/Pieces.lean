import GraphExport.Proofs.Label.Tags
import GraphExport.Text.Cut
import Mathlib.Data.List.Induction

/-!
# GraphExport.Proofs.Label.Pieces

What a tag is cut into, without the cutting, and what becomes of tags that are put together with
`::`. A text is cut from the left, so that a colon which is left over at the end of one tag goes to
the tag behind it.

* `isCut_iff`: the pieces of a text are the only ones that make it up and are found from the left.
* `endsOpen_iff_odd`, `endsOpen_iff`: a text that ends in an odd number of colons leaves one over.
* `writtenTags_joined`: tags put together stand for the tags with the left over colons moved on.
* `carryColons_eq_self_iff`: nothing is moved where no tag but the last one ends so.
-/

namespace GraphExport

/-! ## Pieces -/

/-- The pieces of a text between occurrences of `::`, each of which is found as far to the left as
possible. So a piece that `::` follows does not end in a colon. -/
structure IsCut (s : List Char) (pieces : List (List Char)) : Prop where
  ne_nil : pieces ≠ []
  glued : Text.glue [':', ':'] pieces = s
  whole : ∀ p ∈ pieces, ¬ [':', ':'] <:+: p
  leftmost : ∀ p ∈ pieces.dropLast, p.getLast? ≠ some ':'

theorem hasSeparator_iff {s : List Char} : hasSeparator s = true ↔ [':', ':'] <:+: s := by
  fun_induction hasSeparator s with
  | case1 => simp
  | case2 rest => simp [List.infix_cons_iff]
  | case3 c rest hc ih =>
    rw [ih, List.infix_cons_iff]
    refine (or_iff_right fun hprefix => ?_).symm
    obtain ⟨after, hafter⟩ := hprefix
    cases hafter
    exact hc after rfl rfl

theorem not_infix_iff {s : List Char} : ¬ [':', ':'] <:+: s ↔ hasSeparator s = false := by
  rw [← hasSeparator_iff, Bool.not_eq_true]

/-- A piece that ends in no colon is cut off at the `::` behind it. -/
theorem cutTag_append_piece {s : List Char} (hs : hasSeparator s = false)
    (hend : s.getLast? ≠ some ':') (rest : List Char) :
    cutTag (s ++ ':' :: ':' :: rest) = s :: cutTag rest := by
  fun_induction hasSeparator s with
  | case1 => rfl
  | case2 => cases hs
  | case3 c s hc ih =>
    cases s with
    | nil =>
      have hne : c ≠ ':' := fun h => hend (by rw [h]; rfl)
      rw [List.singleton_append, cutTag.eq_3 _ _ fun _ h => absurd h hne]
      rfl
    | cons d s =>
      rw [List.cons_append, cutTag.eq_3, ih hs (by simpa using hend)]
      rintro after hcolon ⟨⟩
      exact hc s hcolon rfl

theorem glue_cons {sep p : List Char} {ps : List (List Char)} (h : ps ≠ []) :
    Text.glue sep (p :: ps) = p ++ sep ++ Text.glue sep ps := by
  cases ps with
  | nil => exact absurd rfl h
  | cons q ps => rfl

theorem IsCut.eq_cutTag {s : List Char} {pieces : List (List Char)} (h : IsCut s pieces) :
    pieces = cutTag s := by
  induction pieces generalizing s with
  | nil => exact absurd rfl h.ne_nil
  | cons p rest ih =>
    have hp := not_infix_iff.1 (h.whole p List.mem_cons_self)
    cases rest with
    | nil =>
      obtain rfl : p = s := h.glued
      exact (cutTag_of_hasSeparator hp).symm
    | cons q rest =>
      have hrest : IsCut (Text.glue [':', ':'] (q :: rest)) (q :: rest) :=
        ⟨List.cons_ne_nil _ _, rfl, fun r hr => h.whole r (List.mem_cons_of_mem _ hr),
          fun r hr => h.leftmost r (List.mem_cons_of_mem _ hr)⟩
      rw [← h.glued, glue_cons (List.cons_ne_nil _ _), List.append_assoc]
      have hcut := cutTag_append_piece hp (h.leftmost p List.mem_cons_self)
        (Text.glue [':', ':'] (q :: rest))
      exact (congrArg (p :: ·) (ih hrest)).trans hcut.symm

theorem glue_cutTag (s : List Char) : Text.glue [':', ':'] (cutTag s) = s := by
  fun_induction cutTag s with
  | case1 => rfl
  | case2 rest ih =>
    rw [glue_cons (cutTag_ne_nil rest), ih]
    rfl
  | case3 c rest hc hnil => exact absurd hnil (cutTag_ne_nil rest)
  | case4 c rest hc p ps hp ih =>
    rw [hp] at ih
    rw [← ih]
    cases ps <;> rfl

theorem isCut_cutTag (s : List Char) : IsCut s (cutTag s) := by
  refine ⟨cutTag_ne_nil s, glue_cutTag s,
    fun p hp => not_infix_iff.2 (hasSeparator_of_mem_cutTag hp), ?_⟩
  fun_induction cutTag s with
  | case1 => simp
  | case2 rest ih =>
    rw [List.dropLast_cons_of_ne_nil (cutTag_ne_nil rest)]
    simpa using ih
  | case3 c rest hc hnil => exact absurd hnil (cutTag_ne_nil rest)
  | case4 c rest hc p ps hp ih =>
    cases ps with
    | nil => simp
    | cons q ps =>
      rw [hp] at ih
      simp only [List.dropLast_cons_cons, List.mem_cons, forall_eq_or_imp] at ih ⊢
      refine ⟨?_, ih.2⟩
      cases p with
      | nil =>
        -- An empty piece is followed by `::`, which the colon would have been cut off with.
        have hrest := glue_cutTag rest
        rw [hp] at hrest
        intro hcolon
        cases hcolon
        exact hc _ rfl hrest.symm
      | cons d p => simpa using ih.1

/-- The pieces of a text are found from the left, and no other pieces are. -/
theorem isCut_iff {s : List Char} {pieces : List (List Char)} :
    IsCut s pieces ↔ pieces = cutTag s := by
  constructor
  · exact IsCut.eq_cutTag
  · rintro rfl
    exact isCut_cutTag s

/-! ## Colons at the end -/

/-- The text ends in an odd number of colons. Cut from the left, it has one of them left over. -/
def endsOpen (s : List Char) : Bool := s.foldl (fun isOpen c => c = ':' && !isOpen) false

theorem endsOpen_concat (s : List Char) (c : Char) :
    endsOpen (s ++ [c]) = (c = ':' && !endsOpen s) := by
  rw [endsOpen, List.foldl_concat, ← endsOpen]

theorem endsOpen_iff_odd {s : List Char} :
    endsOpen s = true ↔ (s.reverse.takeWhile (· = ':')).length % 2 = 1 := by
  induction s using List.reverseRecOn with
  | nil => simp [endsOpen]
  | append_singleton s c ih =>
    rw [endsOpen_concat, List.reverse_concat, List.takeWhile_cons]
    by_cases hc : c = ':'
    · rw [Bool.and_eq_true, Bool.not_eq_true', Bool.eq_false_iff, ne_eq, ih]
      simp only [hc, decide_true, if_true, List.length_cons, true_and]
      omega
    · simp [hc]

theorem endsOpen_of_not_mem {s : List Char} (h : ':' ∉ s) : endsOpen s = false := by
  induction s using List.reverseRecOn with
  | nil => rfl
  | append_singleton s c ih =>
    have hc : c ≠ ':' := fun hc => h (by simp [hc])
    simp [endsOpen_concat, hc]

theorem endsOpen_separator (rest : List Char) : endsOpen (':' :: ':' :: rest) = endsOpen rest := rfl

theorem endsOpen_cons {c d : Char} (h : c = ':' → d ≠ ':') (rest : List Char) :
    endsOpen (c :: d :: rest) = endsOpen (d :: rest) := by
  have hnext : (d = ':' && !(c = ':' && true)) = (d = ':' && true) := by
    by_cases hc : c = ':' <;> simp [hc, h]
  simp only [endsOpen, List.foldl_cons, Bool.not_false, hnext]

/-- A colon is left over exactly if the last piece ends in one. -/
theorem endsOpen_iff {s : List Char} :
    endsOpen s = true ↔ ∃ p ∈ (cutTag s).getLast?, p.getLast? = some ':' := by
  fun_induction cutTag s with
  | case1 => decide
  | case2 rest ih =>
    obtain ⟨p, ps, hcut⟩ := List.exists_cons_of_ne_nil (cutTag_ne_nil rest)
    rw [endsOpen_separator, ih, hcut, List.getLast?_cons_cons]
  | case3 c rest hc hnil => exact absurd hnil (cutTag_ne_nil rest)
  | case4 c rest hc p ps hp ih =>
    have hrest := glue_cutTag rest
    rw [hp] at ih hrest
    cases rest with
    | nil =>
      cases hp
      simp [endsOpen]
    | cons d rest =>
      rw [endsOpen_cons (by rintro hcolon rfl; exact hc rest hcolon rfl), ih]
      cases ps with
      | cons q ps => rw [List.getLast?_cons_cons, List.getLast?_cons_cons]
      | nil =>
        obtain rfl : p = d :: rest := hrest
        simp

/-! ## Tags put together -/

theorem glue_append {sep : List Char} {ps qs : List (List Char)} (hps : ps ≠ []) (hqs : qs ≠ []) :
    Text.glue sep (ps ++ qs) = Text.glue sep ps ++ sep ++ Text.glue sep qs := by
  induction ps with
  | nil => exact absurd rfl hps
  | cons p ps ih =>
    cases ps with
    | nil => exact glue_cons hqs
    | cons q ps =>
      have hrest := ih (List.cons_ne_nil q ps)
      rw [List.cons_append, glue_cons (by simp), hrest, glue_cons (List.cons_ne_nil q ps)]
      simp only [List.append_assoc]

/-- A text that leaves no colon over is cut off as a whole at the `::` behind it. -/
theorem cutTag_append {s : List Char} (h : endsOpen s = false) (rest : List Char) :
    cutTag (s ++ ':' :: ':' :: rest) = cutTag s ++ cutTag rest := by
  have hs := isCut_cutTag s
  have hrest := isCut_cutTag rest
  refine (IsCut.eq_cutTag ⟨?_, ?_, fun p hp => ?_, fun p hp => ?_⟩).symm
  · simp [hs.ne_nil]
  · rw [glue_append hs.ne_nil hrest.ne_nil, hs.glued, hrest.glued]
    simp
  · exact (List.mem_append.1 hp).elim (hs.whole p) (hrest.whole p)
  · rw [List.dropLast_append_of_ne_nil hrest.ne_nil, List.mem_append] at hp
    rcases hp with hp | hp
    · by_cases hlast : p ∈ (cutTag s).getLast?
      · intro hcolon
        rw [endsOpen_iff.2 ⟨p, hlast, hcolon⟩] at h
        cases h
      · exact hs.leftmost p (List.mem_dropLast_of_mem_of_ne_getLast? hp fun heq => hlast heq.symm)
    · exact hrest.leftmost p hp

theorem writtenTags_cons (t : String) (tags : List String) :
    writtenTags (t :: tags) = writtenTags [t] ++ writtenTags tags := by
  simp [writtenTags]

/-- A text that leaves no colon over, and another one behind it. -/
theorem writtenTags_separated {s t : String} (h : endsOpen s.toList = false) :
    writtenTags [s ++ "::" ++ t] = writtenTags [s] ++ writtenTags [t] := by
  have hsep : ("::" : String).toList = [':', ':'] := by decide
  simp only [writtenTags, List.flatMap_singleton, String.toList_append, hsep, List.append_assoc,
    List.cons_append, List.nil_append, cutTag_append h, List.map_append, List.filter_append]

/-- Tags with each colon that is left over at the end of one written at the start of the next. -/
def carryColons : List String → List String
  | [] => []
  | [t] => [t]
  | t :: u :: rest =>
    if endsOpen t.toList then String.ofList t.toList.dropLast :: carryColons ((":" ++ u) :: rest)
    else t :: carryColons (u :: rest)
termination_by tags => tags.length

theorem exists_of_endsOpen {t : String} (h : endsOpen t.toList = true) :
    ∃ s, t = s ++ ":" ∧ endsOpen s.toList = false := by
  rcases List.eq_nil_or_concat' t.toList with hnil | ⟨cs, c, hcs⟩
  · rw [hnil] at h
    cases h
  · rw [hcs, endsOpen_concat, Bool.and_eq_true, decide_eq_true_eq, Bool.not_eq_true'] at h
    refine ⟨String.ofList cs, String.toList_injective ?_, by rw [String.toList_ofList, h.2]⟩
    rw [hcs, h.1, String.toList_append, String.toList_ofList]
    rfl

/-- Tags put together with `::` stand for the tags with the left over colons moved on. -/
theorem writtenTags_joined (tags : List String) :
    writtenTags ["::".intercalate tags] = writtenTags (carryColons tags) := by
  fun_induction carryColons tags with
  | case1 => rfl
  | case2 t => rw [String.intercalate_singleton]
  | case3 t u rest hopen ih =>
    obtain ⟨s, rfl, hclosed⟩ := exists_of_endsOpen hopen
    have hcut : String.ofList (s ++ ":").toList.dropLast = s := by simp
    have hmoved : "::".intercalate ((s ++ ":") :: u :: rest) =
        s ++ "::" ++ "::".intercalate ((":" ++ u) :: rest) :=
      calc "::".intercalate ((s ++ ":") :: u :: rest)
          = s ++ (":" ++ "::") ++ "::".intercalate (u :: rest) := by
            simp only [String.intercalate_cons_cons, String.append_assoc]
        _ = s ++ ("::" ++ ":") ++ "::".intercalate (u :: rest) := rfl
        _ = s ++ "::" ++ "::".intercalate ((":" ++ u) :: rest) := by
            simp only [String.intercalate_cons_append, String.append_assoc]
    rw [hmoved, writtenTags_separated hclosed, ih, hcut, ← writtenTags_cons]
  | case4 t u rest hclosed ih =>
    rw [String.intercalate_cons_cons, writtenTags_separated (Bool.eq_false_iff.2 hclosed), ih,
      ← writtenTags_cons]

/-- No colon is moved where no tag but the last one leaves one over. -/
theorem carryColons_eq_self_iff {tags : List String} :
    carryColons tags = tags ↔ ∀ t ∈ tags.dropLast, endsOpen t.toList = false := by
  fun_induction carryColons tags with
  | case1 => simp
  | case2 t => simp
  | case3 t u rest hopen ih =>
    refine iff_of_false (fun heq => ?_) fun h => ?_
    · obtain ⟨s, rfl, -⟩ := exists_of_endsOpen hopen
      have hlength := congrArg String.length (List.cons.inj heq).1
      simp at hlength
    · rw [h t (by simp)] at hopen
      cases hopen
  | case4 t u rest hclosed ih =>
    rw [List.cons.injEq, ih]
    simp [Bool.eq_false_iff.2 hclosed]

theorem TagSet.ofList_joined (tags : List String) :
    TagSet.ofList ["::".intercalate tags] = TagSet.ofList (carryColons tags) :=
  TagSet.ext_tags (congrArg (List.foldr insertTag []) (writtenTags_joined tags))

end GraphExport
