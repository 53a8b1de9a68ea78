/-!
# GraphExport.Label.Tags

Tags of a graph element. Some stores return several tags of a vertex as one tag `a::b`, so tags are
cut at `::` before they are compared; a `TagSet` holds what is left, sorted and without repetition.
-/

namespace GraphExport

/-- The pieces of a tag between the occurrences of `::`, found from the left. -/
def cutTag : List Char → List (List Char)
  | [] => [[]]
  | ':' :: ':' :: rest => [] :: cutTag rest
  | c :: rest =>
    match cutTag rest with
    | [] => [[c]]
    | piece :: pieces => (c :: piece) :: pieces

/-- The text holds `::`. -/
def hasSeparator : List Char → Bool
  | [] => false
  | ':' :: ':' :: _ => true
  | _ :: rest => hasSeparator rest

theorem cutTag_ne_nil (s : List Char) : cutTag s ≠ [] := by
  fun_induction cutTag s <;> simp_all

/-- The first piece starts as the text does, or it is empty. -/
theorem head_of_cutTag {s piece : List Char} {pieces : List (List Char)}
    (h : cutTag s = piece :: pieces) : piece = [] ∨ piece.head? = s.head? := by
  fun_cases cutTag s with
  | case1 => simp [cutTag] at h; exact .inl h.1
  | case2 rest => simp [cutTag] at h; exact .inl h.1
  | case3 c rest hc hnil => exact absurd hnil (cutTag_ne_nil rest)
  | case4 c rest hc p ps hp =>
    rw [cutTag.eq_3 _ _ hc, hp] at h
    simp only [List.cons.injEq] at h
    exact .inr (by rw [← h.1]; rfl)

theorem hasSeparator_cons_of_ne {c : Char} {s : List Char} (hs : hasSeparator s = false)
    (h : c = ':' → s.head? ≠ some ':') : hasSeparator (c :: s) = false := by
  rw [hasSeparator.eq_3]
  · exact hs
  · intro rest hc hrest
    exact h hc (by rw [hrest]; rfl)

/-- No piece of a tag can be cut again. -/
theorem hasSeparator_of_mem_cutTag {s piece : List Char} (h : piece ∈ cutTag s) :
    hasSeparator piece = false := by
  fun_induction cutTag s generalizing piece with
  | case1 => simp_all [hasSeparator]
  | case2 rest ih =>
    rcases List.mem_cons.1 h with rfl | h
    · rfl
    · exact ih h
  | case3 c rest hc hnil => exact absurd hnil (cutTag_ne_nil rest)
  | case4 c rest hc p ps hp ih =>
    rcases List.mem_cons.1 h with rfl | h
    · refine hasSeparator_cons_of_ne (ih (by rw [hp]; exact List.mem_cons_self)) fun hcolon => ?_
      rcases head_of_cutTag hp with rfl | hhead
      · simp
      · rw [hhead]
        cases rest with
        | nil => simp
        | cons d rest =>
          intro hd
          simp only [List.head?_cons, Option.some.injEq] at hd
          subst hcolon hd
          exact hc rest rfl rfl
    · exact ih (by rw [hp]; exact List.mem_cons_of_mem _ h)

/-- A tag that stands for itself: it is not empty and cannot be cut. -/
def IsTag (t : String) : Prop := t ≠ "" ∧ hasSeparator t.toList = false

instance (t : String) : Decidable (IsTag t) := by unfold IsTag; infer_instance

/-- The tags that a list of written tags stands for, in the order written. -/
def writtenTags (written : List String) : List String :=
  (written.flatMap fun s => (cutTag s.toList).map String.ofList).filter (· != "")

theorem isTag_of_mem_writtenTags {written : List String} {t : String}
    (h : t ∈ writtenTags written) : IsTag t := by
  simp only [writtenTags, List.mem_filter, List.mem_flatMap, List.mem_map, bne_iff_ne] at h
  obtain ⟨⟨s, _, piece, hp, rfl⟩, hne⟩ := h
  exact ⟨hne, by simpa using hasSeparator_of_mem_cutTag hp⟩

/-- Puts a tag in its place unless it is there already. -/
def insertTag (t : String) : List String → List String
  | [] => [t]
  | u :: rest =>
    if t < u then t :: u :: rest else if t = u then u :: rest else u :: insertTag t rest

theorem mem_insertTag {t x : String} {l : List String} : x ∈ insertTag t l ↔ x = t ∨ x ∈ l := by
  induction l with
  | nil => simp [insertTag]
  | cons u rest ih =>
    simp only [insertTag]
    split
    · simp
    · split
      · subst_vars; simp
      · simp [ih, or_left_comm]

theorem pairwise_insertTag {t : String} {l : List String} (h : l.Pairwise (· < ·)) :
    (insertTag t l).Pairwise (· < ·) := by
  induction l with
  | nil => simp [insertTag]
  | cons u rest ih =>
    have ⟨hu, hrest⟩ := List.pairwise_cons.1 h
    simp only [insertTag]
    split
    · rename_i hlt
      refine List.pairwise_cons.2 ⟨fun x hx => ?_, h⟩
      rcases List.mem_cons.1 hx with rfl | hx
      · exact hlt
      · exact String.lt_trans hlt (hu x hx)
    · rename_i hge
      split
      · exact h
      · rename_i hne
        refine List.pairwise_cons.2 ⟨fun x hx => ?_, ih hrest⟩
        rcases mem_insertTag.1 hx with rfl | hx
        · exact Std.lt_of_le_of_ne (String.not_lt.1 hge) fun e => hne e.symm
        · exact hu x hx

/-- Looks a tag up in an increasing list by halves. The first tag of the second half tells which
half the tag may be in. -/
@[semireducible] def findTag (t : String) (l : List String) : Bool :=
  if l.length ≤ 1 then l = [t]
  else if (l.drop (l.length / 2)).head?.any (t < ·) then findTag t (l.take (l.length / 2))
  else findTag t (l.drop (l.length / 2))
termination_by l.length
decreasing_by
  · simp only [List.length_take]
    omega
  · simp only [List.length_drop]
    omega

/-- Where an increasing list is cut in two, the first tag of the second part tells which part a tag
may be in. -/
theorem mem_iff_of_cut {t : String} {l : List String} (h : l.Pairwise (· < ·)) {i : Nat}
    (hi : i < l.length) :
    t ∈ l ↔ if (l.drop i).head?.any (t < ·) then t ∈ l.take i else t ∈ l.drop i := by
  obtain ⟨u, rest, hdrop⟩ : ∃ u rest, l.drop i = u :: rest :=
    List.exists_cons_of_length_pos (by simp only [List.length_drop]; omega)
  have hsplit : l = l.take i ++ u :: rest := by rw [← hdrop, List.take_append_drop]
  rw [hsplit] at h
  obtain ⟨-, hlater, hapart⟩ := List.pairwise_append.1 h
  have hmem : t ∈ l ↔ t ∈ l.take i ∨ t ∈ u :: rest := by
    rw [← List.mem_append, ← hsplit]
  rw [hmem, hdrop]
  simp only [List.head?_cons, Option.any_some, decide_eq_true_eq]
  split
  · rename_i hlt
    refine or_iff_left fun hmem => ?_
    rcases List.mem_cons.1 hmem with rfl | hmem
    · exact String.lt_irrefl t hlt
    · exact String.lt_asymm hlt ((List.pairwise_cons.1 hlater).1 t hmem)
  · rename_i hge
    exact or_iff_right fun hmem => hge (hapart t hmem u List.mem_cons_self)

/-- In an increasing list a tag is found exactly if it is there. -/
theorem findTag_iff {t : String} {l : List String} (h : l.Pairwise (· < ·)) :
    findTag t l = true ↔ t ∈ l := by
  fun_induction findTag t l with
  | case1 l hshort =>
    match l, hshort with
    | [], _ => simp
    | [u], _ => simp [eq_comm]
  | case2 l hlong hbefore ih =>
    rw [ih h.take, mem_iff_of_cut h (by omega : l.length / 2 < l.length), if_pos hbefore]
  | case3 l hlong hbefore ih =>
    rw [ih h.drop, mem_iff_of_cut h (by omega : l.length / 2 < l.length), if_neg hbefore]

/-- A set of tags, listed in increasing order. -/
structure TagSet where
  tags : List String
  increasing : tags.Pairwise (· < ·)
  areTags : ∀ t ∈ tags, IsTag t

namespace TagSet

theorem ext_tags {a b : TagSet} (h : a.tags = b.tags) : a = b := by
  cases a; cases b; cases h; rfl

instance : DecidableEq TagSet := fun a b =>
  decidable_of_iff (a.tags = b.tags) ⟨ext_tags, fun h => h ▸ rfl⟩

def empty : TagSet := ⟨[], List.Pairwise.nil, by simp⟩

instance : EmptyCollection TagSet := ⟨empty⟩
instance : Inhabited TagSet := ⟨empty⟩

theorem mem_foldr_insertTag {x : String} {l : List String} :
    x ∈ l.foldr insertTag [] ↔ x ∈ l := by
  induction l with
  | nil => simp
  | cons t rest ih => simp [mem_insertTag, ih]

theorem pairwise_foldr_insertTag (l : List String) :
    (l.foldr insertTag []).Pairwise (· < ·) := by
  induction l with
  | nil => simp
  | cons t rest ih => exact pairwise_insertTag ih

/-- The set of tags that a list of written tags stands for. -/
def ofList (written : List String) : TagSet where
  tags := (writtenTags written).foldr insertTag []
  increasing := pairwise_foldr_insertTag _
  areTags := fun _ h => isTag_of_mem_writtenTags (mem_foldr_insertTag.1 h)

theorem mem_ofList {written : List String} {t : String} :
    t ∈ (ofList written).tags ↔ t ∈ writtenTags written := mem_foldr_insertTag

def isEmpty (s : TagSet) : Bool := s.tags.isEmpty

/-- Every tag of the one set is found in the other. -/
def subset (a b : TagSet) : Bool := a.tags.all fun t => findTag t b.tags

theorem subset_iff {a b : TagSet} : a.subset b = true ↔ a.tags ⊆ b.tags := by
  simp only [subset, List.all_eq_true, findTag_iff b.increasing]
  rfl

/-- The tags as one text, with `;` between them. -/
def text (s : TagSet) : String := ";".intercalate s.tags

instance : Ord TagSet := ⟨compareOn (·.tags)⟩

instance : Std.TransOrd TagSet :=
  inferInstanceAs (Std.TransCmp (compareOn fun s : TagSet => s.tags))

instance : Std.LawfulEqOrd TagSet where
  compare_self {s} := (Std.ReflCmp.compare_self : compare s.tags s.tags = .eq)
  eq_of_compare h := ext_tags (Std.LawfulEqOrd.eq_of_compare h)

end TagSet

end GraphExport
