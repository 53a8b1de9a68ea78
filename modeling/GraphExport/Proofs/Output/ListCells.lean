import Mathlib.Data.List.Induction
import GraphExport.Output.Line
import GraphExport.Proofs.Text.Cut

/-!
# GraphExport.Proofs.Output.ListCells

Reading lists off cells. A cell is cut at each separator that has no backslash right before it, and
then the marks are taken off the other separators.

* `splitCell`: the reader. `separable_splitCell`: only the last string that it reads can end in a
  backslash.
* `splitCell_cell_strings`: a list of strings that are apart so is read off its cell.
* `list_cell_decodable`: these are all the lists that are read off their cells, and they have cells
  of their own.
* `splitCell_of_unmarked`: a text without backslashes is cut at each separator.
-/

namespace GraphExport

def endsInMark (s : List Char) : Bool := s.getLast? = some '\\'

/-- Cuts a text at each separator that has no backslash right before it, where `piece` is the piece
so far. -/
def cutCell (piece : List Char) : List Char → List (List Char)
  | [] => [piece]
  | c :: rest =>
    if c = ';' && !endsInMark piece then piece :: cutCell [] rest else cutCell (piece ++ [c]) rest

/-- Takes the marks off separators. -/
def unmark : List Char → List Char
  | [] => []
  | [c] => [c]
  | c :: d :: rest => if c = '\\' && d = ';' then ';' :: unmark rest else c :: unmark (d :: rest)

/-- The strings that a cell stands for where its column has lists. -/
def splitCell (text : String) : List String :=
  (cutCell [] text.toList).map fun piece => String.ofList (unmark piece)

/-- No string but the last one ends in a backslash. -/
def Separable (l : List String) : Prop := ∀ s ∈ l.dropLast, endsInMark s.toList = false

instance (l : List String) : Decidable (Separable l) :=
  inferInstanceAs (Decidable (∀ s ∈ l.dropLast, endsInMark s.toList = false))

/-! ## Marks -/

@[simp] theorem markSeparators_nil : markSeparators [] = [] := rfl

theorem markSeparators_cons (c : Char) (s : List Char) :
    markSeparators (c :: s) = (if c = ';' then ['\\', ';'] else [c]) ++ markSeparators s := rfl

theorem endsInMark_concat (s : List Char) (c : Char) :
    endsInMark (s ++ [c]) = decide (c = '\\') := by
  simp [endsInMark]

theorem endsInMark_markSeparators (s : List Char) :
    endsInMark (markSeparators s) = endsInMark s := by
  induction s using List.reverseRecOn with
  | nil => rfl
  | append_singleton s c _ =>
    rw [markSeparators, List.flatMap_append, List.flatMap_singleton, endsInMark_concat]
    by_cases hc : c = ';'
    · subst hc
      rw [if_pos rfl]
      simp [endsInMark]
    · rw [if_neg hc, endsInMark_concat]

/-- A text with its separators marked does not begin with one. -/
theorem head?_markSeparators (s : List Char) : (markSeparators s).head? ≠ some ';' := by
  cases s with
  | nil => simp
  | cons c s =>
    rw [markSeparators_cons]
    by_cases hc : c = ';' <;> simp [hc]

theorem unmark_cons {c : Char} {s : List Char} (h : c = '\\' → s.head? ≠ some ';') :
    unmark (c :: s) = c :: unmark s := by
  cases s with
  | nil => rfl
  | cons d s =>
    rw [unmark, if_neg]
    rintro hmark
    simp only [Bool.and_eq_true, decide_eq_true_eq] at hmark
    exact h hmark.1 (by rw [hmark.2]; rfl)

theorem unmark_markSeparators (s : List Char) : unmark (markSeparators s) = s := by
  induction s with
  | nil => rfl
  | cons c s ih =>
    rw [markSeparators_cons]
    by_cases hc : c = ';'
    · subst hc
      rw [if_pos rfl]
      exact congrArg (';' :: ·) ih
    · rw [if_neg hc, List.singleton_append, unmark_cons fun _ => head?_markSeparators s, ih]

/-- Taking marks off leaves the last character as it is. -/
theorem getLast?_unmark (s : List Char) : (unmark s).getLast? = s.getLast? := by
  induction s using unmark.induct with
  | case1 => rfl
  | case2 => rfl
  | case3 c d rest h ih =>
    simp only [Bool.and_eq_true, decide_eq_true_eq] at h
    obtain ⟨rfl, rfl⟩ := h
    rw [unmark, if_pos (by decide), List.getLast?_cons, List.getLast?_cons, List.getLast?_cons, ih]
    rfl
  | case4 c d rest h ih =>
    rw [unmark, if_neg h, List.getLast?_cons, List.getLast?_cons (a := c), ih]

/-! ## Pieces -/

theorem cutCell_ne_nil (piece s : List Char) : cutCell piece s ≠ [] := by
  induction s generalizing piece with
  | nil => exact List.cons_ne_nil _ _
  | cons c rest ih =>
    rw [cutCell]
    split
    · exact List.cons_ne_nil _ _
    · exact ih _

/-- A text with its separators marked stays in one piece. -/
theorem cutCell_markSeparators (piece s rest : List Char) :
    cutCell piece (markSeparators s ++ rest) = cutCell (piece ++ markSeparators s) rest := by
  induction s generalizing piece with
  | nil => rw [markSeparators_nil, List.nil_append, List.append_nil]
  | cons c s ih =>
    rw [markSeparators_cons]
    by_cases hc : c = ';'
    · subst hc
      rw [if_pos rfl, List.append_assoc, List.cons_append, List.singleton_append, cutCell,
        if_neg (by simp), cutCell, if_neg (by simp [endsInMark_concat]), ih]
      simp
    · rw [if_neg hc, List.singleton_append, List.cons_append, cutCell, if_neg (by simp [hc]), ih]
      simp

/-- A separator cuts off what comes before it, unless that ends in a backslash. -/
theorem cutCell_separator {piece : List Char} (h : endsInMark piece = false) (rest : List Char) :
    cutCell piece (';' :: rest) = piece :: cutCell [] rest := by
  rw [cutCell, if_pos (by simp [h])]

theorem cutCell_glue {l : List String} (hne : l ≠ []) (hsep : Separable l) :
    cutCell [] (Text.glue [';'] (l.map fun s => markSeparators s.toList)) =
      l.map fun s => markSeparators s.toList := by
  induction l with
  | nil => exact absurd rfl hne
  | cons s rest ih =>
    cases rest with
    | nil =>
      have hpiece := cutCell_markSeparators [] s.toList []
      rw [List.append_nil] at hpiece
      exact hpiece
    | cons t rest =>
      obtain ⟨hfirst, hrest⟩ := List.forall_mem_cons.1 hsep
      rw [← endsInMark_markSeparators] at hfirst
      have ih := ih (List.cons_ne_nil _ _) hrest
      rw [List.map_cons] at ih ⊢
      rw [List.map_cons, Text.glue, List.append_assoc, cutCell_markSeparators, List.nil_append,
        List.singleton_append, cutCell_separator hfirst, ih]
      exact List.cons_ne_nil _ _

/-- No piece but the last one ends in a backslash. -/
theorem endsInMark_of_mem_cutCell (piece s : List Char) :
    ∀ p ∈ (cutCell piece s).dropLast, endsInMark p = false := by
  induction s generalizing piece with
  | nil =>
    intro p hp
    cases hp
  | cons c rest ih =>
    rw [cutCell]
    split
    · rename_i h
      rw [List.dropLast_cons_of_ne_nil (cutCell_ne_nil _ _)]
      refine List.forall_mem_cons.2 ⟨?_, ih []⟩
      simpa using (Bool.and_eq_true_iff.1 h).2
    · exact ih _

theorem endsInMark_of_unmarked {s : List Char} (h : '\\' ∉ s) : endsInMark s = false := by
  refine decide_eq_false fun hlast => h (List.mem_of_getLast? hlast)

/-- Where there are no backslashes every separator cuts. -/
theorem cutCell_of_unmarked {piece s : List Char} (hpiece : '\\' ∉ piece) (hs : '\\' ∉ s) :
    cutCell piece s = (Text.cutAt ';' s).modifyHead (piece ++ ·) := by
  induction s generalizing piece with
  | nil => simp [cutCell, Text.cutAt]
  | cons c rest ih =>
    rw [List.mem_cons, not_or] at hs
    by_cases hc : c = ';'
    · subst hc
      have hrest : cutCell [] rest = Text.cutAt ';' rest :=
        (ih List.not_mem_nil hs.2).trans (congrFun List.modifyHead_id _)
      rw [cutCell_separator (endsInMark_of_unmarked hpiece), hrest, Text.cutAt, if_pos rfl,
        List.modifyHead_cons, List.append_nil]
    · rw [cutCell, if_neg (by simp [hc]), ih (by simp [hpiece, hs.1]) hs.2,
        Text.cutAt_cons_of_ne hc, List.modifyHead_modifyHead]
      simp [Function.comp_def]

theorem unmark_of_unmarked {s : List Char} (h : '\\' ∉ s) : unmark s = s := by
  induction s with
  | nil => rfl
  | cons c s ih =>
    rw [List.mem_cons, not_or] at h
    rw [unmark_cons fun hc => absurd hc.symm h.1, ih h.2]

/-! ## Lists -/

theorem separable_splitCell (text : String) : Separable (splitCell text) := by
  intro s hs
  rw [splitCell, ← List.map_dropLast] at hs
  obtain ⟨p, hp, rfl⟩ := List.mem_map.1 hs
  rw [String.toList_ofList, endsInMark, getLast?_unmark]
  exact endsInMark_of_mem_cutCell _ _ p hp

theorem cell_strings (l : List String) : cell (.strings l) = joinCell l := by
  have hplain : (l.map Json.str).map Json.plain = l := by
    rw [List.map_map]
    exact List.map_id l
  rw [Json.strings, cell, hplain]

/-- A list is read off its cell if no string but the last one ends in a backslash. -/
theorem splitCell_cell_strings {l : List String} (hne : l ≠ []) (hsep : Separable l) :
    splitCell (cell (.strings l)) = l := by
  rw [cell_strings, splitCell, joinCell, String.toList_ofList, cutCell_glue hne hsep, List.map_map]
  refine (List.map_congr_left fun s _ => ?_).trans (List.map_id l)
  rw [Function.comp_apply, unmark_markSeparators, String.ofList_toList]
  rfl

/-- List cells are decodable. The lists that are read off any text at all are those in which no
string but the last one ends in a backslash; each of them is read off its cell, so that no two of
them have the same cell. -/
theorem list_cell_decodable {l : List String} (hne : l ≠ []) :
    (splitCell (cell (.strings l)) = l ↔ Separable l) ∧
      ((∃ text, splitCell text = l) ↔ Separable l) ∧
      ∀ l' : List String, l' ≠ [] → Separable l → Separable l' →
        cell (.strings l) = cell (.strings l') → l = l' := by
  have hread : Separable l → splitCell (cell (.strings l)) = l := splitCell_cell_strings hne
  refine ⟨⟨fun h => h ▸ separable_splitCell _, hread⟩,
    ⟨fun ⟨text, h⟩ => h ▸ separable_splitCell text, fun hsep => ⟨_, hread hsep⟩⟩,
    fun l' hne' hsep hsep' hcell => ?_⟩
  rw [← hread hsep, hcell, splitCell_cell_strings hne' hsep']

/-- A separator inside a string and a backslash at the end of the last one. -/
theorem list_cell_decodable_marked :
    let l := ["a;b", "", "\\;", "c\\"]
    l ≠ [] ∧ cell (.strings l) = "a\\;b;;\\\\;;c\\" ∧ splitCell (cell (.strings l)) = l := by
  refine ⟨by decide, by decide, ?_⟩
  exact (list_cell_decodable (by decide)).1.2 (by decide)

/-- A backslash at the end of a string hides the separator after it. -/
theorem list_cell_ambiguous :
    splitCell (cell (.strings ["a\\", "b"])) = ["a;b"] ∧
      cell (.strings ["a\\", "b"]) = cell (.strings ["a;b"]) ∧ ["a\\", "b"] ≠ ["a;b"] := by
  decide

/-! ## Other texts -/

/-- A text without backslashes is cut at each separator. -/
theorem splitCell_of_unmarked {text : String} (h : '\\' ∉ text.toList) :
    splitCell text = Text.pieces ';' text := by
  have hpieces : ∀ p ∈ Text.cutAt ';' text.toList, unmark p = p := fun p hp =>
    unmark_of_unmarked fun hmem => h (Text.mem_of_mem_cutAt hp hmem)
  have hcut : cutCell [] text.toList = Text.cutAt ';' text.toList := by
    rw [cutCell_of_unmarked List.not_mem_nil h]
    exact congrFun List.modifyHead_id _
  rw [splitCell, hcut, Text.pieces]
  exact List.map_congr_left fun p hp => by rw [hpieces p hp]

/-- A text without backslashes and separators stands for itself. -/
theorem splitCell_eq_singleton {text : String} (h : '\\' ∉ text.toList) :
    splitCell text = [text] ↔ ';' ∉ text.toList := by
  rw [splitCell_of_unmarked h, Text.pieces]
  constructor
  · intro hsplit
    have hlength := congrArg List.length hsplit
    rw [List.length_map, Text.length_cutAt, List.length_singleton] at hlength
    exact List.count_eq_zero.1 (Nat.succ.inj hlength)
  · intro hnot
    rw [Text.cutAt_of_not_mem hnot, List.map_singleton, String.ofList_toList]

end GraphExport
