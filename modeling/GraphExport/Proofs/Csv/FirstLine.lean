import Mathlib.Logic.Basic
import GraphExport.Proofs.Csv.RoundTrip

/-!
# GraphExport.Proofs.Csv.FirstLine

Where a text is cut at its first line feed, which may be inside a quoted field.

* `Csv.throughFirst_line_iff`: the line of a record ends at its first line feed if and only if no
  field holds one.
* `Csv.exists_remnant`: otherwise the rest of the line begins inside a quoted field.
* `Csv.records_rest_of_line`: the reader makes records of that rest, and then reads the rows after
  it, but for a byte order mark that the first of them may begin with.
-/

namespace GraphExport.Csv

/-! ## Records on one line -/

theorem throughFirst_eq_self_iff {stop : Char} {s : List Char} :
    (Text.throughFirst stop s).1 = s ↔ stop ∉ s.dropLast := by
  induction s with
  | nil => simp [Text.throughFirst]
  | cons c rest ih =>
    cases rest with
    | nil =>
      unfold Text.throughFirst
      split <;> simp [Text.throughFirst]
    | cons c' more =>
      unfold Text.throughFirst
      rw [List.dropLast_cons_cons, List.mem_cons, not_or]
      split
      · rename_i hc
        simp [hc]
      · rename_i hc
        rw [List.cons.injEq, ih]
        simp [Ne.symm hc]

theorem throughFirst_throughFirst (stop : Char) (s : List Char) :
    (Text.throughFirst stop (Text.throughFirst stop s).1).1 = (Text.throughFirst stop s).1 := by
  induction s with
  | nil => rfl
  | cons c rest ih =>
    rw [Text.throughFirst]
    split
    · rename_i hc
      simp [Text.throughFirst, hc]
    · rename_i hc
      rw [Text.throughFirst, if_neg hc, ih]

theorem lineFeed_mem_doubleQuotes {s : List Char} : '\n' ∈ doubleQuotes s ↔ '\n' ∈ s := by
  rw [doubleQuotes, List.mem_flatMap]
  constructor
  · rintro ⟨c, hc, hmem⟩
    split at hmem
    · simp at hmem
    · rwa [List.mem_singleton.1 hmem]
  · exact fun h => ⟨'\n', h, by decide⟩

theorem lineFeed_mem_field {s : List Char} : '\n' ∈ field s ↔ '\n' ∈ s := by
  unfold field
  split
  · simp [lineFeed_mem_doubleQuotes]
  · exact Iff.rfl

theorem lineFeed_mem_fields {cells : List (List Char)} :
    '\n' ∈ fields cells ↔ ∃ s ∈ cells, '\n' ∈ s := by
  induction cells with
  | nil => simp [fields]
  | cons s rest ih =>
    cases rest with
    | nil => simp [fields, lineFeed_mem_field]
    | cons t more =>
      have hfields : fields (s :: t :: more) = field s ++ ',' :: fields (t :: more) := rfl
      rw [hfields, List.mem_append, List.mem_cons, ih, lineFeed_mem_field]
      simp

/-- The line of a record ends at its first line feed if and only if no field holds one. -/
theorem throughFirst_line_iff {record : List String} :
    (Text.throughFirst '\n' (line record).toList).1 = (line record).toList ↔
      ∀ s ∈ record, '\n' ∉ s.toList := by
  have hfields : '\n' ∈ fields (record.map String.toList) ↔ ∃ s ∈ record, '\n' ∈ s.toList := by
    simp [lineFeed_mem_fields]
  rw [throughFirst_eq_self_iff]
  by_cases hf : fields (record.map String.toList) = []
  · rw [hf] at hfields
    rw [(line_of_fields_eq_nil hf).1]
    simpa using hfields
  · rw [toList_line hf, List.dropLast_concat, hfields]
    simp

/-! ## The rest of a line -/

theorem throughFirst_of_not_mem {stop : Char} {s : List Char} (h : stop ∉ s) (t : List Char) :
    Text.throughFirst stop (s ++ t) =
      (s ++ (Text.throughFirst stop t).1, (Text.throughFirst stop t).2) := by
  induction s with
  | nil => rfl
  | cons c rest ih =>
    rw [List.mem_cons, not_or] at h
    rw [List.cons_append, Text.throughFirst, if_neg (Ne.symm h.1), ih h.2]
    rfl

theorem doubleQuotes_cons (c : Char) (s : List Char) :
    doubleQuotes (c :: s) = (if c = '"' then ['"', '"'] else [c]) ++ doubleQuotes s := rfl

theorem throughFirst_doubleQuotes (s : List Char) :
    (Text.throughFirst '\n' (doubleQuotes s)).2 = doubleQuotes (Text.throughFirst '\n' s).2 := by
  induction s with
  | nil => rfl
  | cons c rest ih =>
    rw [doubleQuotes_cons]
    by_cases hc : c = '\n'
    · subst hc
      rfl
    · have hnot : '\n' ∉ (if c = '"' then ['"', '"'] else [c]) := by
        split <;> simp [Ne.symm hc]
      rw [throughFirst_of_not_mem hnot, ih, Text.throughFirst, if_neg hc]

/-- The last character of a field needs no quotes, and is no byte order mark. -/
def EndsPlain (s : List Char) : Prop :=
  ∃ l z, s = l ++ [z] ∧ isSpecial z = false ∧ z ≠ '\uFEFF'

/-- The fields after the first one. -/
def moreFields : List (List Char) → List Char
  | [] => []
  | s :: rest => ',' :: fields (s :: rest)

theorem fields_cons (s : List Char) (rest : List (List Char)) :
    fields (s :: rest) = field s ++ moreFields rest := by
  cases rest with
  | nil => exact (List.append_nil _).symm
  | cons t more => rfl

/-- The end of a quoted field, the fields after it, and the end of the line. -/
def remnant (l : List Char) (z : Char) (rest : List (List Char)) : List Char :=
  doubleQuotes l ++ z :: '"' :: (moreFields rest ++ ['\n'])

/-- A line with a line feed in a field is cut inside a quoted one. -/
theorem exists_remnant {cells : List (List Char)} (h : ∃ s ∈ cells, '\n' ∈ s)
    (hends : ∀ s ∈ cells, '\n' ∈ s → EndsPlain s) :
    ∃ l z rest, isSpecial z = false ∧ z ≠ '\uFEFF' ∧
      (Text.throughFirst '\n' (fields cells ++ ['\n'])).2 = remnant l z rest := by
  induction cells with
  | nil => simp at h
  | cons s rest ih =>
    by_cases hs : '\n' ∈ s
    · obtain ⟨l, z, rfl, hz, hmark⟩ := hends s List.mem_cons_self hs
      have hl : '\n' ∈ l := by
        rcases List.mem_append.1 hs with hl | hl
        · exact hl
        · rw [← List.mem_singleton.1 hl] at hz
          cases hz
      have hquoted : needsQuotes (l ++ [z]) = true :=
        List.any_eq_true.2 ⟨'\n', hs, by decide⟩
      have hlast : doubleQuotes (l ++ [z]) = doubleQuotes l ++ [z] := by
        have hquote : z ≠ '"' := by
          rintro rfl
          cases hz
        rw [doubleQuotes, List.flatMap_append, List.flatMap_singleton, if_neg hquote]
        rfl
      refine ⟨(Text.throughFirst '\n' l).2, z, rest, hz, hmark, ?_⟩
      rw [fields_cons, field, if_pos hquoted, hlast, remnant, ← throughFirst_doubleQuotes,
        List.cons_append, List.cons_append, Text.throughFirst, if_neg (by decide),
        List.append_assoc, List.append_assoc, List.append_assoc,
        throughFirst_of_mem (lineFeed_mem_doubleQuotes.2 hl)]
      rfl
    · have hrest : ∃ s' ∈ rest, '\n' ∈ s' := by
        obtain ⟨s', hmem, hs'⟩ := h
        rcases List.mem_cons.1 hmem with rfl | hmem
        · exact absurd hs' hs
        · exact ⟨s', hmem, hs'⟩
      obtain ⟨l, z, more, hz, hmark, hcut⟩ :=
        ih hrest fun s' hs' => hends s' (List.mem_cons_of_mem _ hs')
      refine ⟨l, z, more, hz, hmark, ?_⟩
      cases rest with
      | nil => simp at hrest
      | cons t others =>
        have hcomma : '\n' ∉ field s ++ [','] := by
          simp [lineFeed_mem_field, hs]
        have hsplit : fields (s :: t :: others) ++ ['\n'] =
            (field s ++ [',']) ++ (fields (t :: others) ++ ['\n']) := by
          simp [fields]
        rw [hsplit, throughFirst_of_not_mem hcomma, hcut]

/-- Quotes come in pairs, and after each pair a quoted part may be at its end. -/
theorem readChars_doubleQuotes {state : ReadState} (h : state ≠ .quoted) (r : ReadSoFar)
    (s : List Char) : (readChars state r (doubleQuotes s)).1 ≠ .quoted := by
  induction s generalizing state r with
  | nil => exact h
  | cons c rest ih =>
    rw [doubleQuotes_cons, readChars_append]
    refine ih ?_ _
    by_cases hc : c = '"'
    · subst hc
      rw [if_pos rfl]
      cases state <;> first | exact absurd rfl h | (intro hquoted; cases hquoted)
    · rw [if_neg hc, readChars_cons]
      cases state <;> first
        | exact absurd rfl h
        | (simp only [readChar, if_neg hc, readChars]; (repeat' split) <;> simp)

/-- The rest of a line ends a record, whatever was read before it. -/
theorem readChars_remnant {state : ReadState} (h : state ≠ .quoted) (r : ReadSoFar)
    (l : List Char) {z : Char} (hz : isSpecial z = false) (rest : List (List Char)) :
    ∃ records, readChars state r (remnant l z rest) = (.recordStart, { records }) := by
  have hplain : ∀ {state : ReadState}, state ≠ .quoted → ∀ r, readChar state r z =
      (.plain, r.push z) := by
    intro state hstate r
    simp only [isSpecial, Bool.or_eq_false_iff, decide_eq_false_iff_not] at hz
    obtain ⟨⟨⟨hcomma, hquote⟩, hlf⟩, hcr⟩ := hz
    cases state <;> first
      | exact absurd rfl hstate
      | simp [readChar, isLineEnd, hcomma, hquote, hlf, hcr]
  have hquote : ∀ r : ReadSoFar, readChar .plain r '"' = (.plain, r.push '"') := fun _ => rfl
  rw [remnant, readChars_append, readChars_cons, hplain (readChars_doubleQuotes h r l),
    readChars_cons, hquote]
  cases rest with
  | nil => exact ⟨_, rfl⟩
  | cons s more =>
    rw [moreFields, List.cons_append, readChars_cons]
    exact ⟨_, readChars_fields (.inr rfl) rfl (List.cons_ne_nil s more) (.inl rfl)⟩

theorem dropMark_remnant (l : List Char) {z : Char} (hz : z ≠ '\uFEFF')
    (rest : List (List Char)) :
    ∃ l', ∀ t, dropMark (remnant l z rest ++ t) = remnant l' z rest ++ t := by
  cases l with
  | nil => exact ⟨[], fun t => dropMark_of_not (decide_eq_false fun h => hz (Option.some.inj h))⟩
  | cons c l =>
    by_cases hc : c = '\uFEFF'
    · subst hc
      exact ⟨l, fun t => rfl⟩
    · refine ⟨c :: l, fun t => dropMark_of_not (decide_eq_false ?_)⟩
      rw [remnant, doubleQuotes_cons]
      split
      · simp
      · simpa using hc

theorem map_normal {rows : List (List String)} (h : ∀ row ∈ rows, 2 ≤ row.length) :
    rows.map normal = rows := by
  refine (List.map_congr_left fun row hrow => normal_of_ne_nil ?_).trans (List.map_id _)
  exact List.ne_nil_of_length_pos (Nat.lt_of_lt_of_le Nat.zero_lt_two (h row hrow))

/-- What is read after the first line feed of a record's line, where rows come after it. Each row
has its cells after the first one. -/
theorem records_rest_of_line {record : List String}
    (hends : ∀ s ∈ record, '\n' ∈ s.toList → EndsPlain s.toList) {rows : List (List String)}
    (hrows : ∀ row ∈ rows, 2 ≤ row.length) :
    ∃ extra rows', records ((Text.throughFirst '\n' (line record).toList).2 ++
        (String.join (rows.map line)).toList) = extra ++ rows' ∧
      ((∀ s ∈ record, '\n' ∉ s.toList) → extra = []) ∧
      rows'.map List.tail = rows.map List.tail := by
  have hnormal := map_normal hrows
  by_cases hline : ∀ s ∈ record, '\n' ∉ s.toList
  · have hsplit := throughFirst_append_snd '\n' (line record).toList
    rw [throughFirst_line_iff.2 hline, List.append_right_eq_self] at hsplit
    rw [hsplit, List.nil_append]
    cases rows with
    | nil => exact ⟨[], [], rfl, fun _ => rfl, rfl⟩
    | cons row rest =>
      refine ⟨[], ?_⟩
      by_cases hmark : startsWithMark (line row).toList = true
      · obtain ⟨s, cells, rfl, hread⟩ := records_marked_lines hmark rest
        have hcells : cells ≠ [] := by
          rintro rfl
          exact absurd (hrows _ List.mem_cons_self) (by simp)
        rw [List.map_cons, List.cons.injEq] at hnormal
        rw [if_neg fun hempty => hcells hempty.2, hnormal.2] at hread
        exact ⟨_, hread, fun _ => rfl, rfl⟩
      · have hfirst : startsWithMark (String.join ((row :: rest).map line)).toList = false := by
          rw [startsWithMark_lines]
          simpa using hmark
        have hread := records_lines hfirst
        rw [hnormal] at hread
        exact ⟨_, hread, fun _ => rfl, rfl⟩
  · have hfeed : ∃ s ∈ record.map String.toList, '\n' ∈ s := by
      simpa using hline
    have hf : fields (record.map String.toList) ≠ [] := by
      intro hempty
      have hmem := lineFeed_mem_fields.2 hfeed
      rw [hempty] at hmem
      cases hmem
    obtain ⟨l, z, rest, hz, hmark, hcut⟩ := exists_remnant hfeed (by simpa using hends)
    obtain ⟨l', hdrop⟩ := dropMark_remnant l hmark rest
    have hstart : ReadState.recordStart ≠ .quoted := by decide
    obtain ⟨torn, htorn⟩ := readChars_remnant hstart {} l' hz rest
    refine ⟨torn.reverse, rows, ?_, fun h => absurd h hline, rfl⟩
    rw [toList_line hf, hcut, records, hdrop, readChars_append, htorn]
    simp only
    rw [readChars_lines, hnormal]
    simp

end GraphExport.Csv
