import GraphExport.Csv
import GraphExport.Text.Cut

/-!
# GraphExport.Proofs.Csv.RoundTrip

What the reader makes of the lines that the writer wrote.

* `Csv.readChars_line`: from the start of a record, the line of a record is read as that record. A
  record without fields comes back with the one empty field that its line has.
* `Csv.records_lines`, `Csv.records_marked_lines`: the records of a text of lines. A byte order mark
  that the first line begins with is lost.
* `Csv.normal_eq_of_header`: two lines are of the same record where the text up to the first line
  feed of one of them is the other. A line feed inside a quoted field does not matter here.
-/

namespace GraphExport.Csv

/-! ## Reading on -/

theorem readChars_cons (state : ReadState) (r : ReadSoFar) (c : Char) (s : List Char) :
    readChars state r (c :: s) = readChars (readChar state r c).1 (readChar state r c).2 s := rfl

theorem readChars_append (state : ReadState) (r : ReadSoFar) (s t : List Char) :
    readChars state r (s ++ t) =
      readChars (readChars state r s).1 (readChars state r s).2 t := by
  induction s generalizing state r with
  | nil => rfl
  | cons c rest ih => rw [List.cons_append, readChars_cons, readChars_cons, ih]

theorem suffix_readChar (state : ReadState) (r : ReadSoFar) (c : Char) :
    r.records <:+ (readChar state r c).2.records := by
  cases state <;> simp only [readChar] <;> (repeat' split) <;>
    simp [ReadSoFar.push, ReadSoFar.endField, ReadSoFar.endRecord]

theorem suffix_readChars (state : ReadState) (r : ReadSoFar) (s : List Char) :
    r.records <:+ (readChars state r s).2.records := by
  induction s generalizing state r with
  | nil => exact List.suffix_refl _
  | cons c rest ih => exact (suffix_readChar state r c).trans (ih _ _)

/-! ## Fields -/

def isSpecial (c : Char) : Bool := c = ',' || c = '"' || c = '\n' || c = '\r'

theorem needsQuotes_cons (c : Char) (s : List Char) :
    needsQuotes (c :: s) = (isSpecial c || needsQuotes s) := rfl

theorem readChars_plain (r : ReadSoFar) {s : List Char} (h : needsQuotes s = false) :
    readChars .plain r s = (.plain, { r with chars := s.reverse ++ r.chars }) := by
  induction s generalizing r with
  | nil => rfl
  | cons c rest ih =>
    simp only [needsQuotes_cons, isSpecial, Bool.or_eq_false_iff, decide_eq_false_iff_not] at h
    obtain ⟨⟨⟨⟨hcomma, hquote⟩, hlf⟩, hcr⟩, hrest⟩ := h
    simp only [readChars, readChar, isLineEnd, hcomma, hlf, hcr, decide_false, Bool.or_self,
      Bool.false_eq_true, if_false]
    rw [ih _ hrest]
    simp [ReadSoFar.push]

theorem readChars_quoted (r : ReadSoFar) (s : List Char) :
    readChars .quoted r (doubleQuotes s) = (.quoted, { r with chars := s.reverse ++ r.chars }) := by
  induction s generalizing r with
  | nil => rfl
  | cons c rest ih =>
    have hrest : ∀ r, readChars .quoted r (rest.flatMap fun c =>
        if c = '"' then ['"', '"'] else [c])
        = (.quoted, { r with chars := rest.reverse ++ r.chars }) := ih
    rw [doubleQuotes, List.flatMap_cons, readChars_append]
    by_cases hc : c = '"'
    · subst hc
      have : readChars .quoted r ['"', '"'] = (.quoted, r.push '"') := rfl
      rw [if_pos rfl, this, hrest]
      simp [ReadSoFar.push]
    · have : readChars .quoted r [c] = (.quoted, r.push c) := by simp [readChars, readChar, hc]
      rw [if_neg hc, this, hrest]
      simp [ReadSoFar.push]

/-- Where the reader is after a field that it began to read at a place. -/
def afterField (state : ReadState) (s : List Char) : ReadState :=
  if needsQuotes s then .quoteSeen else if s = [] then state else .plain

def IsStart (state : ReadState) : Prop := state = .recordStart ∨ state = .fieldStart

theorem readChars_field {state : ReadState} (hstate : IsStart state) {r : ReadSoFar}
    (hr : r.chars = []) (s : List Char) :
    readChars state r (field s) = (afterField state s, { r with chars := s.reverse }) := by
  by_cases hq : needsQuotes s = true
  · have hopen : readChar state r '"' = (.quoted, r) := by
      rcases hstate with rfl | rfl <;> rfl
    rw [field, if_pos hq, afterField, if_pos hq, readChars, hopen]
    simp only
    rw [readChars_append, readChars_quoted, hr, List.append_nil]
    rfl
  · rw [field, if_neg hq, afterField, if_neg hq]
    cases s with
    | nil =>
      rw [if_pos rfl, readChars, List.reverse_nil, ← hr]
    | cons c rest =>
      have hplain : needsQuotes (c :: rest) = false := by simpa using hq
      have hc := hplain
      simp only [needsQuotes_cons, isSpecial, Bool.or_eq_false_iff, decide_eq_false_iff_not] at hc
      obtain ⟨⟨⟨⟨hcomma, hquote⟩, hlf⟩, hcr⟩, hrest⟩ := hc
      have hfirst : readChar state r c = (.plain, r.push c) := by
        rcases hstate with rfl | rfl <;> simp [readChar, isLineEnd, hcomma, hquote, hlf, hcr]
      rw [if_neg (by simp), readChars, hfirst]
      simp only
      rw [readChars_plain _ hrest]
      simp [ReadSoFar.push, hr]

theorem afterField_comma (state : ReadState) (hstate : IsStart state) (s : List Char)
    (r : ReadSoFar) :
    readChar (afterField state s) r ',' = (.fieldStart, r.endField) := by
  unfold afterField
  split
  · rfl
  · split
    · rcases hstate with rfl | rfl <;> rfl
    · rfl

theorem afterField_lineFeed {state : ReadState} (hstate : IsStart state) {s : List Char}
    (h : state = .fieldStart ∨ s ≠ []) (r : ReadSoFar) :
    readChar (afterField state s) r '\n' = (.recordStart, r.endRecord) := by
  unfold afterField
  split
  · rfl
  · split
    · rename_i hs
      rcases h with rfl | h
      · rfl
      · exact absurd hs h
    · rfl

/-- Fields and the line feed after them, unless that makes an empty line. -/
theorem readChars_fields {state : ReadState} (hstate : IsStart state) {r : ReadSoFar}
    (hr : r.chars = []) {cells : List (List Char)} (hne : cells ≠ [])
    (h : state = .fieldStart ∨ fields cells ≠ []) :
    readChars state r (fields cells ++ ['\n']) =
      (.recordStart,
        { records := (r.fields.reverse ++ cells.map String.ofList) :: r.records }) := by
  induction cells generalizing state r with
  | nil => exact absurd rfl hne
  | cons s rest ih =>
    cases rest with
    | nil =>
      have hs : state = .fieldStart ∨ s ≠ [] := by
        refine h.imp id fun hf e => hf ?_
        subst e
        rfl
      rw [fields, readChars_append, readChars_field hstate hr, readChars]
      simp only
      rw [afterField_lineFeed hstate hs]
      simp [readChars, ReadSoFar.endRecord, ReadSoFar.endField]
    | cons t more =>
      rw [fields, List.append_assoc, readChars_append, readChars_field hstate hr, List.cons_append,
        readChars]
      simp only
      rw [afterField_comma state hstate]
      simp only
      rw [ih (.inr rfl) rfl (by simp) (.inl rfl)]
      simp [ReadSoFar.endField]
      simp

/-! ## Lines -/

/-- The record that the line of a record is read as. -/
def normal (record : List String) : List String := if record = [] then [""] else record

theorem normal_of_ne_nil {record : List String} (h : record ≠ []) : normal record = record :=
  if_neg h

theorem line_normal (record : List String) : line (normal record) = line record := by
  unfold normal
  split
  · rename_i h
    subst h
    rfl
  · rfl

theorem length_normal (record : List String) : (normal record).length = max record.length 1 := by
  unfold normal
  split
  · rename_i h
    subst h
    rfl
  · rename_i h
    have := List.length_pos_iff.2 h
    omega

theorem fields_eq_nil_iff {cells : List (List Char)} :
    fields cells = [] ↔ cells = [] ∨ cells = [[]] := by
  have hfield : ∀ s, field s = [] ↔ s = [] := by
    intro s
    unfold field
    split
    · rename_i h
      constructor
      · intro h'
        cases h'
      · rintro rfl
        cases h
    · exact Iff.rfl
  cases cells with
  | nil => simp [fields]
  | cons s rest =>
    cases rest with
    | nil => simp [fields, hfield]
    | cons t more => simp [fields]

theorem toList_line {record : List String} (h : fields (record.map String.toList) ≠ []) :
    (line record).toList = fields (record.map String.toList) ++ ['\n'] := by
  unfold line
  split
  · rename_i h'
    exact absurd h' h
  · exact String.toList_ofList

theorem line_of_fields_eq_nil {record : List String} (h : fields (record.map String.toList) = []) :
    line record = "\"\"\n" ∧ normal record = [""] := by
  refine ⟨by unfold line; rw [h], ?_⟩
  rcases fields_eq_nil_iff.1 h with h | h
  · rw [List.map_eq_nil_iff] at h
    subst h
    rfl
  · obtain ⟨s, rest, rfl, hs, hrest⟩ := List.map_eq_cons_iff.1 h
    rw [List.map_eq_nil_iff] at hrest
    subst hrest
    rw [String.toList_eq_nil_iff] at hs
    subst hs
    rfl

/-- From the start of a record, the line of a record is read as that record. -/
theorem readChars_line (records : List (List String)) (record : List String) :
    readChars .recordStart { records } (line record).toList =
      (.recordStart, { records := normal record :: records }) := by
  by_cases hf : fields (record.map String.toList) = []
  · obtain ⟨hline, hnormal⟩ := line_of_fields_eq_nil hf
    rw [hline, hnormal]
    rfl
  · have hne : record.map String.toList ≠ [] := fun h => hf (by rw [h]; rfl)
    rw [toList_line hf, readChars_fields (.inl rfl) rfl hne (.inr hf)]
    have hrecord : record ≠ [] := fun h => hne (by rw [h]; rfl)
    simp [normal_of_ne_nil hrecord, Function.comp_def]

theorem readChars_lines (records : List (List String)) (rows : List (List String)) :
    readChars .recordStart { records } (String.join (rows.map line)).toList =
      (.recordStart, { records := (rows.map normal).reverse ++ records }) := by
  induction rows generalizing records with
  | nil => rfl
  | cons row rest ih =>
    rw [List.map_cons, String.join_cons, String.toList_append, readChars_append, readChars_line]
    simp only
    rw [ih]
    simp

/-- Texts of lines that are the same have the same records. -/
theorem normal_eq_of_lines_eq {rows rows' : List (List String)}
    (h : String.join (rows.map line) = String.join (rows'.map line)) :
    rows.map normal = rows'.map normal := by
  have h₁ := readChars_lines [] rows
  rw [h, readChars_lines] at h₁
  simpa using h₁.symm

theorem normal_eq_of_line_eq {row row' : List String} (h : line row = line row') :
    normal row = normal row' := by
  have hlines : String.join ([row].map line) = String.join ([row'].map line) := by simp [h]
  simpa using normal_eq_of_lines_eq hlines

theorem line_eq_of_normal_eq {row row' : List String} (h : normal row = normal row') :
    line row = line row' := by
  rw [← line_normal, h, line_normal]

/-! ## Texts of lines -/

def startsWithMark (s : List Char) : Bool := s.head? = some '\uFEFF'

theorem dropMark_of_not {s : List Char} (h : startsWithMark s = false) : dropMark s = s := by
  cases s with
  | nil => rfl
  | cons c rest =>
    have hc : c ≠ '\uFEFF' := by
      rintro rfl
      simp [startsWithMark] at h
    unfold dropMark
    split
    · rename_i hs
      cases hs
      exact absurd rfl hc
    · rfl

theorem records_lines {rows : List (List String)}
    (h : startsWithMark (String.join (rows.map line)).toList = false) :
    records (String.join (rows.map line)).toList = rows.map normal := by
  rw [records, dropMark_of_not h, readChars_lines]
  simp

theorem lineFeed_mem_line (record : List String) : '\n' ∈ (line record).toList := by
  by_cases hf : fields (record.map String.toList) = []
  · rw [(line_of_fields_eq_nil hf).1]
    decide
  · rw [toList_line hf]
    simp

theorem line_ne_nil (record : List String) : (line record).toList ≠ [] :=
  List.ne_nil_of_mem (lineFeed_mem_line record)

theorem startsWithMark_append {s t : List Char} (h : s ≠ []) :
    startsWithMark (s ++ t) = startsWithMark s := by
  cases s with
  | nil => exact absurd rfl h
  | cons c rest => rfl

theorem startsWithMark_lines (row : List String) (rest : List (List String)) :
    startsWithMark (String.join ((row :: rest).map line)).toList =
      startsWithMark (line row).toList := by
  rw [List.map_cons, String.join_cons, String.toList_append,
    startsWithMark_append (line_ne_nil row)]

theorem needsQuotes_mark (s : List Char) : needsQuotes ('\uFEFF' :: s) = needsQuotes s := by
  rw [needsQuotes_cons, show isSpecial '\uFEFF' = false by decide, Bool.false_or]

theorem exists_fields_cons (rest : List (List Char)) :
    ∃ tail, startsWithMark tail = false ∧ ∀ s, fields (s :: rest) = field s ++ tail := by
  cases rest with
  | nil => exact ⟨[], rfl, fun s => by rw [fields, List.append_nil]⟩
  | cons t more => exact ⟨',' :: fields (t :: more), rfl, fun s => by rw [fields]; simp⟩

/-- A line that begins with a byte order mark begins with a field without quotes. -/
theorem line_of_startsWithMark {row : List String} (h : startsWithMark (line row).toList = true) :
    ∃ s cells, row = String.ofList ('\uFEFF' :: s) :: cells ∧
      (line row).toList =
        '\uFEFF' :: (fields ((String.ofList s :: cells).map String.toList) ++ ['\n']) := by
  by_cases hf : fields (row.map String.toList) = []
  · rw [(line_of_fields_eq_nil hf).1] at h
    cases h
  cases row with
  | nil => exact absurd rfl hf
  | cons cell cells =>
    obtain ⟨tail, htail, hfields⟩ := exists_fields_cons (cells.map String.toList)
    rw [toList_line hf, startsWithMark_append hf, List.map_cons, hfields] at h
    have hcell : ∃ s, cell.toList = '\uFEFF' :: s ∧ needsQuotes s = false := by
      by_cases hempty : field cell.toList = []
      · rw [hempty, List.nil_append, htail] at h
        cases h
      rw [startsWithMark_append hempty, field] at h
      split at h
      · cases h
      · rename_i hq
        cases hs : cell.toList with
        | nil => rw [hs] at h; cases h
        | cons c s =>
          rw [hs] at h hq
          have hc : c = '\uFEFF' := by simpa [startsWithMark] using h
          subst hc
          rw [needsQuotes_mark] at hq
          exact ⟨s, rfl, by simpa using hq⟩
    obtain ⟨s, hs, hq⟩ := hcell
    have hcell : cell = String.ofList ('\uFEFF' :: s) := by rw [← hs, String.ofList_toList]
    subst hcell
    have hfield : field ('\uFEFF' :: s) = '\uFEFF' :: field s := by
      rw [field, field, needsQuotes_mark, hq]
      rfl
    refine ⟨s, cells, rfl, ?_⟩
    rw [toList_line hf, List.map_cons, List.map_cons, String.toList_ofList, String.toList_ofList,
      hfields, hfields, hfield]
    rfl

/-- The byte order mark that a text begins with is lost, and with it a record that it makes up. -/
theorem records_marked_lines {row : List String} (h : startsWithMark (line row).toList = true)
    (rest : List (List String)) :
    ∃ s cells, row = String.ofList ('\uFEFF' :: s) :: cells ∧
      records (String.join ((row :: rest).map line)).toList =
        (if s = [] ∧ cells = [] then [] else [String.ofList s :: cells]) ++ rest.map normal := by
  obtain ⟨s, cells, hrow, hline⟩ := line_of_startsWithMark h
  refine ⟨s, cells, hrow, ?_⟩
  have hread : readChars .recordStart {}
      (fields ((String.ofList s :: cells).map String.toList) ++ ['\n']) =
      (.recordStart,
        { records := if s = [] ∧ cells = [] then [] else [String.ofList s :: cells] }) := by
    by_cases hf : fields ((String.ofList s :: cells).map String.toList) = []
    · have hempty : s = [] ∧ cells = [] := by
        rcases fields_eq_nil_iff.1 hf with hf | hf
        · simp at hf
        · simpa using hf
      rw [hf, if_pos hempty]
      rfl
    · have hempty : ¬ (s = [] ∧ cells = []) := by
        rintro ⟨rfl, rfl⟩
        exact hf rfl
      rw [readChars_fields (.inl rfl) rfl (by simp) (.inr hf), if_neg hempty]
      simp [Function.comp_def]
  rw [List.map_cons, String.join_cons, String.toList_append, hline, List.cons_append, records,
    dropMark, readChars_append, hread]
  simp only
  rw [readChars_lines]
  simp only [if_true, List.reverse_append, List.reverse_reverse]
  split <;> rfl

/-! ## The first line -/

theorem throughFirst_append_snd (stop : Char) (s : List Char) :
    (Text.throughFirst stop s).1 ++ (Text.throughFirst stop s).2 = s := by
  induction s with
  | nil => rfl
  | cons c rest ih =>
    unfold Text.throughFirst
    split
    · rfl
    · rw [List.cons_append, ih]

theorem throughFirst_of_mem {stop : Char} {s : List Char} (h : stop ∈ s) (t : List Char) :
    Text.throughFirst stop (s ++ t) =
      ((Text.throughFirst stop s).1, (Text.throughFirst stop s).2 ++ t) := by
  induction s with
  | nil => cases h
  | cons c rest ih =>
    unfold Text.throughFirst
    rw [List.cons_append]
    by_cases hc : c = stop
    · simp [hc]
    · have hrest : stop ∈ rest := by
        rcases List.mem_cons.1 h with h | h
        · exact absurd h.symm hc
        · exact h
      simp only [if_neg hc, ih hrest]

/-- Lines are of the same record where the text up to the first line feed of one is the other. -/
theorem normal_eq_of_header {header other : List String} {rest : List Char}
    (h : (Text.throughFirst '\n' ((line header).toList ++ rest)).1 = (line other).toList) :
    normal header = normal other := by
  rw [throughFirst_of_mem (lineFeed_mem_line header)] at h
  have hsplit := throughFirst_append_snd '\n' (line header).toList
  rw [h] at hsplit
  have hread := readChars_line [] header
  rw [← hsplit, readChars_append, readChars_line] at hread
  -- The record of the other line is read first, and the reader forgets no record.
  have hsuffix := suffix_readChars .recordStart { records := [normal other] }
    (Text.throughFirst '\n' (line header).toList).2
  rw [hread] at hsuffix
  have := hsuffix.eq_of_length rfl
  simpa using this.symm

end GraphExport.Csv
