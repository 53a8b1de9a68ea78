import GraphExport.Proofs.Output.DataRows
import GraphExport.Proofs.Output.Settled

/-!
# GraphExport.Proofs.Output.FinalRows

The rows that a reader finds in a file of elements once the file is in line with a master schema,
whatever columns it started with.

* `eq_of_columnTitle_eq`: the name of a column is read off its title, so that files with the same
  header have the same columns.
* `drop_realign_congr`: the property cells of a row do not depend on its first cell, which is where
  a byte order mark may be lost.
* `Book.exists_final_rows`: the property cells are those of the elements that were written. Rows
  that come of a torn header stand before them.
-/

namespace GraphExport

/-- Lists that agree item by item under some maps agree so under others that follow from these. -/
theorem map_eq_map_of_imp {α β γ δ : Type} {f : α → γ} {f' : β → γ} {g : α → δ} {g' : β → δ}
    {l : List α} {l' : List β} (h : l.map f = l'.map f') (himp : ∀ a b, f a = f' b → g a = g' b) :
    l.map g = l'.map g' := by
  rw [← List.forall₂_eq_eq_eq, List.forall₂_map_left_iff, List.forall₂_map_right_iff] at h ⊢
  exact h.imp himp

/-! ## Titles -/

/-- What stands after the name in the title of a column. -/
def Column.typeTitle (c : Column) : String :=
  c.dataType.headerName ++ if c.multiValue then "[]" else ""

theorem Column.typeTitle_spec (c : Column) :
    ':' ∉ c.typeTitle.toList ∧ Csv.EndsPlain c.typeTitle.toList := by
  have hlast : ':' ∉ c.typeTitle.toList ∧ ∃ z, c.typeTitle.toList.getLast? = some z ∧
      Csv.isSpecial z = false ∧ z ≠ '\uFEFF' := by
    unfold typeTitle
    cases c.dataType <;> cases c.multiValue <;> exact ⟨by decide, _, rfl, by decide, by decide⟩
  obtain ⟨hcolon, z, hz, hplain⟩ := hlast
  obtain ⟨l, hl⟩ := List.getLast?_eq_some_iff.1 hz
  exact ⟨hcolon, l, z, hl, hplain⟩

section

variable {kind : OutputKind} (hkind : kind ≠ .results)

include hkind

theorem toList_columnTitle (name : String) (c : Column) :
    (columnTitle kind name c).toList = name.toList ++ ':' :: c.typeTitle.toList := by
  have hcolon : (":" : String).toList = [':'] := by decide
  cases kind with
  | results => exact absurd rfl hkind
  | nodes => simp [columnTitle, Column.typeTitle, hcolon]
  | edges => simp [columnTitle, Column.typeTitle, hcolon]

/-- The name of a column is read off its title. -/
theorem eq_of_columnTitle_eq {name name' : String} {c c' : Column}
    (h : columnTitle kind name c = columnTitle kind name' c') : name = name' := by
  have hlist := congrArg String.toList h
  rw [toList_columnTitle hkind, toList_columnTitle hkind] at hlist
  rw [eq_of_append_cons_eq c.typeTitle_spec.1 c'.typeTitle_spec.1 hlist] at hlist
  exact String.toList_inj.1 (List.append_cancel_right hlist)

theorem names_eq_of_csvHeader_eq {label : Label} {s s' : LabelSchema}
    (h : csvHeader kind label s = csvHeader kind label s') : s.names = s'.names := by
  exact map_eq_map_of_imp (List.append_cancel_left h) fun _ _ he => eq_of_columnTitle_eq hkind he

/-- A title with a line feed ends in its type, as every title does. -/
theorem endsPlain_of_mem_csvHeader {label : Label} {s : LabelSchema} :
    ∀ title ∈ csvHeader kind label s, '\n' ∈ title.toList → Csv.EndsPlain title.toList := by
  intro title htitle hfeed
  rcases List.mem_append.1 htitle with hstructural | hcolumn
  · exact absurd hfeed (lineFeed_not_mem_structuralColumns kind label title hstructural)
  · obtain ⟨⟨name, c⟩, -, rfl⟩ := List.mem_map.1 hcolumn
    obtain ⟨-, l, z, hl, hz⟩ := c.typeTitle_spec
    rw [toList_columnTitle hkind, hl]
    exact ⟨name.toList ++ ':' :: l, z, by simp, hz⟩

theorem two_le_length_structuralColumns (label : Label) :
    2 ≤ (structuralColumns kind label).length := by
  cases kind with
  | results => exact absurd rfl hkind
  | nodes => exact Nat.le_refl 2
  | edges => cases hl : label.hasEndpoints <;> simp [structuralColumns, hl]

theorem csvHeader_ne_nil (label : Label) (s : LabelSchema) : csvHeader kind label s ≠ [] := by
  refine List.ne_nil_of_length_pos ?_
  have := two_le_length_structuralColumns hkind label
  rw [length_csvHeader]
  omega

/-- Lines under the header of a file of elements are read as they were written. -/
theorem records_under_header (label : Label) (s : LabelSchema) {rows : List (List String)}
    (hrows : ∀ row ∈ rows, 2 ≤ row.length) :
    Csv.records (String.join ((csvHeader kind label s :: rows).map Csv.line)).toList =
      csvHeader kind label s :: rows := by
  have hmark : Csv.startsWithMark
      (String.join ((csvHeader kind label s :: rows).map Csv.line)).toList = false := by
    rw [Csv.startsWithMark_lines]
    exact startsWithMark_header hkind label s
  rw [Csv.records_lines hmark, List.map_cons, Csv.map_normal hrows,
    Csv.normal_of_ne_nil (csvHeader_ne_nil hkind label s)]

/-! ## Cells -/

/-- The property cells of a row do not depend on its first cell. -/
theorem drop_realign_congr (label : Label) (canonical file : LabelSchema)
    {record record' : List String} (h : record.tail = record'.tail) :
    let structural := (structuralColumns kind label).length
    let positions := columnPositions kind label canonical file
    (realign structural positions record).drop structural =
      (realign structural positions record').drop structural := by
  intro structural positions
  have hdrop : ∀ r : List String, (realign structural positions r).drop structural =
      positions.map fun p => (p.map (r.getD · "")).getD "" := fun r =>
    List.drop_left' (by simp)
  have hlater : ∀ i, structural ≤ i → record.getD i "" = record'.getD i "" := by
    intro i hi
    have hpos : 2 ≤ structural := two_le_length_structuralColumns hkind label
    obtain ⟨i, rfl⟩ := Nat.exists_eq_add_one_of_ne_zero (show i ≠ 0 by omega)
    have htail : ∀ r : List String, r.getD (i + 1) "" = r.tail.getD i "" := fun r => by
      cases r <;> rfl
    rw [htail, htail, h]
  rw [hdrop, hdrop]
  refine List.map_congr_left fun p hp => ?_
  obtain ⟨name, -, rfl⟩ := List.mem_map.1 hp
  cases file.names.idxOf? name with
  | none => rfl
  | some i => exact hlater _ (Nat.le_add_right _ _)

end

namespace Book

/-- Rows that add no columns have the cells that they were written with. -/
theorem alignedFrom_eq_recordsFrom {kind : OutputKind} {columns : List String}
    {rows : List WrittenRow} {s : LabelSchema} (hs : s.names = columns)
    (hlast : (rows.foldl (WrittenRow.grow kind) s).names = columns) :
    alignedFrom kind columns s rows = recordsFrom kind s rows := by
  induction rows generalizing s with
  | nil => rfl
  | cons r rest ih =>
    have hfirst : (r.grow kind s).names = columns := by
      have hfrom := s.names_prefix_update r.properties (kind = .results)
      have hupto := names_prefix_schema ⟨kind, default, r.grow kind s, rest⟩
      rw [hs] at hfrom
      exact (hfrom.eq_of_length_le (hlast ▸ hupto.length_le)).symm
    have hcells : columns.map (r.cellOf (r.grow kind s)) =
        propertyCells r.properties (r.grow kind s) := by
      rw [propertyCells, hfirst]
      exact List.map_congr_left fun name hname => if_pos (hfirst ▸ hname)
    rw [alignedFrom, recordsFrom, ih hfirst hlast, WrittenRow.aligned, hcells, WrittenRow.record]

/-- A file that started with the columns of the master has no others. -/
theorem alignedRecords_of_names_eq {b : Book} {canonical : LabelSchema}
    (hnames : b.schema.names ⊆ canonical.names) (hseed : b.seed.names = canonical.names) :
    b.alignedRecords canonical = b.records := by
  have hlast : canonical.names = b.schema.names := by
    have hprefix := b.names_prefix_schema
    have hlength := (List.subperm_of_subset b.schema.nodup_names hnames).length_le
    rw [hseed] at hprefix
    exact hprefix.eq_of_length_le hlength
  exact alignedFrom_eq_recordsFrom hseed hlast.symm

/-- The rows of a file of elements that is in line with a master schema. Each has the property cells
of its element under the columns of the master. If the header that the file started with had a line
feed, the rewrite takes the rest of it for rows, which then stand before the others. -/
theorem exists_final_rows {b : Book} (hb : b.Fits) (hkind : b.kind ≠ .results)
    {canonical : LabelSchema} (hnames : b.schema.names ⊆ canonical.names) :
    let structural := (structuralColumns b.kind b.label).length
    ∃ extra rows, Csv.records
        ((realigned? b.kind b.label canonical b.schema b.text).getD b.text).toList =
          csvHeader b.kind b.label canonical :: (extra ++ rows) ∧
      (b.seed.OneLine → extra = []) ∧
      rows.map (·.drop structural) =
        b.rows.map fun r => canonical.names.map (r.cellOf b.schema) := by
  intro structural
  have hcells : (b.alignedRecords canonical).map (·.drop structural) =
      b.rows.map fun r => canonical.names.map (r.cellOf b.schema) := by
    rw [alignedRecords_eq_map, List.map_map]
    exact List.map_congr_left fun r hr => List.drop_left' (hb r hr)
  rw [← hcells]
  have hrecords : ∀ record ∈ b.records, 2 ≤ record.length := fun record hrecord =>
    (two_le_length_structuralColumns hkind b.label).trans
      (Nat.le_of_add_right_le (length_recordsFrom hb hrecord).1)
  have hcut : Text.throughFirst '\n' b.text.toList =
      ((Text.throughFirst '\n' (Csv.line b.header).toList).1,
        (Text.throughFirst '\n' (Csv.line b.header).toList).2 ++
          (String.join (b.records.map Csv.line)).toList) := by
    rw [toList_text, Csv.throughFirst_of_mem (Csv.lineFeed_mem_line _)]
  cases hr : realigned? b.kind b.label canonical b.schema b.text with
  | none =>
    -- The file has the header of the master, and so its columns in the same places.
    have hline := (realigned?_eq_none_iff b.text_ne_empty).1 hr
    rw [toList_text] at hline
    have hheader : csvHeader b.kind b.label b.seed = csvHeader b.kind b.label canonical := by
      have hnormal := Csv.normal_eq_of_header hline
      rwa [header, Csv.normal_of_ne_nil (csvHeader_ne_nil hkind _ _),
        Csv.normal_of_ne_nil (csvHeader_ne_nil hkind _ _)] at hnormal
    refine ⟨[], b.records, ?_, fun _ => rfl, ?_⟩
    · rw [Option.getD_none, text, header, hheader]
      exact records_under_header hkind b.label canonical hrecords
    · rw [alignedRecords_of_names_eq hnames (names_eq_of_csvHeader_eq hkind hheader)]
  | some text =>
    have hends : ∀ title ∈ b.header, '\n' ∈ title.toList → Csv.EndsPlain title.toList :=
      endsPlain_of_mem_csvHeader hkind
    obtain ⟨extra, rows, hread, hextra, htails⟩ := Csv.records_rest_of_line hends hrecords
    let place := realign structural (columnPositions b.kind b.label canonical b.schema)
    have hwide : ∀ row ∈ (Csv.records (Text.throughFirst '\n' b.text.toList).2).map place,
        2 ≤ row.length := by
      intro row hrow
      obtain ⟨record, -, rfl⟩ := List.mem_map.1 hrow
      rw [length_realign]
      exact (two_le_length_structuralColumns hkind b.label).trans (Nat.le_add_right _ _)
    refine ⟨extra.map place, rows.map place, ?_, fun hone => ?_, ?_⟩
    · rw [Option.getD_some, realigned?_eq_some hr, records_under_header hkind _ _ hwide, hcut,
        hread, List.map_append]
    · have hfeeds :=
        Csv.throughFirst_line_iff.1 ((throughFirst_csvHeader_iff b.kind b.label _).2 hone)
      rw [hextra hfeeds, List.map_nil]
    · rw [← map_realign_records hb, List.map_map, List.map_map]
      exact map_eq_map_of_imp htails fun _ _ htail =>
        drop_realign_congr hkind b.label canonical b.schema htail

end Book

end GraphExport
