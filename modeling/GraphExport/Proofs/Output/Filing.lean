import Mathlib.Data.List.Basic
import GraphExport.Proofs.Output.Realign
import GraphExport.Proofs.Output.Shelf

/-!
# GraphExport.Proofs.Output.Filing

The files that labelled rows make when they are written one after the other: one for each label, in
the order in which the labels first come up.

* `filed_append`: one more row goes to the file of its label, or to a new one.
* `Book.alignedText_of_update`: under the columns of its own schema, each row of a file has a cell
  for each of its values.
-/

namespace GraphExport

variable {kind : OutputKind} {label l : Label} {rows : List (Label × WrittenRow)} {named : Nat}

/-- The labels of rows, in the order in which they first come up. -/
def labelsOf (rows : List (Label × WrittenRow)) : List Label := (rows.map (·.1)).eraseDups

/-- The rows of a label, in order. -/
def rowsOf (label : Label) (rows : List (Label × WrittenRow)) : List WrittenRow :=
  (rows.filter (·.1 = label)).map (·.2)

/-- The file of a label. -/
def bookOf (kind : OutputKind) (label : Label) (rows : List (Label × WrittenRow)) : Book where
  kind := kind
  label := label
  seed := { label }
  rows := rowsOf label rows

/-- The number of the file of a label, where `named` files have a number already. -/
def numberOf (named : Nat) (rows : List (Label × WrittenRow)) (label : Label) : Nat :=
  named + 1 + (labelsOf rows).idxOf label

/-- The files of rows of one kind. -/
def filed (kind : OutputKind) (named : Nat) (rows : List (Label × WrittenRow)) : Shelf :=
  fun k label =>
    if k = kind ∧ label ∈ labelsOf rows then
      some ⟨numberOf named rows label, bookOf kind label rows⟩
    else none

@[simp] theorem filed_nil (kind : OutputKind) (named : Nat) :
    filed kind named [] = Shelf.empty := by
  funext k label
  simp [filed, labelsOf, Shelf.empty]

theorem labelsOf_append (rows : List (Label × WrittenRow)) (label : Label) (r : WrittenRow) :
    labelsOf (rows ++ [(label, r)]) =
      if label ∈ labelsOf rows then labelsOf rows else labelsOf rows ++ [label] := by
  unfold labelsOf
  rw [List.map_append, List.eraseDups_append, List.map_singleton]
  by_cases h : label ∈ rows.map (·.1)
  · rw [if_pos (List.mem_eraseDups.2 h)]
    simp only [List.mem_map, Prod.exists, exists_and_right, exists_eq_right] at h
    simp [List.removeAll, h]
  · rw [if_neg (by rwa [List.mem_eraseDups])]
    simp only [List.mem_map, Prod.exists, exists_and_right, exists_eq_right] at h
    simp [List.removeAll, h, List.eraseDups_cons]

theorem rowsOf_append_self (rows : List (Label × WrittenRow)) (label : Label) (r : WrittenRow) :
    rowsOf label (rows ++ [(label, r)]) = rowsOf label rows ++ [r] := by
  simp [rowsOf]

theorem rowsOf_append_of_ne (rows : List (Label × WrittenRow)) (r : WrittenRow) (h : l ≠ label) :
    rowsOf label (rows ++ [(l, r)]) = rowsOf label rows := by
  simp [rowsOf, h]

theorem rowsOf_of_not_mem (h : label ∉ labelsOf rows) : rowsOf label rows = [] := by
  rw [labelsOf, List.mem_eraseDups] at h
  rw [rowsOf, List.map_eq_nil_iff, List.filter_eq_nil_iff]
  intro x hx heq
  exact h (by rw [← of_decide_eq_true heq]; exact List.mem_map_of_mem hx)

/-- One more row goes to the file of its label, or to a new one. -/
theorem filed_append (kind : OutputKind) (named : Nat) (rows : List (Label × WrittenRow))
    (label : Label) (r : WrittenRow) :
    filed kind named (rows ++ [(label, r)]) = (filed kind named rows).set kind label
      (((filed kind named rows kind label).getD
        ⟨named + (labelsOf rows).length + 1, ⟨kind, label, { label }, []⟩⟩).add r) := by
  funext k l
  by_cases hkey : k = kind ∧ l = label
  · obtain ⟨rfl, rfl⟩ := hkey
    rw [Shelf.set_self]
    by_cases hmem : l ∈ labelsOf rows
    · simp only [filed, labelsOf_append, hmem, if_true, true_and, Option.getD_some, Sheet.add,
        Book.add, bookOf, numberOf, rowsOf_append_self]
    · simp only [filed, labelsOf_append, hmem, if_false, true_and, Option.getD_none, Sheet.add,
        Book.add, bookOf, numberOf, rowsOf_append_self, rowsOf_of_not_mem hmem, List.mem_append,
        List.mem_singleton, or_true, if_true, List.idxOf_append, List.idxOf_cons_self]
      congr 2
      omega
  · rw [Shelf.set_of_ne _ _ hkey]
    by_cases hk : k = kind
    · have hl : l ≠ label := fun heq => hkey ⟨hk, heq⟩
      have hmem : l ∈ labelsOf (rows ++ [(label, r)]) ↔ l ∈ labelsOf rows := by
        rw [labelsOf_append]
        split
        · exact Iff.rfl
        · rw [List.mem_append, List.mem_singleton, or_iff_left hl]
      have hbook : bookOf kind l (rows ++ [(label, r)]) = bookOf kind l rows := by
        rw [bookOf, bookOf, rowsOf_append_of_ne _ _ (Ne.symm hl)]
      simp only [filed, hmem, hbook]
      split
      · rename_i h
        have hnumber : numberOf named (rows ++ [(label, r)]) l = numberOf named rows l := by
          unfold numberOf
          rw [labelsOf_append]
          split
          · rfl
          · rw [List.idxOf_append, if_pos h.2]
        rw [hnumber]
      · rfl
    · rw [filed, filed, if_neg fun h => hk h.1, if_neg fun h => hk h.1]

/-- A new label has a new file. -/
theorem length_labelsOf_append (kind : OutputKind) (named : Nat) (rows : List (Label × WrittenRow))
    (label : Label) (r : WrittenRow) :
    (labelsOf (rows ++ [(label, r)])).length =
      (labelsOf rows).length + if (filed kind named rows kind label).isSome then 0 else 1 := by
  rw [labelsOf_append]
  by_cases h : label ∈ labelsOf rows
  · simp [filed, h]
  · simp [filed, h]

/-! ## Cells -/

/-- The text of a file whose rows all have a cell for each column. -/
def tableText (kind : OutputKind) (label : Label) (columns : LabelSchema) (rows : List WrittenRow) :
    String :=
  String.join ((csvHeader kind label columns :: rows.map (·.record columns)).map Csv.line)

theorem not_isTokenName_of_mem (hkind : kind ≠ .results) {rows : List WrittenRow} {s : LabelSchema}
    {name : String} (h : name ∈ (rows.foldl (WrittenRow.grow kind) s).names)
    (hs : name ∈ s.names → LabelSchema.isTokenName name = false) :
    LabelSchema.isTokenName name = false := by
  rcases Book.mem_names_foldl_grow.1 h with hname | ⟨r, -, v, -, hrecorded⟩
  · exact hs hname
  · simp only [LabelSchema.isRecorded, decide_eq_false hkind, Bool.false_or, Bool.and_eq_true,
      Bool.not_eq_true'] at hrecorded
    exact hrecorded.2

/-- A value that makes no column in its row has an empty cell. -/
theorem WrittenRow.aligned_grow {columns : LabelSchema}
    (hcolumns : ∀ name ∈ columns.names, LabelSchema.isTokenName name = false) (s : LabelSchema)
    (r : WrittenRow) : r.aligned columns.names (r.grow kind s) = r.record columns := by
  unfold aligned record propertyCells
  congr 1
  refine List.map_congr_left fun name hname => ?_
  unfold cellOf
  split
  · rfl
  · rename_i hnot
    exact (cell_of_no_column (by simp [hcolumns name hname]) hnot).symm

/-- Under columns that its rows have made, a file has a cell for each value. -/
theorem Book.alignedText_of_update {b : Book} (hkind : b.kind ≠ .results) (hseed : b.Unseeded)
    {columns : LabelSchema} (hcolumns : columns.names ⊆ b.schema.names) :
    b.alignedText columns = tableText b.kind b.label columns b.rows := by
  have htokens : ∀ name ∈ columns.names, LabelSchema.isTokenName name = false := by
    intro name hname
    refine not_isTokenName_of_mem hkind (hcolumns hname) fun hs => ?_
    rw [show b.seed.names = [] from hseed] at hs
    cases hs
  have hrecords : ∀ s (rows : List WrittenRow), alignedFrom b.kind columns.names s rows =
      rows.map (·.record columns) := by
    intro s rows
    induction rows generalizing s with
    | nil => rfl
    | cons r rest ih => rw [alignedFrom, ih, List.map_cons, WrittenRow.aligned_grow htokens]
  rw [alignedText, alignedRecords, hrecords, tableText]

end GraphExport
