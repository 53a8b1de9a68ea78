import GraphExport.Proofs.Csv.RoundTrip
import GraphExport.Proofs.Json.OneLine
import GraphExport.Proofs.Output.Ledger

/-!
# GraphExport.Proofs.Output.DataRows

The number of rows that a reader finds in a file of elements: one for each element that was written
to it, whatever the elements hold.

* `Format.dataRows`: the rows of a text, its header apart.
* `Format.Holds`: the text of a file that was written with so many rows. `Content.holds_start` for a
  new file, `Content.holds_put` for one more row, `Content.holds_putAll` for many.
* `Ledger.Filed.dataRows`: a file has as many rows as items were written.
-/

namespace GraphExport

/-- The header of a file of elements begins with `~id`. -/
theorem startsWithMark_header {kind : OutputKind} (hkind : kind ≠ .results) (label : Label)
    (columns : LabelSchema) :
    Csv.startsWithMark (Csv.line (csvHeader kind label columns)).toList = false := by
  rw [Bool.eq_false_iff]
  intro hmark
  obtain ⟨s, cells, hrow, -⟩ := Csv.line_of_startsWithMark hmark
  have hfirst : ∃ more, structuralColumns kind label = "~id" :: more := by
    cases kind with
    | nodes => exact ⟨_, rfl⟩
    | edges =>
      unfold structuralColumns
      simp only
      split
      · exact ⟨_, rfl⟩
      · exact ⟨_, rfl⟩
    | results => exact absurd rfl hkind
  obtain ⟨more, hmore⟩ := hfirst
  rw [csvHeader, hmore, List.cons_append, List.cons.injEq] at hrow
  have hcell := congrArg String.toList hrow.1
  rw [String.toList_ofList] at hcell
  simp at hcell

namespace Format

/-- The rows that are read off the text of a file: the records after the header, or the lines. -/
def dataRows (format : Format) (text : String) : Nat :=
  match format with
  | .csv => (Csv.records text.toList).length - 1
  | .json => text.toList.count '\n'

/-- The text is the line of a row. -/
def IsLine (format : Format) (line : String) : Prop :=
  match format with
  | .csv => ∃ record, line = Csv.line record
  | .json => ∃ m, line = jsonLine m

/-- The text of a file that was written with so many rows. -/
def Holds (format : Format) (n : Nat) (text : String) : Prop :=
  match format with
  | .csv => ∃ header rows, Csv.startsWithMark (Csv.line header).toList = false ∧
      rows.length = n ∧ text = String.join ((header :: rows).map Csv.line)
  | .json => text.toList.count '\n' = n

variable {format : Format} {n : Nat} {text line : String}

theorem Holds.append (h : format.Holds n text) (hline : format.IsLine line) :
    format.Holds (n + 1) (text ++ line) := by
  cases format with
  | csv =>
    obtain ⟨header, rows, hmark, rfl, rfl⟩ := h
    obtain ⟨record, rfl⟩ := hline
    refine ⟨header, rows ++ [record], hmark, List.length_append, ?_⟩
    simp [String.append_assoc]
  | json =>
    obtain ⟨m, rfl⟩ := hline
    show (text ++ jsonLine m).toList.count '\n' = n + 1
    rw [String.toList_append, List.count_append, count_jsonLine]
    exact congrArg (· + 1) h

/-- All rows that were written are read. -/
theorem Holds.dataRows (h : format.Holds n text) : format.dataRows text = n := by
  cases format with
  | csv =>
    obtain ⟨header, rows, hmark, rfl, rfl⟩ := h
    rw [Format.dataRows, Csv.records_lines (by rwa [Csv.startsWithMark_lines]), List.length_map,
      List.length_cons, Nat.add_sub_cancel]
  | json => exact h

end Format

theorem isLine_elementLine {format : Format} {kind : OutputKind} {label : Label}
    {schema : LabelSchema} {e : Element} {line : String}
    (h : elementLine format kind label schema e = .ok line) : format.IsLine line := by
  have hmap : ∀ {α : Type} {x : Except Failure α} {f : α → String}, x.map f = .ok line →
      ∃ a, line = f a := by
    intro α x f hx
    cases x with
    | error _ => cases hx
    | ok a => exact ⟨a, (Except.ok.inj hx).symm⟩
  cases format with
  | csv => exact hmap h
  | json => exact hmap h

theorem Item.isLine_entry {format : Format} {kind : OutputKind} {label : Label}
    {s s' : LabelSchema} {i : Item} {line : String}
    (h : i.entry format kind label s = .ok (s', line)) : format.IsLine line := by
  cases i with
  | element e => exact isLine_elementLine (entry_element_ok h).2
  | columns m =>
    cases h
    cases format <;> exact ⟨_, rfl⟩

namespace Content

variable {format : Format} {kind : OutputKind} {label : Label} {c c' : Content} {n : Nat}

theorem holds_start (format : Format) (hkind : kind ≠ .results) (label : Label)
    (seed : Option LabelSchema) : format.Holds 0 (start format kind label seed).text := by
  cases format with
  | csv =>
    refine ⟨csvHeader kind label ((seed.map LabelSchema.columnsOf).getD { label }), [],
      startsWithMark_header hkind label _, rfl, ?_⟩
    rw [start, List.map_singleton, String.join_cons, String.join_nil, String.append_empty]
  | json => exact List.count_nil

theorem holds_put {i : Item} (h : format.Holds n c.text)
    (hput : c.put format kind label i = .ok c') : format.Holds (n + 1) c'.text := by
  obtain ⟨e, hentry, rfl⟩ := map_eq_ok hput
  exact h.append (Item.isLine_entry hentry)

theorem holds_putAll {items : List Item} (h : format.Holds n c.text)
    (hput : c.putAll format kind label items = .ok c') :
    format.Holds (n + items.length) c'.text := by
  induction items generalizing c n with
  | nil =>
    cases hput
    exact h
  | cons i rest ih =>
    obtain ⟨c₁, hfirst, hrest⟩ := bind_eq_ok (show put format kind label c i >>=
      (fun c => rest.foldlM (put format kind label) c) = .ok c' from hput)
    have := ih (holds_put h hfirst) hrest
    rwa [Nat.add_right_comm, Nat.add_assoc] at this

end Content

/-- The file of a kind and label is there and has a row for each item that was written for them. -/
theorem Ledger.Filed.dataRows {L base : Ledger} {log : PoolLog} (h : L.Filed base log)
    {kind : OutputKind} (hkind : kind ≠ .results) {label : Label} {f : FileSchema}
    (hf : L.file? kind label = some f) :
    ∃ text, L.tree.read? f.path = some text ∧
      f.format.dataRows text = (log.items kind label).length := by
  obtain ⟨hformat, text, before, htext, -, hrows⟩ := h.file hf
  refine ⟨text, FileTree.read?_eq_some.2 htext, ?_⟩
  have hholds := Content.holds_putAll (Content.holds_start base.format hkind label _) hrows
  rw [hformat, hholds.dataRows, Nat.zero_add]

end GraphExport
