import GraphExport.Proofs.Csv.FirstLine
import GraphExport.Proofs.Output.Tables

/-!
# GraphExport.Proofs.Output.Settled

Bringing files in line that are in line already. The rewrite takes the text up to the first line
feed for the header, so all depends on whether the header of the master is one line.

* `throughFirst_csvHeader_iff`: the header of a master is one line if and only if no name of a
  column holds a line feed.
* `realigned?_realigned_iff`: then, and only then, a file that was brought in line stays as it is.
* `Shelved.settled`: so it is for all files on the shelves.
-/

namespace GraphExport

/-! ## Headers -/

/-- No name of a column holds a line feed. -/
def LabelSchema.OneLine (s : LabelSchema) : Prop := ∀ name ∈ s.names, '\n' ∉ name.toList

theorem lineFeed_not_mem_structuralColumns (kind : OutputKind) (label : Label) :
    ∀ title ∈ structuralColumns kind label, '\n' ∉ title.toList := by
  cases kind with
  | nodes => simp only [structuralColumns]; decide
  | edges => cases hl : label.hasEndpoints <;> simp only [structuralColumns, hl] <;> decide
  | results => simp only [structuralColumns]; decide

theorem lineFeed_mem_columnTitle {kind : OutputKind} {name : String} {c : Column} :
    '\n' ∈ (columnTitle kind name c).toList ↔ '\n' ∈ name.toList := by
  have htype : '\n' ∉ c.dataType.headerName.toList := by
    cases c.dataType <;> decide
  cases kind <;> cases hm : c.multiValue <;> simp [columnTitle, hm, htype]

/-- A header is one line if and only if no name of a column holds a line feed. -/
theorem throughFirst_csvHeader_iff (kind : OutputKind) (label : Label) (schema : LabelSchema) :
    (Text.throughFirst '\n' (Csv.line (csvHeader kind label schema)).toList).1 =
      (Csv.line (csvHeader kind label schema)).toList ↔ schema.OneLine := by
  rw [Csv.throughFirst_line_iff]
  constructor
  · intro h name hname
    obtain ⟨⟨name, c⟩, he, rfl⟩ := List.mem_map.1 hname
    have := h (columnTitle kind name c)
      (List.mem_append_right _ (List.mem_map.2 ⟨(name, c), he, rfl⟩))
    rwa [lineFeed_mem_columnTitle] at this
  · intro h title htitle
    rcases List.mem_append.1 htitle with hstructural | hcolumn
    · exact lineFeed_not_mem_structuralColumns kind label title hstructural
    · obtain ⟨⟨name, c⟩, he, rfl⟩ := List.mem_map.1 hcolumn
      rw [lineFeed_mem_columnTitle]
      exact h name (List.mem_map.2 ⟨(name, c), he, rfl⟩)

/-! ## A file -/

section File

variable {kind : OutputKind} {label : Label} {canonical file : LabelSchema} {content text : String}

theorem realigned?_eq_none_iff (hne : content ≠ "") :
    realigned? kind label canonical file content = none ↔
      (Text.throughFirst '\n' content.toList).1 =
        (Csv.line (csvHeader kind label canonical)).toList := by
  have hheader : (Text.throughFirst '\n' content.toList).1 ≠ [] := by
    cases hc : content.toList with
    | nil => exact absurd (String.toList_eq_nil_iff.1 hc) hne
    | cons c rest =>
      unfold Text.throughFirst
      split <;> simp
  unfold realigned?
  simp [hheader]

theorem realigned?_eq_some (h : realigned? kind label canonical file content = some text) :
    text = String.join ((csvHeader kind label canonical ::
      (Csv.records (Text.throughFirst '\n' content.toList).2).map
        (realign (structuralColumns kind label).length
          (columnPositions kind label canonical file))).map Csv.line) := by
  unfold realigned? at h
  simp only at h
  split at h
  · cases h
  · rw [List.map_cons, List.map_map]
    exact (Option.some.inj h).symm

/-- A file that was brought in line stays as it is if and only if its header is one line. -/
theorem realigned?_realigned_iff (hne : content ≠ "") :
    realigned? kind label canonical file
      ((realigned? kind label canonical file content).getD content) = none ↔
        canonical.OneLine := by
  rw [← throughFirst_csvHeader_iff kind label]
  cases hr : realigned? kind label canonical file content with
  | none =>
    -- The header is the text up to a first line feed already.
    rw [Option.getD_none, hr, ← (realigned?_eq_none_iff hne).1 hr]
    exact iff_of_true rfl (Csv.throughFirst_throughFirst _ _)
  | some text =>
    have htext := realigned?_eq_some hr
    rw [List.map_cons, String.join_cons] at htext
    subst htext
    have hline := Csv.line_ne_nil (csvHeader kind label canonical)
    rw [Option.getD_some, realigned?_eq_none_iff, String.toList_append,
      Csv.throughFirst_of_mem (Csv.lineFeed_mem_line _)]
    intro h
    rw [String.append_eq_empty_iff] at h
    exact hline (by rw [h.1]; rfl)

/-- The rewrite says that it has changed nothing if and only if there is nothing to change. -/
theorem reconcileFile_eq_false_iff {file : FileSchema} {t : FileTree}
    (h : t.get? file.path = some (.file content)) :
    (reconcileFile kind label canonical file t).1 = .ok false ↔
      realigned? kind label canonical file.schema content = none := by
  cases hr : realigned? kind label canonical file.schema content with
  | none => simp only [reconcileFile, h, hr]
  | some text =>
    simp only [reconcileFile, h, hr]
    split
    · simp
    · split <;> simp

theorem reconcileFile_of_false {file : FileSchema} {t : FileTree}
    (h : (reconcileFile kind label canonical file t).1 = .ok false) :
    reconcileFile kind label canonical file t = (.ok false, t) := by
  unfold reconcileFile at h ⊢
  split at h
  · cases h
  · cases h
  · split at h
    · rfl
    · simp only at h
      split at h
      · cases h
      · split at h <;> cases h

end File

/-- There is nothing to do where nothing is to be changed in any file. -/
theorem reconcileAll_of_false {kind : OutputKind} {jobs : List (Label × LabelSchema × FileSchema)}
    {t : FileTree} (h : ∀ label canonical file, (label, canonical, file) ∈ jobs →
      (reconcileFile kind label canonical file t).1 = .ok false) :
    reconcileAll kind jobs t = (.ok (), t) := by
  induction jobs with
  | nil => rfl
  | cons job rest ih =>
    obtain ⟨label, canonical, file⟩ := job
    rw [reconcileAll, reconcileFile_of_false (h label canonical file List.mem_cons_self)]
    exact ih fun label canonical file hmem =>
      h label canonical file (List.mem_cons_of_mem _ hmem)

/-! ## All files of a kind -/

section Shelves

variable {dir : Path} {kinds : List OutputKind} {base : FileTree} {shelves : Nat → Shelf} {d : Disk}
  {kind : OutputKind} {fragments : List Fragments} {schemas : Collection} {t t' : FileTree}

theorem Book.text_ne_empty (b : Book) : b.text ≠ "" := by
  intro h
  have := congrArg String.toList h
  rw [Book.toList_text, String.toList_empty, List.append_eq_nil_iff] at this
  exact Csv.line_ne_nil _ this.1

section Accounted

variable (hs : Shelved dir kinds base shelves d)
  (haccounts : ∀ (i : Nat) (f : Fragments), fragments[i]? = some f →
    f.Accounts dir (shelves i) kind)
  (hempty : ∀ i, fragments.length ≤ i → ∀ label, shelves i kind label = none)
  (hfiles : ∀ label canonical file,
    (label, canonical, file) ∈ (Masters.ofFragments fragments).jobs →
      t.get? file.path = d.tree.get? file.path)
  (h : GraphExport.reconcile .csv kind (.ofFragments fragments) t = (.ok schemas, t'))

include hs haccounts hempty hfiles h

/-- A file that was brought in line with the others of its kind is left alone the next time if and
only if no name of a column of its label holds a line feed. -/
theorem Shelved.settled {label : Label} {canonical : LabelSchema} {file : FileSchema}
    (hjob : (label, canonical, file) ∈ (Masters.ofFragments fragments).jobs) :
    (reconcileFile kind label canonical file t').1 = .ok false ↔ canonical.OneLine := by
  obtain ⟨hall, -⟩ := reconcile_ok_iff.1 h
  obtain ⟨hnew, -⟩ := reconcileAll_ok (nodup_jobs_accounted hs haccounts hempty)
    (path_ne_temporary_accounted hs haccounts hempty) hall
  obtain ⟨content, hcontent, htext⟩ := hnew label canonical file hjob
  -- What the workers have written is no empty file.
  have hne : content ≠ "" := by
    obtain ⟨⟨i, s, hsheet, rfl⟩, -⟩ := (mem_jobs_accounted hs haccounts hempty).1 hjob
    have hbook := (hfiles label canonical _ hjob).trans (hs.file hsheet)
    rw [hcontent, Option.some.injEq, Entry.file.injEq] at hbook
    rw [hbook]
    exact s.book.text_ne_empty
  rw [reconcileFile_eq_false_iff htext]
  exact realigned?_realigned_iff hne

/-- Such a file stays as it is the next time, whatever becomes of the others. -/
theorem Shelved.get?_settled {t'' : FileTree} {schemas' : Collection}
    (hagain : GraphExport.reconcile .csv kind (.ofFragments fragments) t' = (.ok schemas', t''))
    {label : Label} {canonical : LabelSchema} {file : FileSchema}
    (hjob : (label, canonical, file) ∈ (Masters.ofFragments fragments).jobs)
    (hline : canonical.OneLine) : t''.get? file.path = t'.get? file.path := by
  obtain ⟨hall, -⟩ := reconcile_ok_iff.1 hagain
  obtain ⟨hnew, -⟩ := reconcileAll_ok (nodup_jobs_accounted hs haccounts hempty)
    (path_ne_temporary_accounted hs haccounts hempty) hall
  obtain ⟨content, hcontent, htext⟩ := hnew label canonical file hjob
  have hnone := (reconcileFile_eq_false_iff hcontent).1
    ((hs.settled haccounts hempty hfiles h hjob).2 hline)
  rw [htext, hcontent, hnone, Option.getD_none]

/-- Where no name of a column holds a line feed there is nothing to do the next time. -/
theorem Shelved.reconcile_again
    (hlines : ∀ label canonical, schemas.get? label = some canonical → canonical.OneLine) :
    GraphExport.reconcile .csv kind (.ofFragments fragments) t' = (.ok schemas, t') := by
  have hschemas := (reconcile_ok_iff.1 h).2
  refine reconcile_ok_iff.2 ⟨reconcileAll_of_false fun label canonical file hjob => ?_, hschemas⟩
  refine (hs.settled haccounts hempty hfiles h hjob).2 (hlines label canonical ?_)
  rw [hschemas]
  exact ((mem_jobs_accounted hs haccounts hempty).1 hjob).2

end Accounted

end Shelves

end GraphExport
