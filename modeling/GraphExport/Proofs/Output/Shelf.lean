import Mathlib.Logic.Function.Basic
import GraphExport.Output.Pool
import GraphExport.Proofs.Output.Book
import GraphExport.Proofs.Output.Names

/-!
# GraphExport.Proofs.Output.Shelf

What is in the files of a job while several workers write them. Every worker has a shelf, with a
numbered book for each kind and label that it has written.

* `Shelved`: the files of the job are those on the shelves, each with the text of its book, and all
  other files are as they were.
* `Shelved.write`, `Shelved.create`: a worker adds a row or a book to its shelf, and the shelves of
  the others stay as they are.
-/

namespace GraphExport

/-- A file: its number among the files of the job, and its book. -/
structure Sheet where
  number : Nat
  book : Book

namespace Sheet

def path (dir : Path) (s : Sheet) : Path :=
  (dir.child s.book.kind.name).child (LabelWriter.fileNameOf s.book.label s.number .csv)

def fileSchema (dir : Path) (s : Sheet) : FileSchema := ⟨s.path dir, .csv, s.book.schema⟩

def add (s : Sheet) (r : WrittenRow) : Sheet := { s with book := s.book.add r }

@[simp] theorem path_add (dir : Path) (s : Sheet) (r : WrittenRow) :
    (s.add r).path dir = s.path dir := rfl

theorem number_eq_of_path_eq {dir : Path} {s s' : Sheet} (h : s.path dir = s'.path dir) :
    s.number = s'.number :=
  LabelWriter.fileNameOf_inj (Path.child_inj h).2

theorem path_ne_temporary (dir : Path) (s s' : Sheet) : s.path dir ≠ (s'.path dir).temporary := by
  intro h
  rw [path, path, Path.temporary_child] at h
  exact LabelWriter.fileNameOf_ne_temporary _ _ _ _ (Path.child_inj h).2

end Sheet

/-- The files of one worker. -/
abbrev Shelf := OutputKind → Label → Option Sheet

namespace Shelf

def empty : Shelf := fun _ _ => none

def set (S : Shelf) (kind : OutputKind) (label : Label) (s : Sheet) : Shelf :=
  fun k l => if k = kind ∧ l = label then some s else S k l

@[simp] theorem set_self (S : Shelf) (kind : OutputKind) (label : Label) (s : Sheet) :
    S.set kind label s kind label = some s := by
  simp [set]

theorem set_of_ne (S : Shelf) {kind k : OutputKind} {label l : Label} (s : Sheet)
    (h : ¬ (k = kind ∧ l = label)) : S.set kind label s k l = S k l := by
  simp [set, h]

theorem set_eq_self {S : Shelf} {kind : OutputKind} {label : Label} {s : Sheet}
    (h : S kind label = some s) : S.set kind label s = S := by
  funext k l
  by_cases hkey : k = kind ∧ l = label
  · obtain ⟨rfl, rfl⟩ := hkey
    rw [set_self, h]
  · rw [set_of_ne _ _ hkey]

theorem set_set (S : Shelf) (kind : OutputKind) (label : Label) (s s' : Sheet) :
    (S.set kind label s).set kind label s' = S.set kind label s' := by
  funext k l
  by_cases hkey : k = kind ∧ l = label
  · obtain ⟨rfl, rfl⟩ := hkey
    rw [set_self, set_self]
  · rw [set_of_ne _ _ hkey, set_of_ne _ _ hkey, set_of_ne _ _ hkey]

theorem set_eq_some {S : Shelf} {kind k : OutputKind} {label l : Label} {s s' : Sheet}
    (h : S.set kind label s k l = some s') :
    (k = kind ∧ l = label ∧ s' = s) ∨ (¬ (k = kind ∧ l = label) ∧ S k l = some s') := by
  by_cases hkey : k = kind ∧ l = label
  · rw [set, if_pos hkey] at h
    exact .inl ⟨hkey.1, hkey.2, (Option.some.inj h).symm⟩
  · rw [set, if_neg hkey] at h
    exact .inr ⟨hkey, h⟩

end Shelf

/-- The files of a job that started from a tree are those on the shelves of its workers. -/
structure Shelved (dir : Path) (kinds : List OutputKind) (base : FileTree) (shelves : Nat → Shelf)
    (d : Disk) : Prop where
  file : ∀ {i kind label s}, shelves i kind label = some s →
    d.tree.get? (s.path dir) = some (.file s.book.text)
  fits : ∀ {i kind label s}, shelves i kind label = some s → s.book.Fits
  placed : ∀ {i kind label s}, shelves i kind label = some s →
    s.book.kind = kind ∧ s.book.label = label ∧ s.book.seed.label = label
  numbered : ∀ {i kind label s}, shelves i kind label = some s → s.number ≤ d.filesNamed
  allowed : ∀ {i kind label s}, shelves i kind label = some s → kind ∈ kinds
  distinct : ∀ {i j kind kind' label label' s s'}, shelves i kind label = some s →
    shelves j kind' label' = some s' → s.number = s'.number → i = j ∧ kind = kind' ∧ label = label'
  frame : ∀ q, (∀ i kind label s, shelves i kind label = some s → s.path dir ≠ q) →
    d.tree.read? q = base.read? q

def setSheet (shelves : Nat → Shelf) (i : Nat) (kind : OutputKind) (label : Label) (s : Sheet) :
    Nat → Shelf :=
  Function.update shelves i ((shelves i).set kind label s)

theorem setSheet_eq_some {shelves : Nat → Shelf} {i j : Nat} {kind k : OutputKind}
    {label l : Label} {s s' : Sheet} (h : setSheet shelves i kind label s j k l = some s') :
    (j = i ∧ k = kind ∧ l = label ∧ s' = s) ∨
      (¬ (j = i ∧ k = kind ∧ l = label) ∧ shelves j k l = some s') := by
  by_cases hj : j = i
  · subst hj
    rw [setSheet, Function.update_self] at h
    rcases Shelf.set_eq_some h with ⟨hk, hl, hs⟩ | ⟨hne, hs⟩
    · exact .inl ⟨rfl, hk, hl, hs⟩
    · exact .inr ⟨fun heq => hne heq.2, hs⟩
  · rw [setSheet, Function.update_of_ne hj] at h
    exact .inr ⟨fun heq => hj heq.1, h⟩

theorem setSheet_self (shelves : Nat → Shelf) (i : Nat) (kind : OutputKind) (label : Label)
    (s : Sheet) : setSheet shelves i kind label s i = (shelves i).set kind label s := by
  rw [setSheet, Function.update_self]

theorem setSheet_of_ne (shelves : Nat → Shelf) {i j : Nat} (kind : OutputKind) (label : Label)
    (s : Sheet) (h : j ≠ i) : setSheet shelves i kind label s j = shelves j := by
  rw [setSheet, Function.update_of_ne h]

theorem setSheet_of_ne_key (shelves : Nat → Shelf) {i j : Nat} {kind k : OutputKind}
    {label l : Label} {s : Sheet} (h : ¬ (j = i ∧ k = kind ∧ l = label)) :
    setSheet shelves i kind label s j k l = shelves j k l := by
  by_cases hj : j = i
  · subst hj
    rw [setSheet_self, Shelf.set_of_ne _ _ fun heq => h ⟨rfl, heq⟩]
  · rw [setSheet_of_ne _ _ _ _ hj]

namespace Shelved

variable {dir : Path} {kinds : List OutputKind} {base : FileTree} {shelves : Nat → Shelf}
  {d d' : Disk} {i : Nat} {kind : OutputKind} {label : Label}

theorem path_ne (h : Shelved dir kinds base shelves d) {j : Nat} {kind' : OutputKind}
    {label' : Label}
    {s s' : Sheet} (hs : shelves i kind label = some s) (hs' : shelves j kind' label' = some s')
    (hne : ¬ (j = i ∧ kind' = kind ∧ label' = label)) : s'.path dir ≠ s.path dir := by
  intro heq
  exact hne (h.distinct hs' hs (Sheet.number_eq_of_path_eq heq))

theorem start (dir : Path) (kinds : List OutputKind) (d : Disk) :
    Shelved dir kinds d.tree (fun _ => Shelf.empty) d := by
  constructor <;> intros <;> first | rfl | (rename_i h; cases h) | skip
  rename_i h _ _
  cases h

theorem of_files (h : Shelved dir kinds base shelves d)
    (hfiles : ∀ q content, d'.tree.get? q = some (.file content) ↔
      d.tree.get? q = some (.file content)) (hnamed : d.filesNamed ≤ d'.filesNamed) :
    Shelved dir kinds base shelves d' where
  file hs := (hfiles _ _).2 (h.file hs)
  fits := h.fits
  placed := h.placed
  numbered hs := Nat.le_trans (h.numbered hs) hnamed
  allowed := h.allowed
  distinct := h.distinct
  frame q hq := by
    rw [← h.frame q hq]
    exact FileTree.read?_congr_files (hfiles q)

theorem write (h : Shelved dir kinds base shelves d) {s : Sheet}
    (hs : shelves i kind label = some s) {r : WrittenRow} (hr : r.Fits kind label) :
    Shelved dir kinds base (setSheet shelves i kind label (s.add r))
      (d.append (s.path dir) (Csv.line (r.record (s.add r).book.schema))) where
  file {j k l s'} hs' := by
    simp only [Disk.append]
    rcases setSheet_eq_some hs' with ⟨-, -, -, rfl⟩ | ⟨hne, hs'⟩
    · rw [Sheet.path_add, FileTree.append_of_file (h.file hs), SortedMap.get?_insert_self]
      rw [Sheet.add, Book.text_add]
    · rw [FileTree.get?_append_of_ne (h.path_ne hs hs' hne)]
      exact h.file hs'
  fits {j k l s'} hs' := by
    rcases setSheet_eq_some hs' with ⟨-, -, -, rfl⟩ | ⟨-, hs'⟩
    · obtain ⟨hkind, hlabel, -⟩ := h.placed hs
      exact (h.fits hs).add (by rw [hkind, hlabel]; exact hr)
    · exact h.fits hs'
  placed {j k l s'} hs' := by
    rcases setSheet_eq_some hs' with ⟨-, rfl, rfl, rfl⟩ | ⟨-, hold⟩
    · have hplaced := h.placed hs
      exact hplaced
    · exact h.placed hold
  numbered {j k l s'} hs' := by
    rcases setSheet_eq_some hs' with ⟨-, -, -, rfl⟩ | ⟨-, hold⟩
    · have hnumbered := h.numbered hs
      exact hnumbered
    · exact h.numbered hold
  allowed {j k l s'} hs' := by
    rcases setSheet_eq_some hs' with ⟨-, rfl, -, -⟩ | ⟨-, hold⟩
    · exact h.allowed hs
    · exact h.allowed hold
  distinct {j j' k k' l l' s₁ s₂} hs₁ hs₂ heq := by
    rcases setSheet_eq_some hs₁ with ⟨rfl, rfl, rfl, rfl⟩ | ⟨-, hold₁⟩
    · rcases setSheet_eq_some hs₂ with ⟨rfl, rfl, rfl, -⟩ | ⟨-, hold₂⟩
      · exact ⟨rfl, rfl, rfl⟩
      · exact h.distinct hs hold₂ heq
    · rcases setSheet_eq_some hs₂ with ⟨rfl, rfl, rfl, rfl⟩ | ⟨-, hold₂⟩
      · exact h.distinct hold₁ hs heq
      · exact h.distinct hold₁ hold₂ heq
  frame q hq := by
    have hne : q ≠ s.path dir := by
      have := hq i kind label (s.add r) (by rw [setSheet_self, Shelf.set_self])
      exact fun heq => this heq.symm
    rw [← h.frame q fun j k l s' hs' => ?_]
    · simp only [Disk.append, FileTree.read?, FileTree.get?_append_of_ne hne]
    · by_cases hkey : j = i ∧ k = kind ∧ l = label
      · obtain ⟨rfl, rfl, rfl⟩ := hkey
        rw [hs] at hs'
        cases hs'
        exact hne.symm
      · exact hq j k l s' (by rw [setSheet_of_ne_key _ hkey, hs'])

theorem create (h : Shelved dir kinds base shelves d) (hkind : kind ∈ kinds)
    (hnone : shelves i kind label = none)
    {seed : Option LabelSchema} (hseed : ∀ s, seed = some s → s.label = label) {w : LabelWriter}
    (hcreate : LabelWriter.create dir .csv kind label seed d = (.ok w, d')) :
    Shelved dir kinds base (setSheet shelves i kind label
      ⟨d.filesNamed + 1, ⟨kind, label, (seed.map LabelSchema.columnsOf).getD { label }, []⟩⟩)
        d' := by
  obtain ⟨t, t₁, ht, ht₁, hw, hd'⟩ := LabelWriter.create_ok hcreate
  obtain ⟨rfl, -⟩ := FileTree.makeFile_eq_some ht₁
  have hkeeps := LabelWriter.keeps_create hcreate
  have hschema : w.schema = (seed.map LabelSchema.columnsOf).getD { label } := by rw [hw]
  have hpath : w.path = Sheet.path dir ⟨d.filesNamed + 1, ⟨kind, label, w.schema, []⟩⟩ := by
    rw [hw]
    rfl
  rw [← hschema]
  have hnamed : d'.filesNamed = d.filesNamed + 1 := by rw [hd']
  have hnew : ∀ {j k l s}, shelves j k l = some s → s.number ≠ d.filesNamed + 1 := by
    intro j k l s hs heq
    have := h.numbered hs
    omega
  -- Other files than the new one are where they were.
  have hothers : ∀ q content, q ≠ w.path →
      (d'.tree.get? q = some (.file content) ↔ d.tree.get? q = some (.file content)) := by
    intro q content hq
    rw [hd']
    simp only [FileTree.get?_append_of_ne hq, SortedMap.get?_insert_of_ne _ hq]
    exact FileTree.file_makeDirectories ht
  refine ⟨fun {j k l s} hs => ?_, fun {j k l s} hs => ?_, fun {j k l s} hs => ?_,
    fun {j k l s} hs => ?_, fun {j k l s} hs => ?_, fun {j j' k k' l l' s s'} hs hs' heq => ?_,
    fun q hq => ?_⟩
  · rcases setSheet_eq_some hs with ⟨-, -, -, rfl⟩ | ⟨-, hs⟩
    · rw [← hpath]
      exact hkeeps.file
    · refine (hothers _ _ ?_).2 (h.file hs)
      rw [hpath]
      exact fun heq => hnew hs (Sheet.number_eq_of_path_eq heq)
  · rcases setSheet_eq_some hs with ⟨-, -, -, rfl⟩ | ⟨-, hs⟩
    · exact hkeeps.fits
    · exact h.fits hs
  · rcases setSheet_eq_some hs with ⟨-, rfl, rfl, rfl⟩ | ⟨-, hs⟩
    · refine ⟨rfl, rfl, ?_⟩
      show w.schema.label = _
      rw [hschema]
      cases seed with
      | none => rfl
      | some s => exact hseed s rfl
    · exact h.placed hs
  · rcases setSheet_eq_some hs with ⟨-, -, -, rfl⟩ | ⟨-, hs⟩
    · exact Nat.le_of_eq hnamed.symm
    · rw [hnamed]
      exact Nat.le_succ_of_le (h.numbered hs)
  · rcases setSheet_eq_some hs with ⟨-, rfl, -, -⟩ | ⟨-, hs⟩
    · exact hkind
    · exact h.allowed hs
  · rcases setSheet_eq_some hs with ⟨rfl, rfl, rfl, rfl⟩ | ⟨-, hold⟩
    · rcases setSheet_eq_some hs' with ⟨rfl, rfl, rfl, -⟩ | ⟨-, hold'⟩
      · exact ⟨rfl, rfl, rfl⟩
      · exact absurd heq.symm (hnew hold')
    · rcases setSheet_eq_some hs' with ⟨rfl, rfl, rfl, rfl⟩ | ⟨-, hold'⟩
      · exact absurd heq (hnew hold)
      · exact h.distinct hold hold' heq
  · have hne : q ≠ w.path := by
      have := hq i kind label _ (by rw [setSheet_self, Shelf.set_self])
      rw [hpath]
      exact fun heq => this heq.symm
    rw [← h.frame q fun j k l s hs => hq j k l s ?_]
    · exact FileTree.read?_congr_files fun content => hothers q content hne
    · rw [setSheet_of_ne_key, hs]
      rintro ⟨rfl, rfl, rfl⟩
      rw [hnone] at hs
      cases hs

end Shelved

end GraphExport
