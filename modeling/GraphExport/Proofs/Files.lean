import GraphExport.FileTree
import GraphExport.Proofs.Data.Maps

/-!
# GraphExport.Proofs.Files

What the operations on a file tree do to each path.

* `FileTree.append_of_file`, `FileTree.makeFile_eq_some`, `FileTree.moveFile_of_file`: what becomes
  of the path that is named.
* `FileTree.get?_replaced`: a text that is written under another name and then moved into place.
* `FileTree.makeDirectories_eq_some`: directories are made where there were no files.
-/

namespace GraphExport

namespace FileTree

variable {t t' : FileTree} {p q : Path}

theorem isFile_of_get? {content : String} (h : t.get? p = some (.file content)) :
    t.isFile p = true := by
  simp [isFile, h]

theorem read?_eq_some {content : String} :
    t.read? p = some content ↔ t.get? p = some (.file content) := by
  unfold read?
  split <;> simp_all

theorem read?_congr (h : t.get? p = t'.get? q) : t.read? p = t'.read? q := by
  rw [read?, h, read?]

theorem read?_congr_files
    (h : ∀ content, t.get? p = some (.file content) ↔ t'.get? q = some (.file content)) :
    t.read? p = t'.read? q := by
  apply Option.ext
  intro content
  rw [read?_eq_some, read?_eq_some]
  exact h content

theorem isDirectory_congr (h : t.get? p = t'.get? p) : t.isDirectory p = t'.isDirectory p := by
  rw [isDirectory, h, isDirectory]

theorem isFile_congr (h : t.get? p = t'.get? p) : t.isFile p = t'.isFile p := by
  rw [isFile, h, isFile]

theorem append_of_file {content : String} (h : t.get? p = some (.file content)) (text : String) :
    t.append p text = t.insert p (.file (content ++ text)) := by
  simp [append, h]

theorem get?_append_of_ne (h : q ≠ p) (text : String) : (t.append p text).get? q = t.get? q := by
  unfold append
  split
  · exact SortedMap.get?_insert_of_ne t h _
  · rfl

theorem makeFile_eq_some (h : t.makeFile p = some t') :
    t' = t.insert p (.file "") ∧ t.isDirectory p = false := by
  unfold makeFile at h
  split at h
  · rename_i hp
    simp only [Bool.and_eq_true, Bool.not_eq_true'] at hp
    exact ⟨(Option.some.inj h).symm, hp.2⟩
  · cases h

theorem isDirectory_eq_false_of_file {content : String} (h : t.get? p = some (.file content))
    (hp : p.climb ≠ []) : t.isDirectory p = false := by
  simp [isDirectory, h, hp]

theorem moveFile_of_file {content : String} (h : t.get? p = some (.file content))
    (hq : t.isDirectory q = false) :
    t.moveFile p q = some ((t.erase p).insert q (.file content)) := by
  simp [moveFile, h, hq]

theorem moveFile_eq_some (h : t.moveFile p q = some t') :
    ∃ content, t.get? p = some (.file content) ∧ t.isDirectory q = false ∧
      t' = (t.erase p).insert q (.file content) := by
  unfold moveFile at h
  split at h
  · rename_i content hp
    split at h
    · cases h
    · rename_i hq
      exact ⟨content, hp, by simpa using hq, (Option.some.inj h).symm⟩
  · cases h

/-- A text takes the place of a file: it is written under another name, and then it is moved. -/
theorem get?_replaced {t₁ t₂ : FileTree} {text : String} (hmade : t.makeFile p = some t₁)
    (hmoved : (t₁.append p text).moveFile p q = some t₂) :
    t₂.get? q = some (.file text) ∧
      ∀ r, r ≠ q → t₂.get? r = t.get? r ∨ (r = p ∧ t₂.get? r = none) := by
  obtain ⟨rfl, -⟩ := makeFile_eq_some hmade
  rw [append_of_file (SortedMap.get?_insert_self _ _ _), String.empty_append] at hmoved
  obtain ⟨content, hcontent, -, rfl⟩ := moveFile_eq_some hmoved
  rw [SortedMap.get?_insert_self] at hcontent
  cases hcontent
  refine ⟨SortedMap.get?_insert_self _ _ _, fun r hr => ?_⟩
  rw [SortedMap.get?_insert_of_ne _ hr, SortedMap.get?_erase]
  by_cases hp : r = p
  · exact .inr ⟨hp, if_pos hp⟩
  · left
    rw [if_neg hp, SortedMap.get?_insert_of_ne _ hp, SortedMap.get?_insert_of_ne _ hp]

theorem get?_insert_directories (l : List Path) (t : FileTree) (q : Path) :
    (l.foldl (fun t p => t.insert p .directory) t).get? q =
      if q ∈ l then some .directory else t.get? q := by
  induction l generalizing t with
  | nil => simp
  | cons p rest ih =>
    rw [List.foldl_cons, ih, SortedMap.get?_insert]
    by_cases h : q ∈ rest
    · simp [h]
    · by_cases hq : q = p <;> simp [h, hq]

/-- Directories are made where there were no files. -/
theorem makeDirectories_eq_some (h : t.makeDirectories p = some t') :
    ∀ q, t'.get? q = t.get? q ∨ (t.isFile q = false ∧ t'.get? q = some .directory) := by
  unfold makeDirectories at h
  split at h
  · cases h
  · rename_i hp
    intro q
    obtain rfl := Option.some.inj h
    rw [get?_insert_directories]
    simp only [Bool.or_eq_true, not_or, Bool.not_eq_true, List.any_eq_false] at hp
    split
    · rename_i hq
      exact .inr ⟨by simpa using hp.2 q hq, rfl⟩
    · exact .inl rfl

theorem file_makeDirectories (h : t.makeDirectories p = some t') {content : String} :
    t'.get? q = some (.file content) ↔ t.get? q = some (.file content) := by
  rcases makeDirectories_eq_some h q with hq | ⟨hfile, hq⟩
  · rw [hq]
  · constructor
    · intro h'
      rw [hq] at h'
      cases h'
    · intro h'
      rw [isFile_of_get? h'] at hfile
      cases hfile

end FileTree

end GraphExport
