import GraphExport.Output.Writer

/-!
# GraphExport.Proofs.Output.Names

The names of files tell them apart: the number is the part between the last hyphen and the
extension, and no file of data has the name of a temporary one.
-/

namespace GraphExport

theorem toDigits_inj {m n : Nat} (h : Nat.toDigits 10 m = Nat.toDigits 10 n) : m = n := by
  have := congrArg (fun l => Nat.ofDigitChars 10 l 0) h
  simpa [Nat.ofDigitChars_toDigits] using this

/-- What comes after the last occurrence of an item. -/
theorem eq_of_append_cons_eq {α : Type} {a : α} {l m s t : List α} (hs : a ∉ s) (ht : a ∉ t)
    (h : l ++ a :: s = m ++ a :: t) : s = t := by
  rcases List.append_eq_append_iff.1 h with ⟨u, -, hu⟩ | ⟨u, -, hu⟩
  · cases u with
    | nil => simpa using hu
    | cons b u =>
      simp only [List.cons_append, List.cons.injEq] at hu
      exact absurd (by rw [hu.2]; simp) hs
  · cases u with
    | nil => simpa using hu.symm
    | cons b u =>
      simp only [List.cons_append, List.cons.injEq] at hu
      exact absurd (by rw [hu.2]; simp) ht

namespace LabelWriter

theorem toList_fileNameOf (label : Label) (n : Nat) (format : Format) :
    (fileNameOf label n format).toList =
      label.fileName.toList ++ '-' :: (Nat.toDigits 10 n ++ '.' :: format.extension.toList) := by
  have hdash : ("-" : String).toList = ['-'] := by decide
  have hdot : ("." : String).toList = ['.'] := by decide
  simp [fileNameOf, hdash, hdot]

theorem dot_not_mem_extension (format : Format) : '.' ∉ format.extension.toList := by
  cases format <;> decide

/-- The number of a file is a part of its name. -/
theorem fileNameOf_inj {label label' : Label} {m n : Nat} {format format' : Format}
    (h : fileNameOf label m format = fileNameOf label' n format') : m = n := by
  have hdash : ∀ (k : Nat) (format : Format),
      '-' ∉ Nat.toDigits 10 k ++ '.' :: format.extension.toList := by
    intro k format hk
    rcases List.mem_append.1 hk with hk | hk
    · have := Nat.isDigit_of_mem_toDigits (by decide) (by decide) hk
      exact absurd this (by decide)
    · cases format <;> exact absurd hk (by decide)
  have hlist := congrArg String.toList h
  rw [toList_fileNameOf, toList_fileNameOf] at hlist
  have hnumber := eq_of_append_cons_eq (hdash m format) (hdash n format') hlist
  rw [eq_of_append_cons_eq (dot_not_mem_extension format) (dot_not_mem_extension format')
    hnumber] at hnumber
  exact toDigits_inj (List.append_cancel_right hnumber)

theorem fileNameOf_ne_temporary (label label' : Label) (m n : Nat) {format format' : Format} :
    fileNameOf label m format ≠ fileNameOf label' n format' ++ ".tmp" := by
  intro h
  have htmp : (".tmp" : String).toList = '.' :: ['t', 'm', 'p'] := by decide
  have hlist := congrArg String.toList h
  rw [toList_fileNameOf, String.toList_append, htmp, ← List.cons_append,
    ← List.append_assoc] at hlist
  have hextension := eq_of_append_cons_eq (dot_not_mem_extension format) (by decide) hlist
  cases format <;> exact absurd hextension (by decide)

end LabelWriter

namespace Path

theorem child_inj {p q : Path} {m n : String} (h : p.child m = q.child n) : p = q ∧ m = n := by
  have hclimb := congrArg climb h
  simp only [child, List.cons.injEq] at hclimb
  exact ⟨ext_climb hclimb.2, hclimb.1⟩

@[simp] theorem climb_child (p : Path) (name : String) :
    (p.child name).climb = name :: p.climb := rfl

@[simp] theorem temporary_child (p : Path) (name : String) :
    (p.child name).temporary = p.child (name ++ ".tmp") := ext_climb rfl

theorem text_child {p : Path} (h : p.climb ≠ []) (name : String) :
    (p.child name).text = "/".intercalate p.climb.reverse ++ "/" ++ name := by
  have hclimb : ¬ ((p.child name).climb = [""]) := by
    intro heq
    rw [climb_child, List.cons.injEq] at heq
    exact h heq.2
  unfold text
  split
  · rename_i heq
    exact absurd heq hclimb
  · rw [climb_child, List.reverse_cons, String.intercalate_append_of_ne_nil (by simpa using h)
      (by simp), String.intercalate_singleton]

theorem text_child_inj {p : Path} (h : p.climb ≠ []) {m n : String}
    (heq : (p.child m).text = (p.child n).text) : m = n := by
  rw [text_child h, text_child h] at heq
  have := congrArg String.toList heq
  simp only [String.toList_append, List.append_cancel_left_eq, String.toList_inj] at this
  exact this

end Path

end GraphExport
