import GraphExport.Proofs.Output.Ledger
import GraphExport.Proofs.Output.Names
import GraphExport.Proofs.Output.Request

/-!
# GraphExport.Proofs.Output.Created

The files that the factories of a job make, of any kinds and formats and in any order. A number
that is never used again tells them apart, whatever is left of their labels.

* `IsFileName`, `LabelWriter.isFileName_fileNameOf`: what the name of a file is made of.
* `LabelWriter.IsNumbered`: where the file with a number is. Files with different numbers are apart
  (`IsNumbered.text_ne`), and no file is the temporary one of another (`text_ne_temporary`).
* `FactoryAct.made`: the files made in the course of a job. `FactoryAct.numbered_made` and
  `FactoryAct.pairwise_made` are the invariant of a run.
* `LabelWriter.created_apart`: all files that are ever made are apart, and in their directories.
-/

namespace GraphExport

/-- A name of letters, digits, `_` and `-`, and an extension of such letters behind the one dot. -/
def IsFileName (name : String) : Prop :=
  ∃ stem extension : String, name = stem ++ "." ++ extension ∧ stem ≠ "" ∧ extension ≠ "" ∧
    ∀ c ∈ (stem ++ extension).toList, c.isAlphanum = true ∨ c = '_' ∨ c = '-'

/-! ## Names -/

theorem isFileSafe_of_mem_fileSafe {s : List Char} {c : Char} (h : c ∈ fileSafe s) :
    isFileSafe c = true := by
  fun_induction fileSafe s with
  | case1 => cases h
  | case2 d rest hd ih =>
    rcases List.mem_cons.1 h with rfl | h
    · exact hd
    · exact ih h
  | case3 d hd =>
    rw [List.mem_singleton.1 h]
    decide
  | case4 d hd e rest he ih =>
    rcases List.mem_cons.1 h with rfl | h
    · decide
    · exact ih h
  | case5 d hd e rest he ih => exact ih h

theorem Label.fileName_ne_empty (l : Label) : l.fileName ≠ "" := by
  unfold Label.fileName
  dsimp only
  split
  · decide
  · assumption

theorem Label.isFileSafe_of_mem_fileName {l : Label} {c : Char} (h : c ∈ l.fileName.toList) :
    isFileSafe c = true := by
  unfold Label.fileName at h
  dsimp only at h
  split at h
  · have hall : ("unlabelled" : String).toList.all isFileSafe = true := by decide
    exact List.all_eq_true.1 hall c h
  · rw [String.toList_ofList] at h
    exact isFileSafe_of_mem_fileSafe h

theorem IsFileName.slash_not_mem {name : String} (h : IsFileName name) : '/' ∉ name.toList := by
  obtain ⟨stem, extension, rfl, -, -, hsafe⟩ := h
  intro hslash
  have hdot : ("." : String).toList = ['.'] := by decide
  simp only [String.toList_append, hdot, List.mem_append, List.mem_singleton] at hslash hsafe
  rcases hslash with (hslash | hslash) | hslash
  · exact absurd (hsafe _ (.inl hslash)) (by decide)
  · exact absurd hslash (by decide)
  · exact absurd (hsafe _ (.inr hslash)) (by decide)

/-- The text of a path tells the last name. -/
theorem Path.eq_of_text_child_eq {p q : Path} (hp : p.climb ≠ []) (hq : q.climb ≠ [])
    {m n : String} (hm : '/' ∉ m.toList) (hn : '/' ∉ n.toList)
    (h : (p.child m).text = (q.child n).text) : m = n := by
  have hslash : ("/" : String).toList = ['/'] := by decide
  have hlist := congrArg String.toList h
  rw [text_child hp, text_child hq] at hlist
  simp only [String.toList_append, hslash, List.append_assoc, List.singleton_append] at hlist
  exact String.toList_injective (eq_of_append_cons_eq hm hn hlist)

namespace LabelWriter

theorem isFileSafe_of_mem_extension {format : Format} {c : Char}
    (h : c ∈ format.extension.toList) : isFileSafe c = true := by
  have hall : format.extension.toList.all isFileSafe = true := by cases format <;> decide
  exact List.all_eq_true.1 hall c h

theorem isFileName_fileNameOf (label : Label) (n : Nat) (format : Format) :
    IsFileName (fileNameOf label n format) := by
  refine ⟨label.fileName ++ "-" ++ toString n, format.extension, rfl, ?_, ?_, fun c hc => ?_⟩
  · simp [label.fileName_ne_empty]
  · cases format <;> decide
  · have hdash : ("-" : String).toList = ['-'] := by decide
    have hsafe : isFileSafe c = true := by
      simp only [String.toList_append, hdash, List.mem_append, List.mem_singleton] at hc
      rcases hc with ((hc | rfl) | hc) | hc
      · exact Label.isFileSafe_of_mem_fileName hc
      · decide
      · have hdigits : c ∈ Nat.toDigits 10 n := by simpa using hc
        have hdigit := Nat.isDigit_of_mem_toDigits (by decide) (by decide) hdigits
        simp [isFileSafe, Char.isAlphanum, hdigit]
      · exact isFileSafe_of_mem_extension hc
    simpa [isFileSafe, or_assoc] using hsafe

/-! ## Where files are -/

/-- The writer is at the place of the file with a number. -/
def IsNumbered (dir : Path) (n : Nat) (w : LabelWriter) : Prop :=
  w.path = (dir.child w.kind.name).child (fileNameOf w.label n w.format)

namespace IsNumbered

variable {dir : Path} {m n : Nat} {w w' : LabelWriter}

/-- Files with different numbers are apart, of whatever kind and label they are. -/
theorem text_ne (h : IsNumbered dir m w) (h' : IsNumbered dir n w') (hne : m ≠ n) :
    w.path.text ≠ w'.path.text := by
  intro heq
  rw [h, h'] at heq
  have hname := Path.eq_of_text_child_eq (by simp) (by simp)
    (isFileName_fileNameOf w.label m w.format).slash_not_mem
    (isFileName_fileNameOf w'.label n w'.format).slash_not_mem heq
  exact hne (fileNameOf_inj hname)

/-- A file is not where another one, or the same, is written before it takes its place. -/
theorem text_ne_temporary (h : IsNumbered dir m w) (h' : IsNumbered dir n w') :
    w.path.text ≠ w'.path.temporary.text := by
  intro heq
  rw [h, h', Path.temporary_child] at heq
  have htmp : '/' ∉ (fileNameOf w'.label n w'.format ++ ".tmp").toList := by
    rw [String.toList_append, List.mem_append, not_or]
    exact ⟨(isFileName_fileNameOf w'.label n w'.format).slash_not_mem, by decide⟩
  exact fileNameOf_ne_temporary _ _ _ _ (Path.eq_of_text_child_eq (by simp) (by simp)
    (isFileName_fileNameOf w.label m w.format).slash_not_mem htmp heq)

end IsNumbered

/-- A new file has the next number, and the kind, the format and the label that were asked for. -/
theorem numbered_create {dir : Path} {format : Format} {kind : OutputKind} {label : Label}
    {seed : Option LabelSchema} {d d' : Disk} {w : LabelWriter}
    (h : create dir format kind label seed d = (.ok w, d')) :
    w.IsNumbered dir (d.filesNamed + 1) ∧ w.kind = kind ∧ w.format = format ∧ w.label = label := by
  have hfile := (create_start h).1
  obtain ⟨-, hkind, hlabel⟩ := create_ok_fields h
  have hformat : w.format = format := congrArg FileSchema.format hfile
  have hpath := congrArg FileSchema.path hfile
  refine ⟨?_, hkind, hformat, hlabel⟩
  rw [IsNumbered, hkind, hformat, hlabel]
  exact hpath

/-- Whatever file appears or changes as a file is asked for, it is the file of the new writer. -/
theorem eq_path_of_create {dir : Path} {format : Format} {kind : OutputKind} {label : Label}
    {seed : Option LabelSchema} {d d' : Disk} {result : Except Failure LabelWriter}
    (hcreate : create dir format kind label seed d = (result, d')) {q : Path} {content : String}
    (h : d'.tree.get? q = some (.file content)) (hnew : d.tree.get? q ≠ some (.file content)) :
    ∃ w, result = .ok w ∧ w.path = q := by
  cases result with
  | error f => exact absurd (((create_error_files hcreate).1 q content).1 h) hnew
  | ok w =>
    obtain ⟨-, -, -, hothers⟩ := create_start hcreate
    by_cases hq : q = w.path
    · exact ⟨w, rfl, hq.symm⟩
    · exact absurd ((hothers q content hq).1 h) hnew

end LabelWriter

/-! ## The course of a job -/

/-- What happens to the disk of a job: one of its factories is asked for a file, or something else
is done to the files and handles, which gives no file a number. -/
inductive FactoryAct where
  | create (format : Format) (kind : OutputKind) (label : Label) (seed : Option LabelSchema)
  | other (tree : FileTree) (budget : HandleBudget)

namespace FactoryAct

def run (dir : Path) : FactoryAct → Disk → Option LabelWriter × Disk
  | .create format kind label seed, d =>
    match LabelWriter.create dir format kind label seed d with
    | (.ok w, d') => (some w, d')
    | (.error _, d') => (none, d')
  | .other tree budget, d => (none, { d with tree, budget })

/-- The writers that come of acts in a row, in the order in which they are made. -/
def made (dir : Path) : List FactoryAct → Disk → List LabelWriter
  | [], _ => []
  | a :: rest, d => (a.run dir d).1.toList ++ made dir rest (a.run dir d).2

variable {dir : Path}

theorem filesNamed_run (a : FactoryAct) (d : Disk) : d.filesNamed ≤ (a.run dir d).2.filesNamed := by
  cases a with
  | create format kind label seed =>
    rw [run]
    rcases hcreate : LabelWriter.create dir format kind label seed d with ⟨f | w, d'⟩
    · exact (LabelWriter.create_error_files hcreate).2
    · have hnamed := (LabelWriter.create_start hcreate).2.1
      dsimp only
      omega
  | other tree budget => exact Nat.le_refl _

/-- A file gets a number that is used up with it. -/
theorem numbered_run {a : FactoryAct} {d : Disk} {w : LabelWriter} (h : (a.run dir d).1 = some w) :
    ∃ n, d.filesNamed < n ∧ n ≤ (a.run dir d).2.filesNamed ∧ w.IsNumbered dir n := by
  cases a with
  | create format kind label seed =>
    rw [run] at h ⊢
    rcases hcreate : LabelWriter.create dir format kind label seed d with ⟨f | v, d'⟩
    · rw [hcreate] at h
      cases h
    · rw [hcreate] at h
      cases h
      have hnamed := (LabelWriter.create_start hcreate).2.1
      exact ⟨d.filesNamed + 1, Nat.lt_succ_self _, hnamed.ge,
        (LabelWriter.numbered_create hcreate).1⟩
  | other tree budget => cases h

/-- All files that are made have numbers which were not used before. -/
theorem numbered_made {acts : List FactoryAct} {d : Disk} {w : LabelWriter}
    (h : w ∈ made dir acts d) : ∃ n, d.filesNamed < n ∧ w.IsNumbered dir n := by
  induction acts generalizing d with
  | nil => cases h
  | cons a rest ih =>
    rcases List.mem_append.1 h with hfirst | hrest
    · obtain ⟨n, hlt, -, hn⟩ := numbered_run (Option.mem_toList.1 hfirst)
      exact ⟨n, hlt, hn⟩
    · obtain ⟨n, hlt, hn⟩ := ih hrest
      exact ⟨n, Nat.lt_of_le_of_lt (filesNamed_run a d) hlt, hn⟩

theorem pairwise_made (acts : List FactoryAct) (d : Disk) :
    (made dir acts d).Pairwise fun w w' => w.path.text ≠ w'.path.text := by
  induction acts generalizing d with
  | nil => exact List.Pairwise.nil
  | cons a rest ih =>
    refine List.pairwise_append.2 ⟨?_, ih _, fun w hw w' hw' => ?_⟩
    · cases (a.run dir d).1 with
      | none => exact List.Pairwise.nil
      | some w => exact List.pairwise_singleton _ _
    · obtain ⟨m, -, hm, hnumber⟩ := numbered_run (Option.mem_toList.1 hw)
      obtain ⟨n, hn, hnumber'⟩ := numbered_made hw'
      exact hnumber.text_ne hnumber' (by omega)

end FactoryAct

namespace LabelWriter

/-- A factory that gives a writer has made its file, of the kind, the format and the label that were
asked for, and no other file appears or changes. In the course of a job, whatever else is done to
the files, each file that is made is directly in the directory of its kind, with a name of a few
harmless letters, and it is neither another one that is made nor the temporary place of one. -/
theorem created_apart (dir : Path) :
    (∀ (format : Format) (kind : OutputKind) (label : Label) (seed : Option LabelSchema)
        (d d' : Disk) (result : Except Failure LabelWriter),
      create dir format kind label seed d = (result, d') →
      (∀ w, result = .ok w → w.kind = kind ∧ w.format = format ∧ w.label = label ∧
        ∃ content, d'.tree.get? w.path = some (.file content)) ∧
      ∀ q content, d'.tree.get? q = some (.file content) →
        d.tree.get? q ≠ some (.file content) → ∃ w, result = .ok w ∧ w.path = q) ∧
    ∀ (acts : List FactoryAct) (d : Disk),
      (∀ w ∈ FactoryAct.made dir acts d,
        ∃ name, w.path = (dir.child w.kind.name).child name ∧ IsFileName name) ∧
      ((FactoryAct.made dir acts d).Pairwise fun w w' => w.path.text ≠ w'.path.text) ∧
      ∀ w ∈ FactoryAct.made dir acts d, ∀ w' ∈ FactoryAct.made dir acts d,
        w.path.text ≠ w'.path.temporary.text := by
  refine ⟨fun format kind label seed d d' result hcreate => ⟨fun w hw => ?_, fun q content h hnew =>
    eq_path_of_create hcreate h hnew⟩, fun acts d => ⟨fun w hw => ?_,
    FactoryAct.pairwise_made acts d, fun w hw w' hw' => ?_⟩⟩
  · rw [hw] at hcreate
    obtain ⟨-, -, hfile, -⟩ := create_start hcreate
    obtain ⟨-, hkind, hformat, hlabel⟩ := numbered_create hcreate
    exact ⟨hkind, hformat, hlabel, _, hfile⟩
  · obtain ⟨n, -, hn⟩ := FactoryAct.numbered_made hw
    exact ⟨fileNameOf w.label n w.format, hn, isFileName_fileNameOf w.label n w.format⟩
  · obtain ⟨m, -, hm⟩ := FactoryAct.numbered_made hw
    obtain ⟨n, -, hn⟩ := FactoryAct.numbered_made hw'
    exact hm.text_ne_temporary hn

/-- Labels of which the same is left in the names of their files. -/
theorem created_apart_similar_labels :
    let made := FactoryAct.made (.ofNames ["out"]) [.create .csv .nodes (.ofTags ["a b"]) none,
      .create .csv .nodes (.ofTags ["a_b"]) none, .create .json .edges (.ofTags ["a_b-1"]) none]
      ⟨∅, 0, { max := 0 }⟩
    made.map (·.path.text) =
        ["out/nodes/a_b-1.csv", "out/nodes/a_b-2.csv", "out/edges/a_b-1-3.json"] ∧
      made.Pairwise fun w w' => w.path.text ≠ w'.path.text :=
  ⟨by decide +kernel, ((created_apart (.ofNames ["out"])).2 _ _).2.1⟩

end LabelWriter

end GraphExport
