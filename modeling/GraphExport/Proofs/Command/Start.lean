import GraphExport.Command.Outcome
import GraphExport.Proofs.Job.Output

/-!
# GraphExport.Proofs.Command.Start

Commands that cannot start: an input cannot be read, or the settings do not work together. Only the
removal of an earlier output comes before that, where the command line asks for it.

* `JobOrder.CannotStart`: what keeps a job from starting, with the failure that comes of it.
* `FileTree.get?_removeDirectory`, `FileTree.get?_removeDirectory_of_not_below`: what goes with a
  directory, and that nothing else does.
* `JobOrder.run_cannotStart`: such a job ends with that failure, and does nothing to the files.
* `JobOrder.failed_start`: the files after a command that could not start.
* `JobOrder.failed_start_cleaned`: an earlier output that such a command removed.
-/

namespace GraphExport

namespace FileTree

/-- What is below a directory goes with it. -/
theorem get?_removeDirectory (t : FileTree) (r : Route) (p : Path) {q : Path} (hq : q.climb ≠ []) :
    (t.removeDirectory r p).2.get? (p.join q) = none := by
  have hclear := t.get?_clear p hq
  unfold removeDirectory
  dsimp only
  split
  · exact hclear
  · split
    · rw [SortedMap.get?_erase, hclear, ite_self]
    · exact hclear

/-- What is neither the directory nor below it stays. -/
theorem get?_removeDirectory_of_not_below (t : FileTree) (r : Route) {p s : Path}
    (hs : ∀ q, s ≠ p.join q) : (t.removeDirectory r p).2.get? s = t.get? s := by
  have hclear := t.get?_clear_of_not_below fun q _ => hs q
  have hp : s ≠ p := by
    intro heq
    exact hs (.ofNames []) (heq.trans (Path.ext_climb rfl))
  unfold removeDirectory
  dsimp only
  split
  · exact hclear
  · split
    · rw [SortedMap.get?_erase, if_neg hp, hclear]
    · exact hclear

end FileTree

namespace JobOrder

/-- The files as the job finds them: without an earlier output, if that is to be removed. -/
def cleaned (o : JobOrder) (t : FileTree) : Except Failure Unit × FileTree :=
  if o.clean then o.removeOutput t else (.ok (), t)

/-- The job that a command asks for cannot start: the dump or the named queries cannot be read, or
the settings are rejected. -/
inductive CannotStart (unzip : Decompressor) (o : JobOrder) (t : FileTree) : Verb → Failure → Prop
  | dump {verb : Verb} {f : Failure} (hdump : Graph.load unzip o.input t = .error f) :
      CannotStart unzip o t verb f
  | queries {g : Graph} {f : Failure} (hdump : Graph.load unzip o.input t = .ok g)
      (hqueries : NamedQueries.load o.queries t = .error f) : CannotStart unzip o t .queries f
  | settings {g : Graph} {f : Failure} (hdump : Graph.load unzip o.input t = .ok g)
      (hconfig : o.config.validate = .error f) : CannotStart unzip o t .graph f
  | querySettings {g : Graph} {groups : List NamedQueries} {f : Failure}
      (hdump : Graph.load unzip o.input t = .ok g)
      (hqueries : NamedQueries.load o.queries t = .ok groups)
      (hconfig : o.config.validateForQueries o.structured = .error f) :
      CannotStart unzip o t .queries f

variable {unzip : Decompressor} {o : JobOrder} {verb : Verb} {t : FileTree} {f : Failure}

theorem prepare_eq (h : (o.cleaned t).1 = .ok ()) :
    o.prepare unzip t = (Graph.load unzip o.input (o.cleaned t).2, (o.cleaned t).2) := by
  unfold cleaned at h ⊢
  rw [prepare]
  dsimp only
  rw [h]

/-- A job that cannot start ends with the failure that keeps it from that. Nothing is done to the
files that it finds. -/
theorem run_cannotStart (hclean : (o.cleaned t).1 = .ok ())
    (h : o.CannotStart unzip (o.cleaned t).2 verb f) :
    o.run unzip verb t = (.error f, (o.cleaned t).2) := by
  rw [run, prepare_eq hclean]
  cases h with
  | dump hdump => rw [hdump]
  | queries hdump hqueries => simp only [hdump, hqueries]
  | settings hdump hconfig => simp only [hdump, FullExport.run, FullExport.runWith, hconfig]
  | querySettings hdump hqueries hconfig =>
    simp only [hdump, hqueries, QueryExport.run, QueryExport.runWith, hconfig]

theorem runCommand_cannotStart {here : Path} {args : List String}
    (hargs : Request.ofArguments here args = .ok (.job verb o))
    (hclean : (o.cleaned t).1 = .ok ()) (h : o.CannotStart unzip (o.cleaned t).2 verb f) :
    runCommand unzip here args t = (.failed f, (o.cleaned t).2) := by
  rw [runCommand, hargs]
  simp only [Request.run, run_cannotStart hclean h]

/-- Nothing is removed where nothing is to be cleaned, or where there is nothing. -/
theorem cleaned_of_nothing (h : o.clean = true → t.reach? o.config.dir = none) :
    o.cleaned t = (.ok (), t) := by
  unfold cleaned
  split
  · rename_i hclean
    simp only [removeOutput, h hclean]
  · rfl

theorem cleaned_of_directory (hclean : o.clean = true) {p : Path}
    (hp : t.reach? o.config.dir = some (p, .directory)) :
    (o.cleaned t).2 = (t.removeDirectory o.config.dir p).2 := by
  rw [cleaned, if_pos hclean]
  simp only [removeOutput, hp]
  rcases t.removeDirectory o.config.dir p with ⟨_ | _, t'⟩ <;> rfl

/-- A command whose job cannot start fails for that reason. All files are left as they were, except
that a command which is to clean the output directory has removed it before. Then what was in it is
gone, and everything outside it is as it was. -/
theorem failed_start {here : Path} {args : List String}
    (hargs : Request.ofArguments here args = .ok (.job verb o))
    (hclean : (o.cleaned t).1 = .ok ()) (h : o.CannotStart unzip (o.cleaned t).2 verb f) :
    let outcome := runCommand unzip here args t
    outcome.1 = .failed f ∧
      ((o.clean = true → t.reach? o.config.dir = none) → outcome.2 = t) ∧
      ∀ p, o.clean = true → t.reach? o.config.dir = some (p, .directory) →
        (∀ q, q.climb ≠ [] → outcome.2.get? (p.join q) = none) ∧
        ∀ s, (∀ q, s ≠ p.join q) → outcome.2.get? s = t.get? s := by
  intro outcome
  have houtcome : outcome = (.failed f, (o.cleaned t).2) := runCommand_cannotStart hargs hclean h
  rw [houtcome]
  refine ⟨rfl, fun hnothing => ?_, fun p hset hp => ?_⟩
  · rw [cleaned_of_nothing hnothing]
  · rw [cleaned_of_directory hset hp]
    exact ⟨fun q hq => t.get?_removeDirectory _ p hq,
      fun s hs => t.get?_removeDirectory_of_not_below _ hs⟩

/-- A job of no width over a compressed dump leaves an earlier output alone. -/
theorem failed_start_no_width :
    let here := Path.ofNames []
    let args := ["export-pg", "-i", "g.json.bz2", "-o", "out", "--range-size", "0"]
    let compressed := "BZh91AY\x26SY\x1f\xa6\x5d\x88\x00\x00\x00\x02" ++
      "\x00\x00\x0a\x20\x00\x21\x00\x82\xb1w\x24S\x85\x09\x01\xfae\xd8\x80"
    let unzip : Decompressor := fun s => if s = compressed then some "[]" else none
    let t : FileTree := .ofList [(.ofNames ["g.json.bz2"], .file compressed),
      (.ofNames ["out"], .directory), (.ofNames ["out", "schema.json"], .file "")]
    ∃ o f, Request.ofArguments here args = .ok (.job .graph o) ∧ (o.cleaned t).1 = .ok () ∧
      o.CannotStart unzip (o.cleaned t).2 .graph f ∧
      (runCommand unzip here args t).1 = .failed f ∧ (runCommand unzip here args t).2 = t := by
  intro here args compressed unzip t
  let o : JobOrder :=
    { seen := [.width, .output, .input], here, input := ⟨here, ["g.json.bz2"]⟩,
      config := { dir := ⟨here, ["out"]⟩, windows := { width := 0 } } }
  have hargs : Request.ofArguments here args = .ok (.job .graph o) :=
    eq_ok_of_toOption (by decide +kernel)
  have hload : (Graph.load unzip o.input t).toOption.isSome = true := by decide +kernel
  obtain ⟨g, hg⟩ := Option.isSome_iff_exists.1 hload
  have hstart : o.CannotStart unzip (o.cleaned t).2 .graph (Cause.config (.windowWidth 0)) :=
    .settings (eq_ok_of_toOption hg) rfl
  obtain ⟨hfailed, hsame, -⟩ := failed_start hargs rfl hstart
  exact ⟨o, _, hargs, rfl, hstart, hfailed, hsame fun hclean => by cases hclean⟩

/-- A mistyped dump costs an earlier output, if the command is to clean the directory. -/
theorem failed_start_cleaned :
    let here := Path.ofNames []
    let args := ["export-pg", "-i", "g.json", "-o", "out", "--clean"]
    let unzip : Decompressor := fun _ => none
    let t : FileTree := .ofList [(.ofNames ["out"], .directory),
      (.ofNames ["out", "schema.json"], .file "")]
    ∃ f, (runCommand unzip here args t).1 = .failed f ∧
      f = ⟨.io, ["Failed to open graph dump: g.json"]⟩ ∧
      t.get? (.ofNames ["out", "schema.json"]) = some (.file "") ∧
      (runCommand unzip here args t).2.get? (.ofNames ["out", "schema.json"]) = none := by
  intro here args unzip t
  let o : JobOrder :=
    { seen := [.clean, .output, .input], here, input := ⟨here, ["g.json"]⟩,
      config := { dir := ⟨here, ["out"]⟩ }, clean := true }
  have hargs : Request.ofArguments here args = .ok (.job .graph o) :=
    eq_ok_of_toOption (by decide +kernel)
  have hcleaned : (o.cleaned t).1 = .ok () := eq_ok_of_toOption (by decide +kernel)
  have hmissing : (o.cleaned t).2.open? o.input = none := by decide +kernel
  have hdump : Graph.load unzip o.input (o.cleaned t).2 =
      .error ⟨.io, ["Failed to open graph dump: g.json"]⟩ := by
    rw [Graph.load, hmissing]
    rfl
  rw [runCommand_cannotStart hargs hcleaned (.dump hdump)]
  exact ⟨_, rfl, rfl, by decide +kernel, by decide +kernel⟩

end JobOrder

end GraphExport
