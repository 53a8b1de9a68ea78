import GraphExport.Proofs.Job.Plans
import GraphExport.Proofs.Job.Tables

/-!
# GraphExport.Proofs.Job.Finished

What a job that has finished leaves in its output directory.

* `writeArtifact_ok`, `Job.writeArtifacts_ok`: the artifacts do not touch the data files.
* `Leaves.inOutput`: what a job leaves where it works, it leaves in its output directory.
* `ExportJob.leaves_tables`: both jobs leave tables, in every order of their workers' steps.
-/

namespace GraphExport

/-- Writing an artifact touches no other file, but for the one whose name it has for a while. -/
theorem writeArtifact_ok {path : Path} {v : Json} {t t' : FileTree}
    (h : writeArtifact path v t = (.ok (), t')) {q : Path} (hq : q ≠ path) :
    t'.get? q = t.get? q ∨ (q = path.temporary ∧ t'.get? q = none) := by
  unfold writeArtifact at h
  simp only at h
  split at h
  · cases h
  · rename_i t₁ ht₁
    split at h
    · cases h
    · rename_i t₂ ht₂
      cases h
      exact (FileTree.get?_replaced ht₁ ht₂).2 q hq

theorem Job.writeArtifacts_ok {dir : Path} {schema : GraphSchema} {stats : Stats} {t t' : FileTree}
    (h : Job.writeArtifacts dir schema stats t = (.ok (), t')) {q : Path}
    (hschema : q ≠ dir.child "schema.json") (hstats : q ≠ dir.child "stats.json") :
    t'.read? q = t.read? q ∨ ((∃ name, q = dir.child name) ∧ t'.read? q = none) := by
  unfold Job.writeArtifacts at h
  split at h
  · cases h
  · rename_i t₁ ht₁
    rcases writeArtifact_ok h hstats with heq | ⟨hq, hnone⟩
    · rcases writeArtifact_ok ht₁ hschema with heq' | ⟨hq, hnone⟩
      · exact .inl (FileTree.read?_congr (heq.trans heq'))
      · refine .inr ⟨⟨_, hq.trans (Path.temporary_child dir _)⟩, ?_⟩
        rw [FileTree.read?, heq, hnone]
    · refine .inr ⟨⟨_, hq.trans (Path.temporary_child dir _)⟩, ?_⟩
      rw [FileTree.read?, hnone]

/-- What a job leaves in a directory. The data files named by `left` have the texts that it gives
them, and any other file, but for the artifacts, was there before and is as it was. -/
structure Leaves (place : Path) (left : DataFile → String → Prop) (t t' : FileTree) : Prop where
  file : ∀ {f text}, left f text → t'.read? (f.path place) = some text
  others : ∀ q text, (∀ f text', left f text' → f.path place ≠ q) → q ≠ place.child "schema.json" →
    q ≠ place.child "stats.json" → t'.read? q = some text → t.read? q = some text

section Jobs

variable {client : Client} {c : Config} {left : DataFile → String → Prop} {t t₁ t' : FileTree}

theorem DataFile.path_ne_child (dir : Path) (f : DataFile) (name : String) :
    f.path dir ≠ dir.child name := by
  intro h
  have := congrArg (fun p => p.climb.length) h
  simp [DataFile.path] at this

theorem Writes.leaves {dir : Path} {schema : GraphSchema} {stats : Stats}
    (h : Writes dir left t t₁)
    (hartifacts : Job.writeArtifacts dir schema stats t₁ = (.ok (), t')) :
    Leaves dir left t t' where
  file {f text} hf := by
    rcases Job.writeArtifacts_ok hartifacts (f.path_ne_child dir _) (f.path_ne_child dir _) with
      heq | ⟨⟨name, hname⟩, -⟩
    · rw [heq, h.file hf]
    · exact absurd hname (f.path_ne_child dir name)
  others q text hq hschema hstats htext := by
    rcases Job.writeArtifacts_ok hartifacts hschema hstats with heq | ⟨-, hnone⟩
    · rw [heq] at htext
      rcases h.frame q hq with heq' | ⟨-, hnone⟩
      · rw [← heq', htext]
      · rw [hnone] at htext
        cases htext
    · rw [hnone] at htext
      cases htext

/-- What a job leaves in the directory that it sees, it leaves in its output directory. -/
theorem Leaves.inOutput {dir place : Path} {view inside : FileTree}
    (h : Leaves dir left view inside)
    (hview : ∀ q, q.climb ≠ [] → view.read? (dir.join q) = t.read? (place.join q))
    (hafter : ∀ q, q.climb ≠ [] → t'.read? (place.join q) = inside.read? (dir.join q))
    (hframe : ∀ p, (∀ q, q.climb ≠ [] → p ≠ place.join q) → t'.read? p = t.read? p) :
    Leaves place left t t' := by
  have hchild : ∀ (p : Path) (name : String), p.child name = p.join ⟨[name], 1, rfl⟩ :=
    fun p name => Path.ext_climb rfl
  refine ⟨fun {f text} hf => ?_, fun q text hq hschema hstats htext => ?_⟩
  · rw [DataFile.path_eq_join, hafter _ (by simp), ← DataFile.path_eq_join]
    exact h.file hf
  · by_cases hbelow : ∃ r : Path, r.climb ≠ [] ∧ q = place.join r
    · obtain ⟨r, hr, rfl⟩ := hbelow
      rw [← hview r hr]
      rw [hafter r hr] at htext
      refine h.others _ text (fun f text' hf heq => hq f text' hf ?_) (fun heq => hschema ?_)
        (fun heq => hstats ?_) htext
      · rw [DataFile.path_eq_join] at heq
        rw [← Path.join_inj heq, DataFile.path_eq_join]
      · rw [hchild] at heq
        rw [Path.join_inj heq, hchild]
      · rw [hchild] at heq
        rw [Path.join_inj heq, hchild]
    · rw [← hframe q fun r hr heq => hbelow ⟨r, hr, heq⟩]
      exact htext

theorem FullExport.leaves_work {turns : ElementKind → Turns} {dir : Path} {summary : Summary}
    (hformat : c.format = .csv) (hvalid : c.validate = .ok ())
    (h : FullExport.work client c turns dir t = (.ok summary, t')) :
    ∃ left, TablesOf summary.schema left ∧ Leaves dir left t t' := by
  obtain ⟨hnodes, hedges⟩ := Config.kinds_of_validate hvalid
  obtain ⟨shared, hall, hartifacts, -⟩ := FullExport.work_ok h
  obtain ⟨left, htables, hwrites⟩ := FullExport.tables_exportAll hformat hnodes hedges hall
  exact ⟨left, htables, hwrites.leaves hartifacts⟩

theorem QueryExport.leaves_work {groups : List NamedQueries} {structured split : Bool}
    {turns : List Nat} {dir : Path} {summary : Summary} (hformat : c.format = .csv)
    (h : QueryExport.work client c groups structured split turns dir t = (.ok summary, t')) :
    ∃ left, TablesOf summary.schema left ∧ Leaves dir left t t' := by
  unfold QueryExport.work at h
  split at h
  · cases h
  · simp only at h
    split at h
    · cases h
    · rename_i fragments shared hdrain
      split at h
      · cases h
      · rename_i schema t₁ hkinds
        split at h
        · cases h
        · rename_i t₂ hartifacts
          cases h
          rw [hformat] at hkinds
          obtain ⟨left, htables, hwrites⟩ := QueryExport.tables_drain hformat hdrain hkinds
          exact ⟨left, htables, hwrites.leaves hartifacts⟩

end Jobs

/-- The two jobs, with the orders in which their workers take their first steps. -/
inductive ExportJob where
  | full (turns : ElementKind → Turns)
  | queries (groups : List NamedQueries) (structured split : Bool) (turns : List Nat)

def ExportJob.run (client : Client) (c : Config) :
    ExportJob → FileTree → Except Failure Summary × FileTree
  | .full turns => FullExport.runWith client c turns
  | .queries groups structured split turns =>
    QueryExport.runWith client c groups structured split turns

/-- A job that ends well leaves tables under the headers of the schema that it returns, whatever the
source answers, however its workers share the work and however few files may be open at a time. -/
theorem ExportJob.leaves_tables {client : Client} {c : Config} {job : ExportJob} {t t' : FileTree}
    {summary : Summary} (hformat : c.format = .csv)
    (h : job.run client c t = (.ok summary, t')) :
    ∃ place t₁ left, t.openWay c.dir = some (place, t₁) ∧ Leaves place left t t' ∧
      TablesOf summary.schema left := by
  have hwork : ∃ work : Path → FileTree → Except Failure Summary × FileTree,
      Job.inOutput c.dir t work = (.ok summary, t') ∧ ∀ {dir view inside},
        work dir view = (.ok summary, inside) →
          ∃ left, TablesOf summary.schema left ∧ Leaves dir left view inside := by
    cases job with
    | full turns =>
      simp only [ExportJob.run, FullExport.runWith] at h
      split at h
      · cases h
      · rename_i hvalid
        exact ⟨_, h, fun hinside => FullExport.leaves_work hformat hvalid hinside⟩
    | queries groups structured split turns =>
      simp only [ExportJob.run, QueryExport.runWith] at h
      split at h
      · cases h
      · exact ⟨_, h, fun hinside => QueryExport.leaves_work hformat hinside⟩
  obtain ⟨work, hrun, hleaves⟩ := hwork
  obtain ⟨place, t₁, view, inside, hway, hinside, hview, hafter, hframe⟩ := Job.inOutput_ok hrun
  obtain ⟨left, htables, hinner⟩ := hleaves hinside
  exact ⟨place, t₁, left, hway, hinner.inOutput hview hafter hframe, htables⟩

def unevenNodes : List Element :=
  ["a", "b", "c"].map fun id =>
    .node { id, tags := ["t"], properties := .ofList [(id, .str "x")] }

/-- Two workers that share one file handle write three nodes. -/
theorem ExportJob.leaves_tables_uneven_nodes :
    let client := Client.scripted none unevenNodes [] []
    let windows : WindowSettings := { width := 1, approxNodes := some 1000, approxEdges := some 1 }
    let c : Config := { dir := ⟨.ofNames [], ["out"]⟩, workers := 2, maxHandles := 1, windows }
    let job := ExportJob.full fun _ => { write := [0, 1, 0, 1, 0, 1, 1, 0, 0, 1, 0, 1] }
    ∃ summary t', job.run client c ∅ = (.ok summary, t') ∧
      t'.read? (.ofNames ["out", "nodes", "t-1.csv"]) =
        some "~id,~label,a:String,c:String,b:String\na,t,x,,\nc,t,,x,\n" ∧
      ∃ place t₁ left, FileTree.openWay ∅ c.dir = some (place, t₁) ∧ Leaves place left ∅ t' ∧
        TablesOf summary.schema left := by
  intro client windows c job
  have hok : (job.run client c ∅).1.toOption.isSome = true := by decide +kernel
  have htext : (job.run client c ∅).2.read? (.ofNames ["out", "nodes", "t-1.csv"]) =
      some "~id,~label,a:String,c:String,b:String\na,t,x,,\nc,t,,x,\n" := by decide +kernel
  rcases hrun : job.run client c ∅ with ⟨result, t'⟩
  rw [hrun] at hok htext
  cases result with
  | error f => cases hok
  | ok summary => exact ⟨summary, t', rfl, htext, leaves_tables rfl hrun⟩

end GraphExport
