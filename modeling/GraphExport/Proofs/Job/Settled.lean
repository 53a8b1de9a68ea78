import GraphExport.Proofs.Job.Tables
import GraphExport.Proofs.Output.Settled

/-!
# GraphExport.Proofs.Job.Settled

Bringing the files of a job in line twice.

* `Job.WorkersLeft`: what the workers of a job leave, in both jobs and in every order of their
  steps. `Job.WorkersLeft.accounted`: they account for the files that they have written.
* `Job.reconcile_twice`: the second time no file changes, unless a name of a column holds a line
  feed. A file under such a name is never left alone.
-/

namespace GraphExport

/-- The workers of a phase of a full export, when each has gone on until it stopped. -/
def FullExport.workedOff (client : Client) (c : Config) (dir : Path) (filter : LabelFilter)
    (turns : List Nat) (plan : Plan) (seed : Option Collection) (shared : Shared) :
    Crew Plan Window Pool (PerKind Fragments) :=
  let duty := exportDuty client filter filter.kind
  let crew := Crew.start plan.workers (freshPool dir c.format filter.kind.output seed) plan
    { shared with progress := {} }
  (crew.play duty turns).finish duty plan.windowsLeft

theorem FullExport.writeKind_eq (client : Client) (c : Config) (dir : Path) (filter : LabelFilter)
    (turns : List Nat) (plan : Plan) (seed : Option Collection) (shared : Shared) :
    writeKind client c dir filter turns plan seed shared =
      let crew := workedOff client c dir filter turns plan seed shared
      match crew.results with
      | .error f => (.error f, crew.floor.shared)
      | .ok left =>
        let (result, tree) := Job.reconcileKind c.format filter.kind.output
          ("Failed to reconcile " ++ filter.kind.name ++ " files")
          (left.map (·.get filter.kind.output)) crew.floor.shared.disk.tree
        (result, { crew.floor.shared with disk := { crew.floor.shared.disk with tree } }) := rfl

/-- What the workers of a job leave once all have ended well: the fragments of each, and the files
as they are before they are brought in line. -/
inductive Job.WorkersLeft (client : Client) (c : Config) :
    List (PerKind Fragments) → FileTree → Prop
  | elements {dir : Path} {filter : LabelFilter} {turns : List Nat} {plan : Plan}
      {seed : Option Collection} {shared : Shared} {left : List (PerKind Fragments)}
      {crew : Crew Plan Window Pool (PerKind Fragments)}
      (hcrew : crew = FullExport.workedOff client c dir filter turns plan seed shared)
      (h : crew.results = .ok left) : WorkersLeft client c left crew.floor.shared.disk.tree
  | queries {dir : Path} {structured : Bool} {turns : List Nat} {queue : List NamedQuery}
      {disk : Disk} {left : List (PerKind Fragments)} {shared : Shared}
      (h : QueryExport.drain client c dir structured turns queue disk = (.ok left, shared)) :
      WorkersLeft client c left shared.disk.tree

namespace Job

variable {client : Client} {c : Config} {left : List (PerKind Fragments)} {written : FileTree}

/-- The workers of both jobs account for the files that they have written. -/
theorem WorkersLeft.accounted (h : WorkersLeft client c left written) (hformat : c.format = .csv) :
    ∃ dir kinds base shelves d, d.tree = written ∧ Shelved dir kinds base shelves d ∧
      (∀ (i : Nat) (fragments : PerKind Fragments), left[i]? = some fragments →
        ∀ kind, (fragments.get kind).Accounts dir (shelves i) kind) ∧
      ∀ i, left.length ≤ i → shelves i = Shelf.empty := by
  cases h with
  | @elements dir filter turns plan seed shared _ crew hcrew h =>
    unfold FullExport.workedOff at hcrew
    rw [hformat] at hcrew
    subst hcrew
    obtain ⟨shelves, hs, haccounts, hempty⟩ := Crew.accounts_of_finish h
      (writesFiles_export client filter filter.kind dir [filter.kind.output] shared.disk.tree)
      (FullExport.holds_freshPool dir filter.kind.output seed)
    exact ⟨_, _, _, shelves, _, rfl, hs, haccounts, hempty⟩
  | @queries dir structured turns queue disk _ shared h =>
    unfold QueryExport.drain at h
    rw [hformat] at h
    simp only [Prod.mk.injEq] at h
    obtain ⟨hleft, rfl⟩ := h
    obtain ⟨shelves, hs, haccounts, hempty⟩ := Crew.accounts_of_finish hleft
      (QueryExport.writesFiles_query client c structured dir (QueryExport.kinds structured)
        disk.tree)
      (Pool.holds_new dir (QueryExport.kinds structured))
    exact ⟨_, _, _, shelves, _, rfl, hs, haccounts, hempty⟩

/-- The files of a kind that the workers of a job have written are brought in line twice. The second
time there is nothing to change in a file if and only if no name of a column of its label holds a
line feed. It stays as it is then, and if that is so for all labels, nothing changes at all. -/
theorem reconcile_twice {kind : OutputKind} {m : Masters} {schemas : Collection} {t t₁ : FileTree}
    (hformat : c.format = .csv) (hleft : WorkersLeft client c left written)
    (hm : m = .ofFragments (left.map (·.get kind)))
    (hfiles : ∀ label canonical file, (label, canonical, file) ∈ m.jobs →
      t.get? file.path = written.get? file.path)
    (h : reconcile c.format kind m t = (.ok schemas, t₁)) :
    (∀ label canonical file, (label, canonical, file) ∈ m.jobs →
      ((reconcileFile kind label canonical file t₁).1 = .ok false ↔ canonical.OneLine)) ∧
    (∀ schemas' t₂, reconcile c.format kind m t₁ = (.ok schemas', t₂) →
      ∀ label canonical file, (label, canonical, file) ∈ m.jobs → canonical.OneLine →
        t₂.get? file.path = t₁.get? file.path) ∧
    ((∀ label canonical, schemas.get? label = some canonical → canonical.OneLine) →
      reconcile c.format kind m t₁ = (.ok schemas, t₁)) := by
  subst hm
  rw [hformat] at h ⊢
  obtain ⟨dir, kinds, base, shelves, d, rfl, hs, haccounts, hempty⟩ := hleft.accounted hformat
  have haccounts' := Fragments.accounts_map fun i fragments hi => haccounts i fragments hi kind
  have hempty' := Fragments.bare_map fun i hi label =>
    congrArg (fun S : Shelf => S kind label) (hempty i hi)
  refine ⟨fun label canonical file hjob => ?_,
    fun schemas' t₂ hagain label canonical file hjob => ?_, fun hlines => ?_⟩
  · exact hs.settled haccounts' hempty' hfiles h hjob
  · exact hs.get?_settled haccounts' hempty' hfiles h hagain hjob
  · exact hs.reconcile_again haccounts' hempty' hfiles h hlines

def brokenNode : Element :=
  .node { id := "1", tags := ["t"], properties := .ofList [("p\nq", .str "x")] }

/-- The header of a column whose name is two lines is two lines, and the second of them becomes a
row. -/
theorem reconcile_twice_broken_name :
    let client := Client.scripted none [brokenNode] [] []
    let c : Config := { dir := ⟨.ofNames [], ["out"]⟩, workers := 1 }
    let crew := FullExport.workedOff client c (.ofNames ["out"]) c.nodeFilter []
      (.make .nodes (-1) 0 none 1 1) none { disk := ⟨∅, 0, { max := 0 }⟩ }
    let file := Path.ofNames ["out", "nodes", "t-1.csv"]
    ∃ left, crew.results = .ok left ∧
      let m := Masters.ofFragments (left.map (·.get .nodes))
      ∃ schemas t₁, reconcile c.format .nodes m crew.floor.shared.disk.tree = (.ok schemas, t₁) ∧
        t₁.read? file = some "~id,~label,\"p\nq:String\"\n1,t,x\n" ∧
        (reconcile c.format .nodes m t₁).2.read? file =
          some "~id,~label,\"p\nq:String\"\n\"q:String\"\"\",,\n1,t,x\n" ∧
        ∀ label canonical file, (label, canonical, file) ∈ m.jobs →
          ((reconcileFile .nodes label canonical file t₁).1 = .ok false ↔ canonical.OneLine) := by
  intro client c crew file
  have hcheck : (crew.results.toOption.map fun left =>
      let m := Masters.ofFragments (left.map (·.get .nodes))
      let (result, t₁) := reconcile .csv .nodes m crew.floor.shared.disk.tree
      result.toOption.isSome &&
        t₁.read? file = some "~id,~label,\"p\nq:String\"\n1,t,x\n" &&
        (reconcile .csv .nodes m t₁).2.read? file =
          some "~id,~label,\"p\nq:String\"\n\"q:String\"\"\",,\n1,t,x\n") = some true := by
    decide +kernel
  have hcrew : crew = FullExport.workedOff client c (.ofNames ["out"]) c.nodeFilter []
    (.make .nodes (-1) 0 none 1 1) none { disk := ⟨∅, 0, { max := 0 }⟩ } := rfl
  clear_value crew file
  cases hleft : crew.results with
  | error f =>
    rw [hleft] at hcheck
    cases hcheck
  | ok left =>
    rcases hr : reconcile .csv .nodes (.ofFragments (left.map (·.get .nodes)))
      crew.floor.shared.disk.tree with ⟨result, t₁⟩
    rw [hleft, Except.toOption, Option.map_some, Option.some.injEq] at hcheck
    simp only [hr, Bool.and_eq_true, decide_eq_true_eq] at hcheck
    cases result with
    | error f => cases hcheck.1.1
    | ok schemas =>
      exact ⟨left, rfl, schemas, t₁, hr, hcheck.1.2, hcheck.2,
        (reconcile_twice rfl (.elements hcrew hleft) rfl (fun _ _ _ _ => rfl) hr).1⟩

end Job

end GraphExport
