import GraphExport.Job.Config
import GraphExport.Proofs.Window.Rest
import GraphExport.Source.Graph

/-!
# GraphExport.Proofs.Job.Plans

The settings that a job accepts, and the plans that follow from them.

* `Config.validate_iff`: which settings a job accepts.
* `Plan.forFilter_ok`: a plan is for the positions that the settings name, and for one worker or for
  all of them.
* `Plan.rest_forFilter`: so it is for the wanted elements.
* `Graph.exists_forFilter`: a graph can be counted, so there is always a plan.
-/

namespace GraphExport

theorem LabelStrategy.kind_eq_iff {strategy : LabelStrategy} {kind : ElementKind} :
    strategy.kind = kind ↔ strategy.isForEdges = decide (kind = .edges) := by
  unfold isForEdges
  cases strategy.kind <;> cases kind <;> decide

namespace Config

variable {c : Config}

theorem validate_eq_ok : c.validate = .ok () ↔ c.fault? = none := by
  unfold validate check
  cases c.fault? with
  | none => exact iff_of_true rfl rfl
  | some fault => exact iff_of_false nofun nofun

/-- There are workers, the widths, limits and estimates that are set are positive, and each filter
has a strategy for its own kind. -/
theorem validate_iff : c.validate = .ok () ↔
    c.workers ≠ 0 ∧ (c.windows.width = -1 ∨ 0 < c.windows.width) ∧ c.windows.limit ≠ some 0 ∧
      (∀ kind, c.windows.estimate kind ≠ some 0) ∧ ∀ kind, (c.filter kind).kind = kind := by
  have hcheck : ∀ {p : Prop} [Decidable p] {fault : ConfigFault} {rest : Option ConfigFault},
      (if p then some fault else rest) = none ↔ ¬p ∧ rest = none := by
    intro p _ fault rest
    by_cases hp : p <;> simp [hp]
  have hkinds : ∀ {P : ElementKind → Prop}, (∀ kind, P kind) ↔ P .nodes ∧ P .edges :=
    ⟨fun h => ⟨h .nodes, h .edges⟩, fun h kind => by
      cases kind with
      | nodes => exact h.1
      | edges => exact h.2⟩
  rw [validate_eq_ok, fault?, hkinds, hkinds]
  simp only [hcheck]
  refine and_congr Iff.rfl (and_congr ?_ (and_congr Iff.rfl (and_congr ?_ ?_)))
  · simp only [Bool.or_eq_true, decide_eq_true_eq]
    omega
  · simp only [Bool.or_eq_true, decide_eq_true_eq, not_or, WindowSettings.estimate, ne_eq]
  · simp [filter, LabelFilter.kind, LabelStrategy.kind_eq_iff]

theorem workers_of_validate (h : c.validate = .ok ()) : c.workers ≠ 0 := (validate_iff.1 h).1

theorem kind_filter (h : c.validate = .ok ()) (kind : ElementKind) : (c.filter kind).kind = kind :=
  (validate_iff.1 h).2.2.2.2 kind

theorem kinds_of_validate (h : c.validate = .ok ()) :
    c.nodeFilter.kind = .nodes ∧ c.edgeFilter.kind = .edges :=
  ⟨kind_filter h .nodes, kind_filter h .edges⟩

end Config

namespace Plan

variable {client : Client} {filter : LabelFilter} {s : WindowSettings} {workers : Nat} {p : Plan}

/-- A plan is for the positions that the settings name, and for one worker or for all of them. -/
theorem forFilter_ok (h : forFilter client filter s workers = .ok p) :
    ∃ width estimate workers', (workers' = 1 ∨ workers' = workers) ∧
      p = make filter.kind width s.skip s.limit estimate workers' := by
  unfold forFilter at h
  split at h
  · cases h
  · refine ⟨_, _, _, ?_, (Except.ok.inj h).symm⟩
    split
    · exact .inl rfl
    · exact .inr rfl

theorem workers_forFilter (h : forFilter client filter s 1 = .ok p) : p.workers = 1 := by
  obtain ⟨width, estimate, workers, rfl | rfl, rfl⟩ := forFilter_ok h
  · rfl
  · rfl

/-- A plan is for the wanted elements. -/
theorem rest_forFilter (hfit : (s.skip + s.limit.getD 0 : Nat) ≤ maxWord)
    (h : forFilter client filter s workers = .ok p) :
    p.Sound ∧ ∀ items : List Element, p.rest items = wanted s.skip s.limit items := by
  obtain ⟨width, estimate, workers', -, rfl⟩ := forFilter_ok h
  exact ⟨sound_make _ _ _ _ hfit, rest_make _ _ _ _ hfit⟩

end Plan

/-- A graph can be counted, so there is always a plan. -/
theorem Graph.exists_forFilter (g : Graph) (filter : LabelFilter) (s : WindowSettings)
    (workers : Nat) : ∃ p, Plan.forFilter g.client filter s workers = .ok p := by
  obtain ⟨n, hn⟩ : ∃ n, Plan.estimate g.client filter s = .ok n := by
    unfold Plan.estimate
    split
    · exact ⟨_, rfl⟩
    · exact ⟨_, rfl⟩
    · exact ⟨_, rfl⟩
  rw [Plan.forFilter, hn]
  exact ⟨_, rfl⟩

end GraphExport
