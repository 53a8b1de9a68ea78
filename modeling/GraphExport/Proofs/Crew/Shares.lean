import Mathlib.Data.List.Forall2
import Mathlib.Logic.Function.Basic
import GraphExport.Proofs.Crew.Steps

/-!
# GraphExport.Proofs.Crew.Shares

Work that a crew has divided among its workers. In whatever order they take their steps, what each
of them has for itself tells of its part of the work, and what they share tells of the whole.

* `Duty.Gathers`: a piece that is done adds to what the worker has and to what all share.
* `Crew.Divided`: the pieces that were done are those of the workers. `Crew.divided_move`: every
  move keeps it so.
* `Crew.exists_parts`: the parts of workers that have all ended well.
-/

namespace GraphExport

variable {π ω ℓ ρ : Type}

/-- The means of a worker tell of the pieces that it has done, and what the workers share tells of
the pieces that all have done. Nothing else that a worker does changes that. -/
structure Duty.Gathers (d : Duty π ω ℓ ρ) (Tells : List ω → ℓ → Prop)
    (Counts : List ω → Shared → Prop) : Prop where
  own : ∀ {number piece own shared n own' shared'},
    d.perform number piece own shared = (.ok n, own', shared') →
      ∀ done, Tells done own → Tells (done ++ [piece]) own'
  shared : ∀ {number piece own shared n own' shared'},
    d.perform number piece own shared = (.ok n, own', shared') →
      ∀ done, Counts done shared → Counts (done ++ [piece]) shared'
  close : ∀ {done own shared}, Counts done shared → Counts done (d.close own shared).2.2
  halt : ∀ {done shared}, Counts done shared →
    Counts done { shared with progress := shared.progress.halt }

/-- The worker has done the pieces. Nothing is said of one that has failed. -/
def Worker.HasDone (d : Duty π ω ℓ ρ) (Tells : List ω → ℓ → Prop) (done : List ω)
    (w : Worker ω ℓ ρ) : Prop :=
  match w.stage with
  | .stopped (.ok left) => ∃ own shared, Tells done own ∧ left = (d.close own shared).1
  | .stopped (.error _) => True
  | _ => Tells done w.own

/-- One of several parts grows, and so does the whole. -/
theorem flatMap_update_perm (parts : Nat → List ω) (more : List ω) {i n : Nat} (hi : i < n) :
    ((List.range n).flatMap (Function.update parts i (parts i ++ more))).Perm
      ((List.range n).flatMap parts ++ more) := by
  induction n with
  | zero => exact absurd hi (Nat.not_lt_zero i)
  | succ n ih =>
    simp only [List.range_succ, List.flatMap_append, List.flatMap_singleton]
    rcases Nat.lt_succ_iff_lt_or_eq.1 hi with hlt | rfl
    · rw [Function.update_of_ne (Nat.ne_of_gt hlt), List.append_assoc]
      refine ((ih hlt).append_right _).trans ?_
      rw [List.append_assoc]
      exact List.perm_append_comm.append_left _
    · have hrest : (List.range i).flatMap (Function.update parts i (parts i ++ more)) =
          (List.range i).flatMap parts := by
        refine List.flatMap_congr fun j hj => ?_
        rw [Function.update_of_ne (Nat.ne_of_lt (List.mem_range.1 hj))]
      rw [hrest, Function.update_self, List.append_assoc]

namespace Crew

variable {d : Duty π ω ℓ ρ} {Tells : List ω → ℓ → Prop} {Counts : List ω → Shared → Prop}
  {pieces : List ω} {c : Crew π ω ℓ ρ}

/-- No worker has ended with a failure. -/
def Unfailed (c : Crew π ω ℓ ρ) : Prop := ∀ w ∈ c.workers, ∀ f, w.stage ≠ .stopped (.error f)

/-- A worker that has failed stays where it is. -/
theorem unfailed_of_move {i : Nat} {w w' : Worker ω ℓ ρ} {s' : Floor π}
    (hw : c.workers[i]? = some w) (hm : w.Move d c.floor w' s')
    (h : Unfailed ⟨c.workers.set i w', s'⟩) : c.Unfailed := by
  intro v hv f hst
  obtain ⟨j, hj⟩ := List.getElem?_of_mem hv
  by_cases hij : i = j
  · subst hij
    rw [hw] at hj
    obtain rfl := Option.some.inj hj
    obtain ⟨hi, -⟩ := List.getElem?_eq_some_iff.1 hw
    refine h w' (List.mem_of_getElem? (List.getElem?_set_self hi)) f ?_
    cases hm with
    | rests => exact hst
    | waits => exact hst
    | leaves hst' => rw [hst] at hst'; cases hst'
    | goesOn hst' => rw [hst] at hst'; cases hst'
    | runsOut hst' => rw [hst] at hst'; cases hst'
    | takes hst' => rw [hst] at hst'; cases hst'
    | does hst' => rw [hst] at hst'; cases hst'
    | fails hst' => rw [hst] at hst'; cases hst'
    | checks hst' => rw [hst] at hst'; cases hst'
  · refine h v (List.mem_of_getElem? (i := j) ?_) f hst
    rw [List.getElem?_set_ne hij, hj]

/-- Each worker has done its part of the pieces, and what they share tells of all of them. -/
structure DividedBy (d : Duty π ω ℓ ρ) (Tells : List ω → ℓ → Prop) (Counts : List ω → Shared → Prop)
    (pieces : List ω) (parts : Nat → List ω) (c : Crew π ω ℓ ρ) : Prop where
  worker : ∀ (i : Nat) (w : Worker ω ℓ ρ), c.workers[i]? = some w → w.HasDone d Tells (parts i)
  whole : ((List.range c.workers.length).flatMap parts).Perm pieces
  shared : Counts pieces c.floor.shared

/-- The pieces were divided among the workers, if none of them has failed. -/
def Divided (d : Duty π ω ℓ ρ) (Tells : List ω → ℓ → Prop) (Counts : List ω → Shared → Prop)
    (pieces : List ω) (c : Crew π ω ℓ ρ) : Prop :=
  c.Unfailed → ∃ parts, c.DividedBy d Tells Counts pieces parts

/-- One worker has done more pieces. -/
theorem DividedBy.set {parts : Nat → List ω} (hc : c.DividedBy d Tells Counts pieces parts)
    {i : Nat} {w w' : Worker ω ℓ ρ} (hw : c.workers[i]? = some w) {s' : Floor π} (more : List ω)
    (hdone : w'.HasDone d Tells (parts i ++ more)) (hshared : Counts (pieces ++ more) s'.shared) :
    ∃ parts, DividedBy d Tells Counts (pieces ++ more) parts ⟨c.workers.set i w', s'⟩ := by
  obtain ⟨hi, -⟩ := List.getElem?_eq_some_iff.1 hw
  refine ⟨Function.update parts i (parts i ++ more), ?_, ?_, hshared⟩
  · refine forall_worker_set (P := fun v done => v.HasDone d Tells done)
      (fun j hj => Function.update_of_ne hj _ _) ?_ hc.worker
    rw [Function.update_self]
    exact hdone
  · rw [List.length_set]
    exact (flatMap_update_perm parts more hi).trans (hc.whole.append_right more)

theorem divided_move (hd : d.Gathers Tells Counts) {i : Nat} {w w' : Worker ω ℓ ρ} {s' : Floor π}
    (hc : c.Divided d Tells Counts pieces) (hw : c.workers[i]? = some w)
    (hm : w.Move d c.floor w' s') :
    Divided d Tells Counts (pieces ++ (w.next? d c.floor).toList) ⟨c.workers.set i w', s'⟩ := by
  intro hunfailed
  obtain ⟨parts, hc⟩ := hc (unfailed_of_move hw hm hunfailed)
  have hdone := hc.worker i w hw
  -- A move that does no piece leaves the parts as they are.
  have hidle : w.next? d c.floor = none → w'.HasDone d Tells (parts i) → Counts pieces s'.shared →
      ∃ parts, DividedBy d Tells Counts (pieces ++ (w.next? d c.floor).toList) parts
        ⟨c.workers.set i w', s'⟩ := by
    intro hnext hdone' hshared
    rw [hnext]
    exact hc.set hw [] (by rwa [List.append_nil]) (by rwa [List.append_nil])
  unfold Worker.HasDone at hdone
  cases hm with
  | leaves hst hh =>
    rw [hst] at hdone
    exact hidle (by simp [Worker.next?, hst]) ⟨w.own, c.floor.shared, hdone, rfl⟩
      (hd.close hc.shared)
  | goesOn hst hh =>
    rw [hst] at hdone
    exact hidle (by simp [Worker.next?, hst]) hdone hc.shared
  | @runsOut supply hst hclaim =>
    rw [hst] at hdone
    exact hidle (by simp [Worker.next?, hst])
      ⟨w.own, (Floor.halt { c.floor with supply }).shared, hdone, rfl⟩
      (hd.close (hd.halt hc.shared))
  | takes hst hclaim =>
    rw [hst] at hdone
    exact hidle (by simp [Worker.next?, hst]) hdone hc.shared
  | @does piece count own shared hst hp =>
    rw [hst] at hdone
    have hnext : w.next? d c.floor = some piece := by simp [Worker.next?, hst, hp]
    rw [hnext]
    exact hc.set hw [piece] (hd.own hp _ hdone) (hd.shared hp _ hc.shared)
  | waits hst hp hf =>
    exact hidle (by simp [Worker.next?, hst, hp, hf]) (hc.worker i w hw) hc.shared
  | @fails piece f own shared hst hp hf =>
    obtain ⟨hi, -⟩ := List.getElem?_eq_some_iff.1 hw
    exact absurd rfl
      (hunfailed _ (List.mem_of_getElem? (List.getElem?_set_self hi)) f)
  | @checks piece count hst =>
    rw [hst] at hdone
    refine hidle (by simp [Worker.next?, hst]) hdone ?_
    split
    · exact hd.halt hc.shared
    · exact hc.shared
  | rests hst => exact hidle (by simp [Worker.next?, hst]) (hc.worker i w hw) hc.shared

theorem divided_start (hown : Tells [] own) (count : Nat) (supply : π) {shared : Shared}
    (hshared : Counts [] shared) :
    Divided d Tells Counts [] (start (ρ := ρ) count own supply shared) := by
  refine fun _ => ⟨fun _ => [], fun i w hw => ?_, by simp, hshared⟩
  simp only [start, List.getElem?_map, Option.map_eq_some_iff] at hw
  obtain ⟨number, -, rfl⟩ := hw
  exact hown

/-- Workers that have all ended well have divided among them the pieces that were done. -/
theorem exists_parts (hd : d.Gathers Tells Counts) {own : ℓ} (hown : Tells [] own) (count : Nat)
    (supply : π) {shared : Shared} (hshared : Counts [] shared) (turns : List Nat) {left : List ρ}
    (h : ((start count own supply shared).play d turns).results = .ok left) :
    ∃ parts : List (List ω), List.Forall₂ (fun r part => ∃ own shared, Tells part own ∧
        r = (d.close own shared).1) left parts ∧
      parts.flatten.Perm ((start count own supply shared).done d turns) ∧
      Counts ((start count own supply shared).done d turns)
        ((start count own supply shared).play d turns).floor.shared := by
  have hunfailed : ((start count own supply shared).play d turns).Unfailed := by
    intro w hw f hst
    obtain ⟨r, hr⟩ := stopped_of_results h w hw
    rw [hst] at hr
    cases hr
  obtain ⟨parts, hc⟩ := play_records (P := fun pieces c => c.Divided d Tells Counts pieces)
    (fun _ _ _ _ _ _ hc hw hm => divided_move hd hc hw hm) turns
    (divided_start hown count supply hshared) hunfailed
  obtain ⟨hlength, hget⟩ := results_ok h
  refine ⟨(List.range left.length).map parts, ?_, ?_, hc.shared⟩
  · rw [List.forall₂_iff_get]
    refine ⟨by simp, fun i hi hi' => ?_⟩
    obtain ⟨w, hw, hst⟩ := hget i left[i] (List.getElem?_eq_getElem hi)
    have hdone := hc.worker i w hw
    rw [Worker.HasDone, hst] at hdone
    simpa using hdone
  · rw [hlength, ← List.flatMap_def]
    exact hc.whole

end Crew

end GraphExport
