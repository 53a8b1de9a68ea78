import GraphExport.Job.Crew

/-!
# GraphExport.Proofs.Crew.Steps

What one step of a worker can do, said once, and how the runs of a crew are made of such steps.

* `Worker.Move`: the moves of a worker, one constructor for each. `Worker.move_step`: every step is
  one of them.
* `Crew.play_keeps`: what every move keeps is kept by a run. `Crew.play_records`: the same with the
  pieces that were done.
* `Crew.exists_finish_eq_play`: workers that go on until they stop take steps in some order too, so
  what holds after every order of steps holds at the end of a job.
* `Crew.results_ok`: what workers that have all ended well have left.
-/

namespace GraphExport

variable {π ω ℓ ρ : Type}

/-- What a worker may do next, with the worker and the floor that come of it. -/
inductive Worker.Move (d : Duty π ω ℓ ρ) (w : Worker ω ℓ ρ) (s : Floor π) :
    Worker ω ℓ ρ → Floor π → Prop where
  /-- The flag tells it to stop. -/
  | leaves : w.stage = .testing → s.shared.progress.halted = true →
      Move d w s (w.stop d none s).1 (w.stop d none s).2
  | goesOn : w.stage = .testing → s.shared.progress.halted = false →
      Move d w s { w with stage := .claiming } s
  | runsOut {supply : π} : w.stage = .claiming → d.claim s.supply = (none, supply) →
      Move d w s (w.stop d none { s with supply }.halt).1 (w.stop d none { s with supply }.halt).2
  | takes {piece : ω} {supply : π} : w.stage = .claiming →
      d.claim s.supply = (some piece, supply) →
      Move d w s { w with stage := .working piece } { s with supply }
  | does {piece : ω} {count : Nat} {own : ℓ} {shared : Shared} : w.stage = .working piece →
      d.perform w.number piece w.own s.shared = (.ok count, own, shared) →
      Move d w s { w with own, stage := .checking piece count } { s with shared }
  | waits {piece : ω} {f : Failure} {own : ℓ} {shared : Shared} : w.stage = .working piece →
      d.perform w.number piece w.own s.shared = (.error f, own, shared) →
      f.cause = .handlesBusy → Move d w s w s
  | fails {piece : ω} {f : Failure} {own : ℓ} {shared : Shared} : w.stage = .working piece →
      d.perform w.number piece w.own s.shared = (.error f, own, shared) →
      f.cause ≠ .handlesBusy →
      Move d w s ({ w with own }.stop d (some f) { s with shared }).1
        ({ w with own }.stop d (some f) { s with shared }).2
  | checks {piece : ω} {count : Nat} : w.stage = .checking piece count →
      Move d w s { w with stage := .testing }
        (if d.isLast piece count s.supply then s.halt else s)
  | rests {result : Except Failure ρ} : w.stage = .stopped result → Move d w s w s

namespace Worker

theorem move_step (d : Duty π ω ℓ ρ) (w : Worker ω ℓ ρ) (s : Floor π) :
    Move d w s (w.step d s).1 (w.step d s).2 := by
  cases hst : w.stage with
  | testing =>
    cases hh : s.shared.progress.halted with
    | true => simpa [step, hst, Progress.mayContinue, hh] using Move.leaves hst hh
    | false => simpa [step, hst, Progress.mayContinue, hh] using Move.goesOn hst hh
  | claiming =>
    cases hc : d.claim s.supply with
    | mk piece supply =>
      cases piece with
      | none => simpa [step, hst, hc] using Move.runsOut hst hc
      | some piece => simpa [step, hst, hc] using Move.takes hst hc
  | working piece =>
    cases hp : d.perform w.number piece w.own s.shared with
    | mk result rest =>
      obtain ⟨own, shared⟩ := rest
      cases result with
      | ok count => simpa [step, hst, hp] using Move.does hst hp
      | error f =>
        by_cases hf : f.cause = .handlesBusy
        · simpa [step, hst, hp, hf] using Move.waits hst hp hf
        · simpa [step, hst, hp, hf] using Move.fails hst hp hf
  | checking piece count => simpa [step, hst] using Move.checks hst
  | stopped result => simpa [step, hst] using Move.rests hst

theorem step_of_stopped {d : Duty π ω ℓ ρ} {w : Worker ω ℓ ρ} {s : Floor π}
    {result : Except Failure ρ} (h : w.stage = .stopped result) : w.step d s = (w, s) := by
  simp [step, h]

theorem run_succ (d : Duty π ω ℓ ρ) (n : Nat) (w : Worker ω ℓ ρ) (s : Floor π) :
    w.run d (n + 1) s = (w.step d s).1.run d n (w.step d s).2 := by
  cases hst : w.stage with
  | stopped result =>
    rw [step_of_stopped hst]
    cases n with
    | zero => simp [run, hst]
    | succ n => simp [run, hst]
  | testing => simp [run, hst]
  | claiming => simp [run, hst]
  | working piece => simp [run, hst]
  | checking piece count => simp [run, hst]

/-- The pieces that a worker does when it takes its next step: one, or none where it does something
else or has to wait. -/
def next? (d : Duty π ω ℓ ρ) (w : Worker ω ℓ ρ) (s : Floor π) : Option ω :=
  match w.stage with
  | .working piece =>
    match (d.perform w.number piece w.own s.shared).1 with
    | .ok _ => some piece
    | .error f => if f.cause = .handlesBusy then none else some piece
  | _ => none

end Worker

namespace Crew

variable {d : Duty π ω ℓ ρ}

theorem step_of_none {c : Crew π ω ℓ ρ} {i : Nat} (h : c.workers[i]? = none) :
    c.step d i = c := by
  simp [step, turn, h]

theorem step_of_some {c : Crew π ω ℓ ρ} {i : Nat} {w : Worker ω ℓ ρ}
    (h : c.workers[i]? = some w) :
    c.step d i = ⟨c.workers.set i (w.step d c.floor).1, (w.step d c.floor).2⟩ := by
  simp [step, turn, h]

@[simp] theorem play_nil (c : Crew π ω ℓ ρ) : c.play d [] = c := rfl

theorem play_cons (i : Nat) (turns : List Nat) (c : Crew π ω ℓ ρ) :
    c.play d (i :: turns) = (c.step d i).play d turns := rfl

theorem play_append (as bs : List Nat) (c : Crew π ω ℓ ρ) :
    c.play d (as ++ bs) = (c.play d as).play d bs := by
  simp [play]

/-- What holds of the worker that has moved and of all others holds of all, where each is held
against a value of its own. -/
theorem forall_worker_set {α : Type} {P : Worker ω ℓ ρ → α → Prop} {c : Crew π ω ℓ ρ} {i : Nat}
    {w' : Worker ω ℓ ρ} {own own' : Nat → α} (hothers : ∀ j, j ≠ i → own' j = own j)
    (hself : P w' (own' i))
    (hrest : ∀ (j : Nat) (v : Worker ω ℓ ρ), c.workers[j]? = some v → P v (own j)) :
    ∀ (j : Nat) (v : Worker ω ℓ ρ), (c.workers.set i w')[j]? = some v → P v (own' j) := by
  intro j v hv
  by_cases hij : i = j
  · subst hij
    have hi : i < c.workers.length := by simpa using (List.getElem?_eq_some_iff.1 hv).1
    rw [List.getElem?_set_self hi] at hv
    cases hv
    exact hself
  · rw [List.getElem?_set_ne hij] at hv
    rw [hothers j (Ne.symm hij)]
    exact hrest j v hv

/-- What every move keeps is kept by a run. -/
theorem play_keeps {P : Crew π ω ℓ ρ → Prop}
    (hmove : ∀ c i w w' s', P c → c.workers[i]? = some w → w.Move d c.floor w' s' →
      P ⟨c.workers.set i w', s'⟩)
    (turns : List Nat) {c : Crew π ω ℓ ρ} (hc : P c) : P (c.play d turns) := by
  induction turns generalizing c with
  | nil => exact hc
  | cons i turns ih =>
    rw [play_cons]
    apply ih
    cases hw : c.workers[i]? with
    | none => rw [step_of_none hw]; exact hc
    | some w => rw [step_of_some hw]; exact hmove c i w _ _ hc hw (w.move_step d c.floor)

/-- A worker that goes on for a number of steps takes that many turns. -/
theorem turn_run (n : Nat) (c : Crew π ω ℓ ρ) (i : Nat) :
    c.turn (Worker.run d n) i = c.play d (List.replicate n i) := by
  induction n generalizing c with
  | zero =>
    cases hw : c.workers[i]? with
    | none => simp [turn, hw]
    | some w =>
      have hset : c.workers.set i w = c.workers := by
        apply List.ext_getElem? ; intro j
        rw [List.getElem?_set]
        split
        · subst i
          split
          · exact hw.symm
          · rename_i hlt; rw [List.getElem?_eq_none (by omega)] at hw; cases hw
        · rfl
      simp [turn, hw, Worker.run, hset]
  | succ n ih =>
    rw [List.replicate_succ, play_cons, ← ih]
    cases hw : c.workers[i]? with
    | none => rw [step_of_none hw]; simp [turn, hw]
    | some w =>
      have hlt : i < c.workers.length := by
        rcases Nat.lt_or_ge i c.workers.length with h | h
        · exact h
        · rw [List.getElem?_eq_none h] at hw; cases hw
      rw [step_of_some hw]
      simp only [turn, hw, Worker.run_succ, List.getElem?_set_self hlt, List.set_set]

theorem exists_finishOnce_eq_play (pieces : Nat) (c : Crew π ω ℓ ρ) :
    ∃ turns, c.finishOnce d pieces = c.play d turns := by
  unfold finishOnce
  generalize List.range c.workers.length = numbers
  induction numbers generalizing c with
  | nil => exact ⟨[], rfl⟩
  | cons i rest ih =>
    obtain ⟨turns, h⟩ := ih (c.turn (Worker.run d (Worker.stepsFor pieces)) i)
    refine ⟨List.replicate (Worker.stepsFor pieces) i ++ turns, ?_⟩
    rw [List.foldl_cons, h, play_append, turn_run]

/-- Workers that go on until they stop take their steps in some order. -/
theorem exists_finish_eq_play (pieces : Nat) (c : Crew π ω ℓ ρ) :
    ∃ turns, c.finish d pieces = c.play d turns := by
  obtain ⟨as, ha⟩ := exists_finishOnce_eq_play (d := d) pieces c
  obtain ⟨bs, hb⟩ := exists_finishOnce_eq_play (d := d) pieces (c.finishOnce d pieces)
  exact ⟨as ++ bs, by rw [finish, hb, play_append, ← ha]⟩

/-- The pieces that are done in a run, in the order in which they are done. -/
def done (d : Duty π ω ℓ ρ) : List Nat → Crew π ω ℓ ρ → List ω
  | [], _ => []
  | i :: turns, c =>
    (c.workers[i]?.bind fun w => w.next? d c.floor).toList ++ done d turns (c.step d i)

/-- What every move keeps, together with the pieces done so far, is kept by a run. -/
theorem play_records {P : List ω → Crew π ω ℓ ρ → Prop}
    (hmove : ∀ pieces c i w w' s', P pieces c → c.workers[i]? = some w → w.Move d c.floor w' s' →
      P (pieces ++ (w.next? d c.floor).toList) ⟨c.workers.set i w', s'⟩)
    (turns : List Nat) {pieces : List ω} {c : Crew π ω ℓ ρ} (hc : P pieces c) :
    P (pieces ++ c.done d turns) (c.play d turns) := by
  induction turns generalizing c pieces with
  | nil => simpa [done] using hc
  | cons i turns ih =>
    rw [play_cons, done, ← List.append_assoc]
    apply ih
    cases hw : c.workers[i]? with
    | none => simpa [step_of_none hw] using hc
    | some w => rw [step_of_some hw]; exact hmove pieces c i w _ _ hc hw (w.move_step d c.floor)

/-- What workers that have all ended well have left. -/
theorem results_ok {c : Crew π ω ℓ ρ} {left : List ρ} (h : c.results = .ok left) :
    left.length = c.workers.length ∧
      ∀ (i : Nat) (r : ρ), left[i]? = some r →
        ∃ w : Worker ω ℓ ρ, c.workers[i]? = some w ∧ w.stage = .stopped (.ok r) := by
  unfold results at h
  generalize c.workers = workers at h
  induction workers generalizing left with
  | nil =>
    cases h
    exact ⟨rfl, fun i r hr => by simp at hr⟩
  | cons w rest ih =>
    rw [List.mapM_cons] at h
    obtain ⟨r, hw, h⟩ := bind_eq_ok h
    obtain ⟨others, hrest, h⟩ := bind_eq_ok h
    cases h
    obtain ⟨hlength, hget⟩ := ih hrest
    refine ⟨by simp [hlength], fun i r' hr' => ?_⟩
    cases i with
    | zero =>
      simp only [List.getElem?_cons_zero, Option.some.injEq] at hr'
      subst hr'
      refine ⟨w, rfl, ?_⟩
      unfold Worker.result at hw
      split at hw
      · rename_i hst
        rw [hst, hw]
      · cases hw
    | succ i => exact hget i r' hr'

theorem stopped_of_results {c : Crew π ω ℓ ρ} {left : List ρ}
    (h : c.results = .ok left) : ∀ w ∈ c.workers, ∃ r, w.stage = .stopped (.ok r) := by
  intro w hw
  obtain ⟨hlength, hget⟩ := results_ok h
  obtain ⟨i, hi⟩ := List.getElem?_of_mem hw
  obtain ⟨hlt, -⟩ := List.getElem?_eq_some_iff.1 hi
  obtain ⟨w', hw', hst⟩ := hget i _ (List.getElem?_eq_getElem (l := left) (i := i) (by omega))
  rw [hi] at hw'
  obtain rfl := Option.some.inj hw'
  exact ⟨_, hst⟩

end Crew

end GraphExport
