import GraphExport.Proofs.Window.Rest

/-!
# GraphExport.Proofs.Window.Partition

The windows of a plan are an exact partition. They follow one another without a gap from the first
wanted position on, all of the width of the plan but the last one, and there are no more of them
than the estimate asks for; what the sequence has is in them in its order, whether the estimate was
right or not.

* `Plan.Tiles`: windows that follow one another. `Plan.tiles_windows`: those of a plan do.
* `Plan.tileCount`: how many they are.
* `Plan.HandsOut`, `Plan.handsOut_windows`: what requests give, and when the plan is exhausted.
* `Plan.windows_partition`: all of it for a new plan.
-/

namespace GraphExport

/-- The bounds of a window in a sequence are in order and lie in the sequence. -/
theorem Window.bounds_le (w : Window) (length : Nat) :
    (w.bounds length).1 ≤ (w.bounds length).2 ∧ (w.bounds length).2 ≤ length := by
  unfold bounds
  split
  · exact ⟨Nat.le_refl 0, Nat.zero_le _⟩
  · dsimp only
    split
    · exact ⟨Nat.min_le_right _ _, Nat.le_refl _⟩
    · exact ⟨Nat.le_max_left _ _, Nat.max_le.2 ⟨Nat.min_le_right _ _, Nat.min_le_right _ _⟩⟩

namespace Plan

/-! ## Shape and number -/

/-- Windows that follow one another from `start` on: each has the width, but the last one ends at
`stop`. -/
inductive Tiles (width stop : Int) : Int → List Window → Prop where
  | last (start : Int) : Tiles width stop start [⟨start, stop⟩]
  | next {start : Int} {rest : List Window} (h : Tiles width stop (start + width) rest) :
      Tiles width stop start (⟨start, start + width⟩ :: rest)

/-- The number of windows of a width from `start` on, where the last one has to reach `upper`: the
quotient, rounded up. -/
def tileCount (width upper start : Int) : Nat :=
  if width ≤ 0 ∨ upper ≤ start + width then 1 else ((upper - start + width - 1) / width).toNat

theorem tileCount_of_last {width upper start : Int} (h : width ≤ 0 ∨ upper ≤ start + width) :
    tileCount width upper start = 1 := if_pos h

theorem tileCount_step {width upper start : Int} (h : ¬ (width ≤ 0 ∨ upper ≤ start + width)) :
    tileCount width upper start = tileCount width upper (start + width) + 1 := by
  have hw : 0 < width := by omega
  have hdiv : (upper - start + width - 1) / width =
      (upper - (start + width) + width - 1) / width + 1 := by
    rw [show upper - start + width - 1 = upper - (start + width) + width - 1 + 1 * width by omega,
      Int.add_mul_ediv_right _ _ (by omega)]
  rw [tileCount, if_neg h, hdiv, tileCount]
  split
  · -- Only the last window is left, so the quotient is one.
    have hone : (upper - (start + width) + width - 1) / width = 1 := by
      rw [show upper - (start + width) + width - 1 = upper - (start + width) - 1 + 1 * width by
        omega, Int.add_mul_ediv_right _ _ (by omega), Int.ediv_eq_zero_of_lt (by omega) (by omega)]
      rfl
    rw [hone]
    rfl
  · have hnonneg : 0 ≤ (upper - (start + width) + width - 1) / width :=
      Int.ediv_nonneg (by omega) (by omega)
    omega

variable {p : Plan} {s : Int}

/-- The end of the last window. -/
def lastStop (p : Plan) : Int := if p.unlimited then -1 else p.upper

theorem tiles_windows (n : Nat) (hp : p.Sound) (hs : p.cursor = some s)
    (hleft : p.windowsLeft ≤ n) :
    Tiles p.width p.lastStop s (p.windows n) ∧
      (p.windows n).length = tileCount p.width p.upper s := by
  induction n generalizing p s with
  | zero =>
    have := windowsLeft_next hp hs
    omega
  | succ n ih =>
    have hleft' := windowsLeft_next hp hs
    rw [windows_of_some hp hs]
    by_cases hlast : p.width ≤ 0 ∨ p.upper ≤ s + p.width
    · rw [next_eq hp hs, if_pos hlast, windows_of_none rfl, tileCount_of_last hlast]
      exact ⟨.last s, rfl⟩
    · have hsound := sound_next hp
      rw [next_eq hp hs, if_neg hlast] at hsound hleft' ⊢
      obtain ⟨htiles, hlength⟩ := ih hsound rfl (by omega)
      refine ⟨.next htiles, ?_⟩
      rw [List.length_cons, hlength, tileCount_step hlast]

/-! ## Requests -/

/-- What so many requests give, one after the other. -/
def requests (p : Plan) : Nat → List Window
  | 0 => []
  | n + 1 => p.next.1 :: requests p.next.2 n

/-- Requests give these windows in their order and none after them, and the plan is exhausted from
the last one on. -/
structure HandsOut (p : Plan) (ws : List Window) : Prop where
  requests : ∀ n, p.requests n = ws.take n ++ List.replicate (n - ws.length) .none
  isNone : ∀ w ∈ ws, w.isNone = false
  isExhausted : ∀ n, (p.after n).isExhausted = true ↔ ws.length ≤ n

theorem handsOut_of_none (h : p.cursor = none) : p.HandsOut [] where
  requests n := by
    induction n with
    | zero => rfl
    | succ n ih =>
      rw [requests, next_of_none h, ih]
      simp [List.replicate_succ]
  isNone w hw := by cases hw
  isExhausted n := by
    have hafter : p.after n = p := by
      induction n with
      | zero => rfl
      | succ n ih => rw [after, next_of_none h, ih]
    simp [hafter, isExhausted, h]

theorem handsOut_of_some (hp : p.Sound) (hs : p.cursor = some s) {ws : List Window}
    (h : p.next.2.HandsOut ws) : p.HandsOut (p.next.1 :: ws) where
  requests n := by
    cases n with
    | zero => simp [requests]
    | succ n =>
      rw [requests, h.requests n, List.take_succ_cons, List.length_cons, Nat.add_sub_add_right]
      rfl
  isNone w hw := by
    rcases List.mem_cons.1 hw with rfl | hw
    · have h0 := hp.skip_nonneg
      have hle := hp.le_cursor s hs
      exact Window.isNone_eq_false (by rw [start_next hp hs]; omega)
    · exact h.isNone w hw
  isExhausted n := by
    cases n with
    | zero => simp [after, isExhausted, hs]
    | succ n =>
      rw [after, h.isExhausted n, List.length_cons]
      omega

theorem handsOut_windows (n : Nat) (hp : p.Sound) (hleft : p.windowsLeft ≤ n) :
    p.HandsOut (p.windows n) := by
  induction n generalizing p with
  | zero =>
    cases hs : p.cursor with
    | none => exact handsOut_of_none hs
    | some s =>
      have := windowsLeft_next hp hs
      omega
  | succ n ih =>
    cases hs : p.cursor with
    | none =>
      rw [windows_of_none hs]
      exact handsOut_of_none hs
    | some s =>
      have := windowsLeft_next hp hs
      rw [windows_of_some hp hs]
      exact handsOut_of_some hp hs (ih (sound_next hp) (by omega))

/-- A new plan cuts the wanted positions into windows of its width. It hands them out once, again
after it went back, and whatever the estimate was, they hold the wanted items in their order. -/
theorem windows_partition (kind : ElementKind) (width : Int) {skip : Nat} {limit : Option Nat}
    {estimate : Nat} (workers : Nat) (hfit : (skip + limit.getD 0 : Nat) ≤ maxWord)
    (hestimate : (estimate : Int) ≤ maxWord) :
    let p := make kind width skip limit estimate workers
    let stop := limit.elim (-1 : Int) fun n => (skip + n : Nat)
    let upper := limit.elim (estimate : Int) fun n => (skip + n : Nat)
    ∃ ws, p.HandsOut ws ∧ (∀ n, (p.after n).reset = p) ∧ Tiles width stop skip ws ∧
      ws.length = tileCount width upper skip ∧
      ∀ {α : Type} (items : List α), ws.flatMap (·.slice items) = wanted skip limit items ∧
        ∀ w ∈ ws, (w.bounds items.length).1 ≤ (w.bounds items.length).2 ∧
          (w.bounds items.length).2 ≤ items.length := by
  intro p stop upper
  have hp : p.Sound := sound_make kind width estimate workers hfit
  have hmake := make_eq kind width estimate workers hfit
  have hs : p.cursor = some (skip : Int) := by simp only [p, hmake]
  obtain ⟨htiles, hlength⟩ := tiles_windows p.windowsLeft hp hs (Nat.le_refl _)
  have hwidth : p.width = width := rfl
  have hstop : p.lastStop = stop := by
    simp only [lastStop, p, hmake, stop]
    cases limit <;> rfl
  have hupper : p.upper = upper := by
    simp only [p, hmake, upper, wrapWord_of_lt hestimate]
    cases limit <;> rfl
  rw [hwidth, hstop] at htiles
  rw [hwidth, hupper] at hlength
  refine ⟨p.remaining, handsOut_windows _ hp (Nat.le_refl _), fun n => ?_, htiles, hlength,
    fun items => ⟨?_, fun w _ => w.bounds_le _⟩⟩
  · rw [reset_after, reset_make]
  · rw [flatMap_remaining hp, rest_make kind width estimate workers hfit]

/-- Five positions from the second on, two by two: the last window is open. -/
theorem windows_partition_odd :
    ∃ ws, (make .nodes 2 1 none 6 1).HandsOut ws ∧ ws = [⟨1, 3⟩, ⟨3, 5⟩, ⟨5, -1⟩] ∧
      ws.flatMap (·.slice ["a", "b", "c", "d"]) = ["b", "c", "d"] := by
  obtain ⟨ws, hws, -, -, hlength, hitems⟩ :=
    @windows_partition .nodes 2 1 none 6 1 (by decide) (by decide)
  refine ⟨ws, hws, ?_, (hitems _).1⟩
  have hrequests := hws.requests 3
  rw [hlength, List.take_of_length_le (by rw [hlength]; decide)] at hrequests
  exact (List.append_nil ws).symm.trans (hrequests.symm.trans (by decide))

end Plan

end GraphExport
