import GraphExport.Proofs.Window.Positions

/-!
# GraphExport.Proofs.Window.Rest

What a plan has yet to hand out: the elements, and the windows in which they come.

* `Plan.rest_next`: the elements of a plan are those of its next window and then those of the plan
  after it. `Plan.rest_make`: at the start they are the wanted ones.
* `Plan.flatMap_remaining`: the windows left hand out the elements of the plan, each once.
* `Plan.reset_after`, `Plan.reset_make`: a plan that goes back has its windows again.
-/

namespace GraphExport

/-- The elements from `skip` on, at most `limit` of them. -/
def wanted {α : Type} (skip : Nat) (limit : Option Nat) (items : List α) : List α :=
  match limit with
  | none => items.drop skip
  | some n => (items.drop skip).take n

theorem mem_of_mem_wanted {α : Type} {skip : Nat} {limit : Option Nat} {items : List α} {a : α}
    (h : a ∈ wanted skip limit items) : a ∈ items := by
  cases limit with
  | none => exact List.mem_of_mem_drop h
  | some n => exact List.mem_of_mem_drop (List.mem_of_mem_take h)

namespace Plan

/-- The elements of a sequence that the plan has yet to hand out. -/
def rest {α : Type} (p : Plan) (items : List α) : List α :=
  match p.cursor with
  | none => []
  | some s => (⟨s, if p.unlimited then -1 else p.upper⟩ : Window).slice items

theorem drop_append_drop {α : Type} {a b : Nat} (h : a ≤ b) (l : List α) :
    (l.take b).drop a ++ l.drop b = l.drop a := by
  rcases Nat.le_total b l.length with hb | hb
  · have hlength : a ≤ (l.take b).length := by
      rw [List.length_take]
      omega
    rw [← List.drop_append_of_le_length hlength, List.take_append_drop]
  · rw [List.take_of_length_le hb, List.drop_of_length_le hb, List.append_nil]

theorem slice_from {α : Type} {s : Int} (h : 0 ≤ s) (stop : Int) (items : List α) :
    (⟨s, stop⟩ : Window).slice items =
      (if stop = -1 then items else items.take stop.toNat).drop s.toNat :=
  Window.slice_eq h items

variable {p : Plan}

/-- The elements of the next window, and then those of the plan after it. -/
theorem rest_next {α : Type} (hp : p.Sound) {s : Int} (hs : p.cursor = some s) (items : List α) :
    p.rest items = p.next.1.slice items ++ p.next.2.rest items := by
  have h0 := hp.skip_nonneg
  have hle := hp.le_cursor s hs
  rcases next_cases hp hs with ⟨stop, hn, hlt, hup⟩ | hn
  · rw [hn]
    simp only [rest, hs]
    rw [slice_from (by omega), slice_from (by omega), slice_from (by omega)]
    have hstop : ¬ stop = -1 := by omega
    have hab : s.toNat ≤ stop.toNat := by omega
    simp only [if_neg hstop]
    cases p.unlimited with
    | true =>
      simp only [if_true]
      exact (drop_append_drop hab items).symm
    | false =>
      have hupper : ¬ p.upper = -1 := by omega
      simp only [Bool.false_eq_true, if_false, if_neg hupper]
      rw [← drop_append_drop hab (items.take p.upper.toNat), List.take_take,
        Nat.min_eq_left (by omega)]
  · rw [hn]
    simp [rest, hs]

theorem rest_of_none {α : Type} (h : p.cursor = none) (items : List α) : p.rest items = [] := by
  simp [rest, h]

theorem mem_of_mem_rest {α : Type} {items : List α} {a : α} (h : a ∈ p.rest items) : a ∈ items := by
  unfold rest at h
  split at h
  · cases h
  · exact List.mem_of_mem_take (List.mem_of_mem_drop h)

theorem rest_of_end {α : Type} (hp : p.Sound) (items : List α)
    (hend : ∀ s, p.cursor = some s → (items.length : Int) ≤ s) : p.rest items = [] := by
  cases hs : p.cursor with
  | none => exact rest_of_none hs items
  | some s =>
    have h0 := hp.skip_nonneg
    have hle := hp.le_cursor s hs
    have hlen := hend s hs
    simp only [rest, hs]
    rw [slice_from (by omega)]
    apply List.drop_of_length_le
    have hle' : ∀ stop : Int,
        (if stop = -1 then items else items.take stop.toNat).length ≤ items.length := by
      intro stop
      split
      · exact Nat.le_refl _
      · exact List.length_take_le' _ _
    have := hle' (if p.unlimited then -1 else p.upper)
    omega

theorem rest_of_some {α : Type} {s : Int} (h : p.cursor = some s) (items : List α) :
    p.rest items = (⟨s, if p.unlimited then -1 else p.upper⟩ : Window).slice items := by
  rw [rest, h]

/-- At its start a plan is for the wanted elements. -/
theorem rest_make {α : Type} (kind : ElementKind) (width : Int) {skip : Nat} {limit : Option Nat}
    (estimate workers : Nat) (h : (skip + limit.getD 0 : Nat) ≤ maxWord) (items : List α) :
    (make kind width skip limit estimate workers).rest items = wanted skip limit items := by
  rw [rest_of_some (s := skip) (by rw [make_eq kind width estimate workers h]),
    make_eq kind width estimate workers h, slice_from (by omega), Int.toNat_natCast]
  cases limit with
  | none => rfl
  | some n =>
    have hne : ¬ ((skip + n : Nat) : Int) = -1 := by omega
    simp only [Option.isNone_some, Bool.false_eq_true, if_false, if_neg hne,
      Int.toNat_natCast, wanted, List.take_drop]

theorem windowsLeft_next (hp : p.Sound) {s : Int} (hs : p.cursor = some s) :
    p.next.2.windowsLeft + 1 ≤ p.windowsLeft := by
  rw [next_eq hp hs]
  by_cases hlast : p.width ≤ 0 ∨ p.upper ≤ s + p.width
  · simp only [if_pos hlast, windowsLeft, hs]
    split <;> omega
  · have hw : ¬ p.width ≤ 0 := by omega
    simp only [if_neg hlast, windowsLeft, hs, if_neg hw]
    have hdiv : (p.upper - s) / p.width = (p.upper - (s + p.width)) / p.width + 1 := by
      rw [show p.upper - s = p.upper - (s + p.width) + 1 * p.width by omega,
        Int.add_mul_ediv_right _ _ (by omega)]
    have hnonneg : 0 ≤ (p.upper - (s + p.width)) / p.width := Int.ediv_nonneg (by omega) (by omega)
    omega

/-! ## The windows left -/

theorem windows_of_some (hp : p.Sound) {s : Int} (hs : p.cursor = some s) (n : Nat) :
    p.windows (n + 1) = p.next.1 :: p.next.2.windows n := by
  have h0 := hp.skip_nonneg
  have hle := hp.le_cursor s hs
  have hstart := start_next hp hs
  rw [windows, Window.isNone_eq_false (by omega), if_neg Bool.false_ne_true]

theorem windows_of_none (h : p.cursor = none) (n : Nat) : p.windows n = [] := by
  cases n with
  | zero => rfl
  | succ n => simp [windows, next_of_none h, Window.isNone]

theorem flatMap_windows {α : Type} {n : Nat} (hp : p.Sound) (hleft : p.windowsLeft ≤ n)
    (items : List α) : (p.windows n).flatMap (fun w => w.slice items) = p.rest items := by
  induction n generalizing p with
  | zero =>
    cases hs : p.cursor with
    | none => rw [rest_of_none hs, windows_of_none hs, List.flatMap_nil]
    | some s =>
      have := windowsLeft_next hp hs
      omega
  | succ n ih =>
    cases hs : p.cursor with
    | none => rw [rest_of_none hs, windows_of_none hs, List.flatMap_nil]
    | some s =>
      have := windowsLeft_next hp hs
      rw [windows_of_some hp hs, List.flatMap_cons, ih (sound_next hp) (by omega),
        rest_next hp hs]

theorem flatMap_remaining {α : Type} (hp : p.Sound) (items : List α) :
    p.remaining.flatMap (fun w => w.slice items) = p.rest items :=
  flatMap_windows hp (Nat.le_refl _) items

/-- The bounds of the windows are signed words, so they can be written and read. -/
theorem bounds_of_mem_windows {n : Nat} (hp : p.Sound) {w : Window} (hw : w ∈ p.windows n) :
    (minWord ≤ w.start ∧ w.start ≤ maxWord) ∧ minWord ≤ w.stop ∧ w.stop ≤ maxWord := by
  induction n generalizing p with
  | zero => cases hw
  | succ n ih =>
    cases hs : p.cursor with
    | none =>
      rw [windows_of_none hs] at hw
      cases hw
    | some s =>
      rw [windows_of_some hp hs] at hw
      rcases List.mem_cons.1 hw with rfl | hw
      · have h0 := hp.skip_nonneg
        have hle := hp.le_cursor s hs
        have hmax := hp.cursor_le_max s hs
        have hupper := hp.upper_le
        have hmin : minWord < 0 := by decide
        rcases next_cases hp hs with ⟨stop, hn, hlt, hup⟩ | hn
        · rw [hn]
          exact ⟨⟨by dsimp only; omega, hmax⟩, by dsimp only; omega, by dsimp only; omega⟩
        · rw [hn]
          refine ⟨⟨by dsimp only; omega, hmax⟩, ?_⟩
          cases hu : p.unlimited with
          | true =>
            simp only [if_true]
            decide
          | false =>
            have hskip := hp.skip_le hu
            simp only [Bool.false_eq_true, if_false]
            omega
      · exact ih (sound_next hp) hw

theorem after_eq (p : Plan) (n : Nat) : p.after n = { p with cursor := (p.after n).cursor } := by
  induction n generalizing p with
  | zero => rfl
  | succ n ih =>
    have hnext : p.next.2 = { p with cursor := p.next.2.cursor } := by
      unfold next
      split <;> rfl
    rw [after, ih p.next.2, hnext]

/-- Going back does not see how many windows were handed out. -/
theorem reset_after (p : Plan) (n : Nat) : (p.after n).reset = p.reset := by
  rw [after_eq p n]
  rfl

theorem reset_make (kind : ElementKind) (width : Int) (skip : Nat) (limit : Option Nat)
    (estimate workers : Nat) :
    (make kind width skip limit estimate workers).reset =
      make kind width skip limit estimate workers := by
  simp only [reset, make]

end Plan

end GraphExport
