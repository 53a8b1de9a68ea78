import GraphExport.Job.WindowDuty

/-!
# GraphExport.Proofs.Window.Positions

Windows as sets of positions, and what a plan does to the positions that it has passed.

* `Window.mem_positions`: the positions of a window in a sequence of a length are those that it
  holds.
* `Plan.passed_next`: handing out a window passes exactly the positions of that window, and none of
  them had been passed before (`Plan.not_holds_of_passed`).
-/

namespace GraphExport

namespace Window

def positions (w : Window) (length : Nat) : List Nat := w.slice (List.range length)

def Holds (w : Window) (i : Nat) : Prop := 0 ≤ w.start ∧ w.start ≤ i ∧ (w.stop = -1 ∨ i < w.stop)

theorem not_holds_none (i : Nat) : ¬ none.Holds i := fun h => absurd h.1 (by decide)

theorem isNone_eq_false {w : Window} (h : 0 ≤ w.start) : w.isNone = false := by
  have hne : w ≠ none := by
    rintro rfl
    exact absurd h (by decide)
  simp [isNone, hne]

theorem slice_eq {α : Type} {w : Window} (h : 0 ≤ w.start) (items : List α) :
    w.slice items =
      (if w.stop = -1 then items else items.take w.stop.toNat).drop w.start.toNat := by
  simp only [slice, bounds, isNone_eq_false h, Bool.false_eq_true, if_false]
  split
  · rw [List.take_length]
    rcases Nat.le_total items.length w.start.toNat with hs | hs
    · rw [Nat.min_eq_right hs, List.drop_length, List.drop_of_length_le hs]
    · rw [Nat.min_eq_left hs]
  · rcases Nat.le_total items.length w.start.toNat with hs | hs
    · rw [Nat.min_eq_right hs, List.drop_of_length_le (by simp only [List.length_take]; omega),
        List.drop_of_length_le (by simp only [List.length_take]; omega)]
    · rw [Nat.min_eq_left hs]
      rcases Nat.le_total w.stop.toNat w.start.toNat with ht | ht
      · rw [List.drop_of_length_le (by simp only [List.length_take]; omega),
          List.drop_of_length_le (by simp only [List.length_take]; omega)]
      · rcases Nat.le_total w.stop.toNat items.length with hl | hl
        · rw [Nat.min_eq_left hl, Nat.max_eq_right ht]
        · rw [Nat.min_eq_right hl, Nat.max_eq_right hs, List.take_length, List.take_of_length_le hl]

theorem slice_map {α β : Type} (w : Window) (f : α → β) (items : List α) :
    w.slice (items.map f) = (w.slice items).map f := by
  simp only [slice, List.length_map, List.map_take, List.map_drop]

theorem map_some_slice {α : Type} (w : Window) (items : List α) :
    (w.slice items).map some = (w.positions items.length).map (items[·]?) := by
  have hall : items.map some = (List.range items.length).map (items[·]?) := by
    apply List.ext_getElem
    · simp
    · intro i h₁ h₂
      have hi : i < items.length := by simpa using h₁
      simp [List.getElem?_eq_getElem hi]
  rw [← slice_map, hall, slice_map]
  rfl

theorem length_positions {α : Type} (w : Window) (items : List α) :
    (w.positions items.length).length = (w.slice items).length := by
  simp [positions, slice]

theorem mem_positions {w : Window} (h : 0 ≤ w.start) {length i : Nat} :
    i ∈ w.positions length ↔ i < length ∧ w.Holds i := by
  have hdrop : ∀ a b : Nat,
      i ∈ ((List.range length).take b).drop a ↔ i < length ∧ a ≤ i ∧ i < b := by
    intro a b
    rw [List.take_range, List.range_eq_range', List.drop_range', List.mem_range'_1]
    omega
  have hall : (List.range length).drop w.start.toNat =
      ((List.range length).take length).drop w.start.toNat := by
    rw [List.take_of_length_le (by simp)]
  rw [positions, slice_eq h]
  by_cases hstop : w.stop = -1
  · rw [if_pos hstop, hall, hdrop, Holds]
    omega
  · rw [if_neg hstop, hdrop, Holds]
    omega

theorem nodup_positions (w : Window) (length : Nat) : (w.positions length).Nodup :=
  ((List.drop_sublist _ _).trans (List.take_sublist _ _)).nodup List.nodup_range

end Window

namespace Plan

/-- The plan has handed out, in one of its windows, the position. -/
def Passed (p : Plan) (i : Nat) : Prop :=
  p.skip ≤ i ∧
    match p.cursor with
    | some s => i < s
    | none => p.unlimited = true ∨ i < p.upper

/-- The numbers of the plan fit into signed words, and its cursor lies between its bounds. -/
structure Sound (p : Plan) : Prop where
  skip_nonneg : 0 ≤ p.skip
  upper_le : p.upper ≤ maxWord
  skip_le : p.unlimited = false → p.skip ≤ p.upper
  le_cursor : ∀ s, p.cursor = some s → p.skip ≤ s
  cursor_le : ∀ s, p.cursor = some s → p.unlimited = false → s ≤ p.upper
  cursor_le_max : ∀ s, p.cursor = some s → s ≤ maxWord

theorem wrapWord_of_lt {n : Nat} (h : (n : Int) ≤ maxWord) : wrapWord n = n := by
  rw [maxWord] at h
  rw [wrapWord, Int.bmod_def]
  omega

theorem wrapWord_le (n : Int) : wrapWord n ≤ maxWord := by
  have := @Int.bmod_lt n 0x10000000000000000 (by decide)
  simp only [wrapWord, maxWord]
  omega

theorem minWord_lt {n : Int} (h : 0 ≤ n) : n ≠ minWord := by
  have : minWord < 0 := by decide
  omega

/-- Where the numbers fit into signed words, a plan keeps them as they are. -/
theorem make_eq (kind : ElementKind) (width : Int) {skip : Nat} {limit : Option Nat}
    (estimate workers : Nat) (h : (skip + limit.getD 0 : Nat) ≤ maxWord) :
    make kind width skip limit estimate workers =
      { kind, width, skip, workers
        upper := match limit with
          | some n => ((skip + n : Nat) : Int)
          | none => wrapWord estimate
        unlimited := limit.isNone
        cursor := some (skip : Int) } := by
  have hskip : wrapWord skip = skip := wrapWord_of_lt (by omega)
  have hcursor : cursorAt (skip : Int) = some (skip : Int) := by
    simp [cursorAt, minWord_lt (n := (skip : Int)) (by omega)]
  cases limit with
  | none => simp only [make, hskip, hcursor]
  | some n =>
    have hmax : ((skip + n : Nat) : Int) ≤ maxWord := h
    have hn : wrapWord n = n := wrapWord_of_lt (by omega)
    have hadd : addSaturating skip n = ((skip + n : Nat) : Int) := by
      simp only [addSaturating, minWord, maxWord] at hmax ⊢
      omega
    simp only [make, hskip, hcursor, hn, hadd]

theorem sound_make (kind : ElementKind) (width : Int) {skip : Nat} {limit : Option Nat}
    (estimate workers : Nat) (h : (skip + limit.getD 0 : Nat) ≤ maxWord) :
    (make kind width skip limit estimate workers).Sound := by
  have hskip : (skip : Int) ≤ maxWord := by omega
  rw [make_eq kind width estimate workers h]
  cases limit with
  | none =>
    refine ⟨?_, ?_, ?_, ?_, ?_, ?_⟩ <;> simp [wrapWord_le, hskip]
  | some n =>
    have hmax : ((skip + n : Nat) : Int) ≤ maxWord := h
    have hle : (skip : Int) ≤ ((skip + n : Nat) : Int) := by omega
    refine ⟨?_, ?_, ?_, ?_, ?_, ?_⟩ <;>
      simp only [hmax, hle, hskip, Option.some.injEq, forall_eq', implies_true]
    · omega
    · exact Int.le_refl _

theorem passed_make (kind : ElementKind) (width : Int) {skip : Nat} {limit : Option Nat}
    (estimate workers : Nat) (h : (skip + limit.getD 0 : Nat) ≤ maxWord) (i : Nat) :
    ¬ (make kind width skip limit estimate workers).Passed i := by
  rw [make_eq kind width estimate workers h]
  simp only [Passed]
  omega

/-- The window that a sound plan hands out: one of its width, or the last one, where no window of
its width ends before the upper bound. -/
theorem next_eq {p : Plan} (hp : p.Sound) {s : Int} (hs : p.cursor = some s) :
    p.next = if p.width ≤ 0 ∨ p.upper ≤ s + p.width then
        (⟨s, if p.unlimited then -1 else p.upper⟩, { p with cursor := none })
      else (⟨s, s + p.width⟩, { p with cursor := some (s + p.width) }) := by
  have h0 := hp.skip_nonneg
  have hle := hp.le_cursor s hs
  have hmax := hp.upper_le
  have hsmax := hp.cursor_le_max s hs
  by_cases hlast : p.width ≤ 0 ∨ p.upper ≤ s + p.width
  · have hstop : p.width ≤ 0 ∨ p.upper ≤ addSaturating s p.width := by
      simp only [addSaturating, minWord, maxWord] at hmax hsmax ⊢
      omega
    rw [if_pos hlast]
    simp [next, hs, windowAt, hstop]
  · have hsum : addSaturating s p.width = s + p.width := by
      simp only [addSaturating, minWord, maxWord] at hmax ⊢
      omega
    have hcursor : cursorAt (s + p.width) = some (s + p.width) := by
      simp [cursorAt, minWord_lt (n := s + p.width) (by omega)]
    rw [if_neg hlast]
    simp [next, hs, windowAt, hsum, hlast, hcursor]

/-- What handing out a window does to a sound plan with windows left: it moves the cursor to the end
of the window, or it hands out the last window. -/
theorem next_cases {p : Plan} (hp : p.Sound) {s : Int} (hs : p.cursor = some s) :
    (∃ stop, p.next = (⟨s, stop⟩, { p with cursor := some stop }) ∧ s < stop ∧ stop < p.upper) ∨
      p.next = (⟨s, if p.unlimited then -1 else p.upper⟩, { p with cursor := none }) := by
  rw [next_eq hp hs]
  split
  · exact .inr rfl
  · exact .inl ⟨s + p.width, rfl, by omega, by omega⟩

theorem next_of_none {p : Plan} (h : p.cursor = none) : p.next = (.none, p) := by
  simp [next, h]

theorem start_next {p : Plan} (hp : p.Sound) {s : Int} (hs : p.cursor = some s) :
    p.next.1.start = s := by
  rcases next_cases hp hs with ⟨stop, h, -⟩ | h <;> rw [h]

theorem sound_next {p : Plan} (hp : p.Sound) : p.next.2.Sound := by
  cases hs : p.cursor with
  | none => rw [next_of_none hs]; exact hp
  | some s =>
    have hle := hp.le_cursor s hs
    rcases next_cases hp hs with ⟨stop, h, hlt, hup⟩ | h
    · rw [h]
      exact ⟨hp.skip_nonneg, hp.upper_le, hp.skip_le,
        fun t ht => by simp only [Option.some.injEq] at ht; show p.skip ≤ t; omega,
        fun t ht _ => by simp only [Option.some.injEq] at ht; show t ≤ p.upper; omega,
        fun t ht => by
          have := hp.upper_le
          simp only [Option.some.injEq] at ht
          omega⟩
    · rw [h]
      exact ⟨hp.skip_nonneg, hp.upper_le, hp.skip_le, fun t ht => by simp at ht,
        fun t ht => by simp at ht, fun t ht => by simp at ht⟩

/-- A position that was passed lies in no window to come. -/
theorem not_holds_of_passed {p : Plan} (hp : p.Sound) {i : Nat} (hi : p.Passed i) :
    ¬ p.next.1.Holds i := by
  cases hs : p.cursor with
  | none =>
    rw [next_of_none hs]
    exact Window.not_holds_none i
  | some s =>
    intro h
    have hstart := start_next hp hs
    have hlt : (i : Int) < s := by simpa [Passed, hs] using hi.2
    have := h.2.1
    omega

/-- Handing out a window passes the positions in it. -/
theorem passed_next {p : Plan} (hp : p.Sound) (i : Nat) :
    p.next.2.Passed i ↔ p.Passed i ∨ p.next.1.Holds i := by
  cases hs : p.cursor with
  | none =>
    rw [next_of_none hs]
    simp [Window.not_holds_none]
  | some s =>
    have h0 := hp.skip_nonneg
    have hle := hp.le_cursor s hs
    rcases next_cases hp hs with ⟨stop, h, hlt, hup⟩ | h
    · rw [h]
      simp only [Passed, hs, Window.Holds]
      omega
    · rw [h]
      simp only [Passed, hs, Window.Holds]
      cases hu : p.unlimited with
      | true => simp only [if_true, true_or, and_true]; omega
      | false =>
        have := hp.cursor_le s hs hu
        simp only [Bool.false_eq_true, if_false, false_or]
        omega

/-! ## What is wanted -/

def wantedPositions (skip : Nat) (limit : Option Nat) (length : Nat) : List Nat :=
  match limit with
  | none => (List.range length).drop skip
  | some n => ((List.range length).drop skip).take n

theorem mem_wantedPositions {skip : Nat} {limit : Option Nat} {length i : Nat} :
    i ∈ wantedPositions skip limit length ↔
      i < length ∧ skip ≤ i ∧ ∀ n, limit = some n → i < skip + n := by
  cases limit with
  | none =>
    rw [wantedPositions, List.range_eq_range', List.drop_range', List.mem_range'_1]
    simp only [reduceCtorEq, false_implies, implies_true, and_true]
    omega
  | some n =>
    rw [wantedPositions, List.take_drop, List.take_range, List.range_eq_range', List.drop_range',
      List.mem_range'_1]
    simp only [Option.some.injEq, forall_eq']
    omega

theorem nodup_wantedPositions (skip : Nat) (limit : Option Nat) (length : Nat) :
    (wantedPositions skip limit length).Nodup := by
  cases limit with
  | none => exact (List.drop_sublist _ _).nodup List.nodup_range
  | some n => exact ((List.take_sublist _ _).trans (List.drop_sublist _ _)).nodup List.nodup_range

/-- A plan passes only positions that are wanted, and all of them once its cursor is at the end of
the sequence. -/
theorem passed_iff_wanted {kind : ElementKind} {width : Int} {skip : Nat} {limit : Option Nat}
    {estimate workers : Nat} (h : (skip + limit.getD 0 : Nat) ≤ maxWord) {p : Plan} (hp : p.Sound)
    (hsame : p = { make kind width skip limit estimate workers with cursor := p.cursor })
    {length i : Nat} (hi : i < length) :
    (p.Passed i → i ∈ wantedPositions skip limit length) ∧
      ((∀ s, p.cursor = some s → (length : Int) ≤ s) →
        i ∈ wantedPositions skip limit length → p.Passed i) := by
  rw [make_eq kind width estimate workers h] at hsame
  have hskip : p.skip = skip := by rw [hsame]
  have hunlimited : p.unlimited = limit.isNone := by rw [hsame]
  have hupper : ∀ n, limit = some n → p.upper = ((skip + n : Nat) : Int) := by
    rintro n rfl
    rw [hsame]
  rw [mem_wantedPositions]
  simp only [Passed, hskip]
  cases hs : p.cursor with
  | none =>
    cases limit with
    | none => simp [hunlimited, hi]
    | some n =>
      have := hupper n rfl
      simp only [hunlimited, Option.isNone_some, Bool.false_eq_true, false_or, Option.some.injEq]
      refine ⟨fun hpassed => ⟨hi, by omega, ?_⟩, fun _ hwanted => ⟨by omega, ?_⟩⟩
      · rintro m rfl
        omega
      · have := hwanted.2.2 n rfl
        omega
  | some s =>
    refine ⟨fun hpassed => ⟨hi, by omega, ?_⟩, fun hend hwanted => ⟨by omega, ?_⟩⟩
    · rintro n rfl
      have := hupper n rfl
      have := hp.cursor_le s hs (by rw [hunlimited]; rfl)
      omega
    · have := hend s rfl
      omega

theorem positions_of_mem_windows {length : Nat} (fuel : Nat) {p : Plan} (hp : p.Sound)
    (hend : ∀ s, p.cursor = some s → (length : Int) ≤ s) {w : Window} (hw : w ∈ p.windows fuel) :
    w.positions length = [] := by
  induction fuel generalizing p with
  | zero => simp [windows] at hw
  | succ fuel ih =>
    cases hs : p.cursor with
    | none =>
      rw [windows, next_of_none hs] at hw
      simp [Window.isNone] at hw
    | some s =>
      have h0 := hp.skip_nonneg
      have hle := hp.le_cursor s hs
      have hlen := hend s hs
      have hstart := start_next hp hs
      rw [windows, Window.isNone_eq_false (by omega)] at hw
      simp only [Bool.false_eq_true, if_false, List.mem_cons] at hw
      rcases hw with rfl | hw
      · apply List.eq_nil_iff_forall_not_mem.2
        intro i hi
        rw [Window.mem_positions (by omega)] at hi
        have := hi.2.2.1
        omega
      · refine ih (sound_next hp) (fun t ht => ?_) hw
        rcases next_cases hp hs with ⟨stop, hn, hlt, -⟩ | hn
        · rw [hn] at ht
          simp only [Option.some.injEq] at ht
          omega
        · rw [hn] at ht
          simp at ht

end Plan

end GraphExport
