import Mathlib.Data.List.Perm.Basic
import GraphExport.Proofs.Crew.Steps
import GraphExport.Proofs.Source.Feed
import GraphExport.Proofs.Window.Positions

/-!
# GraphExport.Proofs.Window.Coverage

Workers that share a plan hand every wanted position to a handler exactly once, in whatever order
their steps come.

`Crew.Covers` is the invariant. The positions that were streamed, together with those of the windows
that workers hold, are the ones that the plan has passed, each once; and once the flag is up, the
plan has passed every position that there is. The second part is what a halt has to keep: a short
window shows that the sequence ends before the window does, and the cursor is behind that window.

* `Crew.covers_move`: every move keeps the invariant.
* `Crew.handsOut_of_ready`: what follows for a run of workers that are about to start.
* `windows_cover_elements`: the two duties by windows, writing and scanning, are cases of it.
-/

namespace GraphExport

variable {ℓ ρ : Type}

/-- A duty that takes its windows from a plan, streams the elements of one sequence, and leaves the
flag alone. -/
structure Duty.StreamsWindows (d : Duty Plan Window ℓ ρ) (items : List Element) : Prop where
  claim : d.claim = Plan.claim
  isLast : d.isLast = Plan.isLast
  perform_ok : ∀ {number w own shared count own' shared'},
    d.perform number w own shared = (.ok count, own', shared') →
      count = (w.slice items).length ∧
        shared'.progress.processed = shared.progress.processed + count
  perform_halted : ∀ number w own shared,
    (d.perform number w own shared).2.2.progress.halted = shared.progress.halted
  close_progress : ∀ own shared, (d.close own shared).2.2.progress = shared.progress

namespace Plan

theorem claim_cases {p : Plan} (hp : p.Sound) :
    (p.cursor = none ∧ p.claim = (none, p)) ∨
      ∃ s, p.cursor = some s ∧ p.claim = (some p.next.1, p.next.2) := by
  cases hs : p.cursor with
  | none =>
    left
    refine ⟨rfl, ?_⟩
    simp [claim, next_of_none hs, Window.isNone]
  | some s =>
    right
    have hstart : 0 ≤ p.next.1.start := by
      rw [start_next hp hs]
      have := hp.skip_nonneg
      have := hp.le_cursor s hs
      omega
    exact ⟨s, rfl, by simp [claim, Window.isNone_eq_false hstart]⟩

theorem claim_eq_none {p p' : Plan} (hp : p.Sound) (h : p.claim = (none, p')) :
    p.cursor = none ∧ p' = p := by
  rcases claim_cases hp with ⟨hs, hclaim⟩ | ⟨s, -, hclaim⟩
  · rw [hclaim] at h
    cases h
    exact ⟨hs, rfl⟩
  · rw [hclaim] at h
    cases h

theorem claim_eq_some {p p' : Plan} (hp : p.Sound) {w : Window} (h : p.claim = (some w, p')) :
    ∃ s, p.cursor = some s ∧ w = p.next.1 ∧ p' = p.next.2 := by
  rcases claim_cases hp with ⟨-, hclaim⟩ | ⟨s, hs, hclaim⟩
  · rw [hclaim] at h
    cases h
  · rw [hclaim] at h
    cases h
    exact ⟨s, hs, rfl, rfl⟩

end Plan

/-- A window that a worker holds came out of the plan: it starts at a position, and one with an end
is behind the cursor. -/
def Window.IsBehind (w : Window) (p : Plan) : Prop :=
  0 ≤ w.start ∧ (w.stop ≠ -1 → ∀ s, p.cursor = some s → w.start ≤ w.stop ∧ w.stop ≤ s)

theorem Window.isBehind_next {p : Plan} (hp : p.Sound) {s : Int} (hs : p.cursor = some s) :
    p.next.1.IsBehind p.next.2 := by
  have := hp.skip_nonneg
  have := hp.le_cursor s hs
  rcases Plan.next_cases hp hs with ⟨stop, h, hlt, -⟩ | h
  · rw [h]
    refine ⟨by show 0 ≤ s; omega, fun _ t ht => ?_⟩
    simp only [Option.some.injEq] at ht
    show s ≤ stop ∧ stop ≤ t
    omega
  · rw [h]
    exact ⟨by show 0 ≤ s; omega, fun _ t ht => by simp at ht⟩

theorem Window.IsBehind.next {w : Window} {p : Plan} (hp : p.Sound) (h : w.IsBehind p) :
    w.IsBehind p.next.2 := by
  cases hs : p.cursor with
  | none => rw [Plan.next_of_none hs]; exact h
  | some s =>
    refine ⟨h.1, fun hstop t ht => ?_⟩
    have hw := h.2 hstop s hs
    rcases Plan.next_cases hp hs with ⟨stop, hn, hlt, -⟩ | hn
    · rw [hn] at ht
      simp only [Option.some.injEq] at ht
      omega
    · rw [hn] at ht
      simp at ht

/-- A window that was not filled lies at the end of the sequence. -/
theorem Window.length_le_of_exceeds {w : Window} {p : Plan} (hp : p.Sound) (hw : w.IsBehind p)
    {length : Nat} (hex : w.exceeds (w.positions length).length = true) {s : Int}
    (hs : p.cursor = some s) : (length : Int) ≤ s := by
  simp only [exceeds, Bool.and_eq_true, bne_iff_ne, ne_eq, decide_eq_true_eq] at hex
  obtain ⟨hstop, hlt⟩ := hex
  obtain ⟨hle, hcursor⟩ := hw.2 hstop s hs
  have hstart := hw.1
  have hmax := hp.cursor_le_max s hs
  apply Classical.byContradiction
  intro hlong
  have hcount : (w.positions length).length = w.stop.toNat - w.start.toNat := by
    rw [positions, slice_eq hstart, if_neg hstop, List.length_drop, List.length_take,
      List.length_range]
    omega
  rw [hcount, Plan.wrapWord_of_lt (by omega)] at hlt
  omega

namespace Worker

/-- The window that the worker has taken and not streamed yet. -/
def held? (w : Worker Window ℓ ρ) : Option Window :=
  match w.stage with
  | .working piece => some piece
  | _ => none

def HasFailed (w : Worker Window ℓ ρ) : Prop := ∃ f, w.stage = .stopped (.error f)

/-- What a worker knows at its stage about the plan and the flag. -/
def Fits (length : Nat) (s : Floor Plan) (w : Worker Window ℓ ρ) : Prop :=
  match w.stage with
  | .working piece => piece.IsBehind s.supply
  | .checking piece count => piece.IsBehind s.supply ∧ count = (piece.positions length).length
  | .stopped (.ok _) => s.shared.progress.halted = true
  | _ => True

theorem Fits.mono {length : Nat} {s s' : Floor Plan} {w : Worker Window ℓ ρ}
    (h : w.Fits length s) (hp : s.supply.Sound)
    (hsupply : s'.supply = s.supply ∨ s'.supply = s.supply.next.2)
    (hhalted : s.shared.progress.halted = true → s'.shared.progress.halted = true) :
    w.Fits length s' := by
  have hbehind : ∀ piece : Window, piece.IsBehind s.supply → piece.IsBehind s'.supply := by
    intro piece hpiece
    rcases hsupply with he | he
    · rw [he]; exact hpiece
    · rw [he]; exact hpiece.next hp
  unfold Fits at h ⊢
  split at h
  · exact hbehind _ h
  · exact ⟨hbehind _ h.1, h.2⟩
  · exact hhalted h
  · trivial

theorem stop_stage (d : Duty Plan Window ℓ ρ) (f : Option Failure) (w : Worker Window ℓ ρ)
    (s : Floor Plan) :
    ∃ result, (w.stop d f s).1.stage = .stopped result ∧ (f.isSome → ∃ g, result = .error g) := by
  cases f with
  | none => exact ⟨_, rfl, by simp⟩
  | some g => exact ⟨_, rfl, fun _ => ⟨g, rfl⟩⟩

theorem stop_floor (d : Duty Plan Window ℓ ρ) (f : Option Failure) (w : Worker Window ℓ ρ)
    (s : Floor Plan) :
    (w.stop d f s).2 = { s with shared := (d.close w.own s.shared).2.2 } := by
  simp only [stop]

theorem Move.hasFailed {d : Duty Plan Window ℓ ρ} {w w' : Worker Window ℓ ρ}
    {s s' : Floor Plan} (hm : w.Move d s w' s') (h : w.HasFailed) : w'.HasFailed := by
  obtain ⟨f, hf⟩ := h
  cases hm with
  | rests _ => exact ⟨f, hf⟩
  | leaves hst _ => rw [hst] at hf; cases hf
  | goesOn hst _ => rw [hst] at hf; cases hf
  | runsOut hst _ => rw [hst] at hf; cases hf
  | takes hst _ => rw [hst] at hf; cases hf
  | does hst _ => rw [hst] at hf; cases hf
  | waits hst _ _ => rw [hst] at hf; cases hf
  | fails hst _ _ => rw [hst] at hf; cases hf
  | checks hst => rw [hst] at hf; cases hf

/-- Unless it fails, a worker counts the elements of what it streams. -/
theorem Move.processed {d : Duty Plan Window ℓ ρ} {items : List Element}
    (hd : d.StreamsWindows items) {w w' : Worker Window ℓ ρ} {s s' : Floor Plan}
    (hm : w.Move d s w' s') (h : ¬ w'.HasFailed) :
    s'.shared.progress.processed = s.shared.progress.processed +
      ((w.next? d s).toList.flatMap (·.positions items.length)).length := by
  cases hm with
  | leaves hst hh => simp [next?, hst, stop_floor, hd.close_progress]
  | goesOn hst hh => simp [next?, hst]
  | runsOut hst hclaim =>
    simp [next?, hst, stop_floor, hd.close_progress, Floor.halt, Progress.halt]
  | takes hst hclaim => simp [next?, hst]
  | does hst hp =>
    obtain ⟨hcount, hprocessed⟩ := hd.perform_ok hp
    simp [next?, hst, hp, hprocessed, hcount, Window.length_positions]
  | waits hst hp hf => simp [next?, hst, hp, hf]
  | fails hst hp hf =>
    exact absurd ⟨_, rfl⟩ h
  | checks hst =>
    simp only [next?, hst]
    split <;> simp [Floor.halt, Progress.halt]
  | rests hst => simp [next?, hst]

end Worker

namespace Crew

/-- The windows that workers have taken and not streamed yet. -/
def held (c : Crew Plan Window ℓ ρ) : List Window := c.workers.filterMap Worker.held?

/-- The invariant of a crew that has streamed some windows of a sequence of a length. -/
structure Covers (length : Nat) (start : Plan) (streamed : List Window)
    (c : Crew Plan Window ℓ ρ) : Prop where
  same : c.floor.supply = { start with cursor := c.floor.supply.cursor }
  sound : c.floor.supply.Sound
  nodup : ((streamed ++ c.held).flatMap (·.positions length)).Nodup
  mem_iff : ∀ i, i ∈ (streamed ++ c.held).flatMap (·.positions length) ↔
    i < length ∧ c.floor.supply.Passed i
  fits : ∀ w ∈ c.workers, w.Fits length c.floor
  settled : c.floor.shared.progress.halted = true →
    ∀ s, c.floor.supply.cursor = some s → (length : Int) ≤ s
  counted : (∀ w ∈ c.workers, ¬ w.HasFailed) →
    c.floor.shared.progress.processed = (streamed.flatMap (·.positions length)).length

theorem held_set_perm {c : Crew Plan Window ℓ ρ} {i : Nat} {w : Worker Window ℓ ρ}
    (hw : c.workers[i]? = some w) (w' : Worker Window ℓ ρ) (s' : Floor Plan) :
    ∃ others, c.held.Perm (w.held?.toList ++ others) ∧
      (Crew.held ⟨c.workers.set i w', s'⟩).Perm (w'.held?.toList ++ others) := by
  obtain ⟨hi, rfl⟩ := List.getElem?_eq_some_iff.1 hw
  refine ⟨(c.workers.eraseIdx i).filterMap Worker.held?, ?_, ?_⟩
  · have h := (List.getElem_cons_eraseIdx_perm hi).symm.filterMap Worker.held?
    rw [List.filterMap_cons] at h
    cases hh : c.workers[i].held? <;> simpa [held, hh] using h
  · have h := (List.set_perm_cons_eraseIdx hi w').filterMap Worker.held?
    rw [List.filterMap_cons] at h
    cases hh : w'.held? <;> simpa [held, hh] using h

/-- The invariant after a move by which the crew takes one window or none from the plan. -/
theorem Covers.advance {length : Nat} {start : Plan} {streamed streamed' : List Window}
    {c : Crew Plan Window ℓ ρ} {i : Nat} {w' : Worker Window ℓ ρ} {s' : Floor Plan}
    (hc : c.Covers length start streamed) (taken : Option Window)
    (hbag : (streamed' ++ Crew.held ⟨c.workers.set i w', s'⟩).Perm
      (taken.toList ++ (streamed ++ c.held)))
    (hsupply : (taken = none ∧ s'.supply = c.floor.supply) ∨
      (taken = some c.floor.supply.next.1 ∧ s'.supply = c.floor.supply.next.2 ∧
        ∃ s, c.floor.supply.cursor = some s))
    (hhalted : c.floor.shared.progress.halted = true → s'.shared.progress.halted = true)
    (hfits : w'.Fits length s')
    (hsettled : s'.shared.progress.halted = true →
      ∀ s, s'.supply.cursor = some s → (length : Int) ≤ s)
    (hcounted : (∀ w ∈ c.workers.set i w', ¬ w.HasFailed) → s'.shared.progress.processed =
      (streamed'.flatMap (·.positions length)).length) :
    Covers length start streamed' ⟨c.workers.set i w', s'⟩ := by
  have hpositions := hbag.flatMap_right (·.positions length)
  have hothers : ∀ w ∈ c.workers.set i w', w.Fits length s' := by
    intro w hw
    rcases List.mem_or_eq_of_mem_set hw with hw | rfl
    · refine (hc.fits w hw).mono hc.sound ?_ hhalted
      exact hsupply.imp And.right fun h => h.2.1
    · exact hfits
  rcases hsupply with ⟨rfl, he⟩ | ⟨rfl, he, s, hs⟩
  · rw [Option.toList_none, List.nil_append] at hpositions
    have hmem : ∀ j, j ∈ (streamed' ++ Crew.held ⟨c.workers.set i w', s'⟩).flatMap
        (·.positions length) ↔ j < length ∧ s'.supply.Passed j := by
      intro j
      rw [hpositions.mem_iff, he, ← hc.mem_iff]
    refine ⟨by rw [he]; exact hc.same, by rw [he]; exact hc.sound, ?_, hmem, hothers, hsettled,
      hcounted⟩
    rw [hpositions.nodup_iff]
    exact hc.nodup
  · rw [Option.toList_some, List.singleton_append, List.flatMap_cons] at hpositions
    have hstart : 0 ≤ c.floor.supply.next.1.start := by
      rw [Plan.start_next hc.sound hs]
      have := hc.sound.skip_nonneg
      have := hc.sound.le_cursor s hs
      omega
    have hsame : s'.supply = { start with cursor := s'.supply.cursor } := by
      rw [he]
      rcases Plan.next_cases hc.sound hs with ⟨stop, hn, -, -⟩ | hn
      · rw [hn]; simp only; rw [hc.same]
      · rw [hn]; simp only; rw [hc.same]
    refine ⟨hsame, by rw [he]; exact Plan.sound_next hc.sound, ?_, ?_, hothers, hsettled,
      hcounted⟩
    · rw [hpositions.nodup_iff, List.nodup_append]
      refine ⟨Window.nodup_positions _ _, hc.nodup, ?_⟩
      rintro a ha b hb rfl
      exact Plan.not_holds_of_passed hc.sound ((hc.mem_iff a).1 hb).2
        ((Window.mem_positions hstart).1 ha).2
    · intro j
      rw [hpositions.mem_iff, he, Plan.passed_next hc.sound, List.mem_append, hc.mem_iff,
        Window.mem_positions hstart]
      tauto

theorem Covers.counted_move {d : Duty Plan Window ℓ ρ} {items : List Element}
    (hd : d.StreamsWindows items) {start : Plan} {streamed : List Window}
    {c : Crew Plan Window ℓ ρ} {i : Nat} {w w' : Worker Window ℓ ρ} {s' : Floor Plan}
    (hc : c.Covers items.length start streamed) (hw : c.workers[i]? = some w)
    (hm : w.Move d c.floor w' s') (hfailed : ∀ v ∈ c.workers.set i w', ¬ v.HasFailed) :
    s'.shared.progress.processed =
      ((streamed ++ (w.next? d c.floor).toList).flatMap (·.positions items.length)).length := by
  obtain ⟨hi, rfl⟩ := List.getElem?_eq_some_iff.1 hw
  have hw' : ¬ w'.HasFailed := hfailed w' (List.mem_set hi w')
  have hbefore : ∀ v ∈ c.workers, ¬ v.HasFailed := by
    intro v hv
    obtain ⟨j, hj, rfl⟩ := List.getElem_of_mem hv
    by_cases hij : i = j
    · subst hij
      exact fun h => hw' (hm.hasFailed h)
    · refine hfailed _ ?_
      rw [← List.getElem_set_ne hij (by simpa using hj)]
      exact List.getElem_mem _
  rw [hm.processed hd hw', hc.counted hbefore, List.flatMap_append, List.length_append]

/-- A move by which a worker takes no window: what it held it holds still, or has streamed. -/
theorem Covers.stays {length : Nat} {start : Plan} {streamed : List Window}
    {c : Crew Plan Window ℓ ρ} {i : Nat} {w w' : Worker Window ℓ ρ} {s' : Floor Plan}
    (hc : c.Covers length start streamed) (hw : c.workers[i]? = some w) {next : Option Window}
    (hheld : w.held?.toList = next.toList ++ w'.held?.toList)
    (hsupply : s'.supply = c.floor.supply)
    (hhalted : c.floor.shared.progress.halted = true → s'.shared.progress.halted = true)
    (hfits : w'.Fits length s')
    (hsettled : s'.shared.progress.halted = true →
      ∀ s, c.floor.supply.cursor = some s → (length : Int) ≤ s)
    (hcounted : (∀ w ∈ c.workers.set i w', ¬ w.HasFailed) → s'.shared.progress.processed =
      ((streamed ++ next.toList).flatMap (·.positions length)).length) :
    Covers length start (streamed ++ next.toList) ⟨c.workers.set i w', s'⟩ := by
  obtain ⟨others, hbefore, hafter⟩ := held_set_perm hw w' s'
  refine hc.advance none ?_ (.inl ⟨rfl, hsupply⟩) hhalted hfits (by rwa [hsupply]) hcounted
  rw [hheld, List.append_assoc] at hbefore
  rw [Option.toList_none, List.nil_append, List.append_assoc]
  exact ((hafter.append_left next.toList).trans hbefore.symm).append_left streamed

/-- A move by which a worker stops. Without a failure it does so only when the flag is up. -/
theorem Covers.stops {d : Duty Plan Window ℓ ρ} {items : List Element}
    (hd : d.StreamsWindows items) {start : Plan} {streamed : List Window}
    {c : Crew Plan Window ℓ ρ} {i : Nat} {w v : Worker Window ℓ ρ} {s : Floor Plan}
    (hc : c.Covers items.length start streamed) (hw : c.workers[i]? = some w)
    {next : Option Window} {f : Option Failure} (hheld : w.held? = next)
    (hsupply : s.supply = c.floor.supply)
    (hhalted : c.floor.shared.progress.halted = true → s.shared.progress.halted = true)
    (hflag : f = none → s.shared.progress.halted = true)
    (hsettled : s.shared.progress.halted = true →
      ∀ t, c.floor.supply.cursor = some t → (items.length : Int) ≤ t)
    (hcounted : (∀ w ∈ c.workers.set i (v.stop d f s).1, ¬ w.HasFailed) →
      (v.stop d f s).2.shared.progress.processed =
        ((streamed ++ next.toList).flatMap (·.positions items.length)).length) :
    Covers items.length start (streamed ++ next.toList)
      ⟨c.workers.set i (v.stop d f s).1, (v.stop d f s).2⟩ := by
  have hkept : (v.stop d f s).2.shared.progress.halted = s.shared.progress.halted := by
    rw [Worker.stop_floor]
    exact congrArg Progress.halted (hd.close_progress _ _)
  obtain ⟨result, hresult, herror⟩ := Worker.stop_stage d f v s
  have hnone : (v.stop d f s).1.held? = none := by simp [Worker.held?, hresult]
  have hfits : (v.stop d f s).1.Fits items.length (v.stop d f s).2 := by
    unfold Worker.Fits
    rw [hresult]
    cases result with
    | error g => trivial
    | ok r =>
      cases f with
      | none => exact hkept.trans (hflag rfl)
      | some g => obtain ⟨_, hg⟩ := herror rfl; cases hg
  rw [← hkept] at hhalted hsettled
  exact hc.stays hw (by rw [hheld, hnone, Option.toList_none, List.append_nil])
    (by rw [Worker.stop_floor, hsupply]) hhalted hfits hsettled hcounted

/-- A move by which a worker takes the next window. -/
theorem Covers.takes {length : Nat} {start : Plan} {streamed : List Window}
    {c : Crew Plan Window ℓ ρ} {i : Nat} {w : Worker Window ℓ ρ}
    (hc : c.Covers length start streamed) (hw : c.workers[i]? = some w) (hheld : w.held? = none)
    {s : Int} (hs : c.floor.supply.cursor = some s)
    (hcounted : (∀ v ∈ c.workers.set i { w with stage := .working c.floor.supply.next.1 },
      ¬ v.HasFailed) → c.floor.shared.progress.processed =
        (streamed.flatMap (·.positions length)).length) :
    Covers length start streamed
      ⟨c.workers.set i { w with stage := .working c.floor.supply.next.1 },
        { c.floor with supply := c.floor.supply.next.2 }⟩ := by
  obtain ⟨others, hbefore, hafter⟩ := held_set_perm hw
    { w with stage := .working c.floor.supply.next.1 }
    { c.floor with supply := c.floor.supply.next.2 }
  rw [hheld, Option.toList_none, List.nil_append] at hbefore
  refine hc.advance (some c.floor.supply.next.1) ?_ (.inr ⟨rfl, rfl, s, hs⟩) id
    (Window.isBehind_next hc.sound hs) (fun hh t ht => ?_) hcounted
  · refine (hafter.append_left streamed).trans ?_
    refine (List.perm_append_comm_assoc streamed [c.floor.supply.next.1] others).trans ?_
    exact (hbefore.symm.append_left streamed).append_left [c.floor.supply.next.1]
  · have hset := hc.settled hh s hs
    rcases Plan.next_cases hc.sound hs with ⟨stop, hn, hlt, -⟩ | hn
    · rw [hn] at ht
      simp only [Option.some.injEq] at ht
      omega
    · rw [hn] at ht
      simp at ht

/-- Every move keeps the invariant. -/
theorem covers_move {d : Duty Plan Window ℓ ρ} {items : List Element}
    (hd : d.StreamsWindows items) {start : Plan} {streamed : List Window}
    {c : Crew Plan Window ℓ ρ} {i : Nat} {w w' : Worker Window ℓ ρ} {s' : Floor Plan}
    (hc : c.Covers items.length start streamed) (hw : c.workers[i]? = some w)
    (hm : w.Move d c.floor w' s') :
    Covers items.length start (streamed ++ (w.next? d c.floor).toList)
      ⟨c.workers.set i w', s'⟩ := by
  have hfits := hc.fits w (List.mem_of_getElem? hw)
  have hcounted := hc.counted_move hd hw hm
  have hperform : ∀ {piece result own shared},
      d.perform w.number piece w.own c.floor.shared = (result, own, shared) →
        shared.progress.halted = c.floor.shared.progress.halted := by
    intro piece result own shared hp
    have := hd.perform_halted w.number piece w.own c.floor.shared
    rwa [hp] at this
  cases hm with
  | leaves hst hflag =>
    have hnext : w.next? d c.floor = none := by simp [Worker.next?, hst]
    rw [hnext] at hcounted ⊢
    exact hc.stops hd hw (by simp [Worker.held?, hst]) rfl id (fun _ => hflag) hc.settled hcounted
  | goesOn hst hflag =>
    exact hc.stays hw (by simp [Worker.held?, Worker.next?, hst]) rfl id (by simp [Worker.Fits])
      hc.settled hcounted
  | @runsOut supply hst hclaim =>
    rw [hd.claim] at hclaim
    obtain ⟨hs, rfl⟩ := Plan.claim_eq_none hc.sound hclaim
    have hnext : w.next? d c.floor = none := by simp [Worker.next?, hst]
    rw [hnext] at hcounted ⊢
    refine hc.stops hd hw (by simp [Worker.held?, hst]) rfl (fun _ => rfl) (fun _ => rfl)
      (fun _ t ht => ?_) hcounted
    rw [hs] at ht
    cases ht
  | @takes piece supply hst hclaim =>
    rw [hd.claim] at hclaim
    obtain ⟨s, hs, rfl, rfl⟩ := Plan.claim_eq_some hc.sound hclaim
    have hnext : w.next? d c.floor = none := by simp [Worker.next?, hst]
    rw [hnext, Option.toList_none, List.append_nil] at hcounted ⊢
    exact hc.takes hw (by simp [Worker.held?, hst]) hs hcounted
  | @does piece count own shared hst hp =>
    have hbehind : piece.IsBehind c.floor.supply := by simpa [Worker.Fits, hst] using hfits
    refine hc.stays hw (by simp [Worker.held?, Worker.next?, hst, hp]) rfl
      (fun h => (hperform hp).trans h) ?_ (fun h => hc.settled ((hperform hp).symm.trans h))
      hcounted
    exact ⟨hbehind, by rw [Window.length_positions]; exact (hd.perform_ok hp).1⟩
  | @waits piece f own shared hst hp hf =>
    exact hc.stays hw (by simp [Worker.next?, hst, hp, hf]) rfl id hfits hc.settled hcounted
  | @fails piece f own shared hst hp hf =>
    exact hc.stops hd hw (by simp [Worker.held?, Worker.next?, hst, hp, hf]) rfl
      (fun h => (hperform hp).trans h) (fun h => by cases h)
      (fun h => hc.settled ((hperform hp).symm.trans h)) hcounted
  | @checks piece count hst =>
    rw [hd.isLast] at hcounted ⊢
    obtain ⟨hbehind, hcount⟩ : piece.IsBehind c.floor.supply ∧
        count = (piece.positions items.length).length := by simpa [Worker.Fits, hst] using hfits
    have hheld : w.held?.toList = (w.next? d c.floor).toList ++
        ({ w with stage := .testing } : Worker Window ℓ ρ).held?.toList := by
      simp [Worker.held?, Worker.next?, hst]
    by_cases hlast : Plan.isLast piece count c.floor.supply = true
    · rw [if_pos hlast] at hcounted ⊢
      refine hc.stays hw hheld rfl (fun _ => rfl) (by simp [Worker.Fits]) (fun _ s hs => ?_)
        hcounted
      have hex : piece.exceeds count = true := by
        simpa [Plan.isLast, Plan.isExhausted, hs] using hlast
      rw [hcount] at hex
      exact Window.length_le_of_exceeds hc.sound hbehind hex hs
    · rw [if_neg hlast] at hcounted ⊢
      exact hc.stays hw hheld rfl id (by simp [Worker.Fits]) hc.settled hcounted
  | rests hst =>
    exact hc.stays hw (by simp [Worker.next?, hst]) rfl id hfits hc.settled hcounted

/-- A run keeps the invariant, and the windows done in it count as streamed. -/
theorem covers_play {d : Duty Plan Window ℓ ρ} {items : List Element}
    (hd : d.StreamsWindows items) {start : Plan} (turns : List Nat) {streamed : List Window}
    {c : Crew Plan Window ℓ ρ} (hc : c.Covers items.length start streamed) :
    (c.play d turns).Covers items.length start (streamed ++ c.done d turns) :=
  play_records (P := fun streamed c => c.Covers items.length start streamed)
    (fun _ _ _ _ _ _ h hw hm => covers_move hd h hw hm) turns hc

/-- The workers are about to start on a plan. -/
structure Ready (plan : Plan) (c : Crew Plan Window ℓ ρ) : Prop where
  testing : ∀ w ∈ c.workers, w.stage = .testing
  supply : c.floor.supply = plan
  progress : c.floor.shared.progress = {}

theorem ready_start (count : Nat) (own : ℓ) (plan : Plan) (shared : Shared) :
    (start (ρ := ρ) (ω := Window) count own plan { shared with progress := {} }).Ready plan := by
  refine ⟨fun w hw => ?_, rfl, rfl⟩
  obtain ⟨number, -, rfl⟩ := List.mem_map.1 hw
  rfl

theorem covers_of_ready {kind : ElementKind} {width : Int} {skip : Nat} {limit : Option Nat}
    {estimate workers : Nat} (h : (skip + limit.getD 0 : Nat) ≤ maxWord) (length : Nat)
    {c : Crew Plan Window ℓ ρ} (hc : c.Ready (.make kind width skip limit estimate workers)) :
    c.Covers length (.make kind width skip limit estimate workers) [] := by
  have hheld : c.held = [] := by
    rw [held, List.filterMap_eq_nil_iff]
    intro w hw
    simp [Worker.held?, hc.testing w hw]
  refine ⟨by rw [hc.supply], by rw [hc.supply]; exact Plan.sound_make kind width estimate workers h,
    by simp [hheld], fun i => ?_, fun w hw => by simp [Worker.Fits, hc.testing w hw], fun hh => ?_,
    fun _ => by simp [hc.progress]⟩
  · have := Plan.passed_make kind width estimate workers h i
    simp [hheld, hc.supply, this]
  · rw [hc.progress] at hh
    cases hh

theorem length_workers_play (d : Duty Plan Window ℓ ρ) (turns : List Nat)
    (c : Crew Plan Window ℓ ρ) : (c.play d turns).workers.length = c.workers.length := by
  refine play_keeps (P := fun c' => c'.workers.length = c.workers.length) ?_ turns rfl
  intro c' i w w' s' h _ _
  simpa using h

/-- The positions that are handed out in a run over a sequence of a length. -/
def handled (d : Duty Plan Window ℓ ρ) (length : Nat) (turns : List Nat)
    (c : Crew Plan Window ℓ ρ) : List Nat :=
  (c.done d turns).flatMap (·.positions length)

/-- A run over a sequence hands out wanted positions, none of them twice, and all of them once every
worker has stopped. What is left of the plan after a halt holds nothing. -/
structure HandsOut (d : Duty Plan Window ℓ ρ) (deliver : Window → List Element)
    (items : List Element) (skip : Nat) (limit : Option Nat) (turns : List Nat)
    (c : Crew Plan Window ℓ ρ) : Prop where
  /-- What is delivered are the elements at the positions handed out. -/
  delivered : ((c.done d turns).flatMap deliver).map some =
    (c.handled d items.length turns).map (items[·]?)
  nodup : (c.handled d items.length turns).Nodup
  wanted : c.handled d items.length turns ⊆ Plan.wantedPositions skip limit items.length
  counted : (∀ w ∈ (c.play d turns).workers, ¬ w.HasFailed) →
    (c.play d turns).floor.shared.progress.processed = (c.handled d items.length turns).length
  complete : c.workers ≠ [] →
    (∀ w ∈ (c.play d turns).workers, ∃ left, w.stage = .stopped (.ok left)) →
    (c.handled d items.length turns).Perm (Plan.wantedPositions skip limit items.length)
  halted : (c.play d turns).floor.shared.progress.halted = true →
    ∀ w ∈ (c.play d turns).floor.supply.remaining, w.positions items.length = []

theorem delivered_of_slice {deliver : Window → List Element} {items : List Element}
    (hdeliver : ∀ w, deliver w = w.slice items) (windows : List Window) :
    (windows.flatMap deliver).map some =
      (windows.flatMap (·.positions items.length)).map (items[·]?) := by
  induction windows with
  | nil => rfl
  | cons w rest ih =>
    rw [List.flatMap_cons, List.flatMap_cons, List.map_append, List.map_append, ih, hdeliver,
      Window.map_some_slice]

/-- What is delivered are the elements at the positions handed out. -/
theorem HandsOut.mem_delivered {d : Duty Plan Window ℓ ρ} {deliver : Window → List Element}
    {items : List Element} {skip : Nat} {limit : Option Nat} {turns : List Nat}
    {c : Crew Plan Window ℓ ρ} (h : c.HandsOut d deliver items skip limit turns) {e : Element} :
    e ∈ (c.done d turns).flatMap deliver ↔
      ∃ i ∈ c.handled d items.length turns, items[i]? = some e := by
  rw [← List.mem_map, ← h.delivered, List.mem_map]
  simp

theorem handsOut_of_ready {d : Duty Plan Window ℓ ρ} {items : List Element}
    (hd : d.StreamsWindows items) {deliver : Window → List Element}
    (hdeliver : ∀ w, deliver w = w.slice items) {kind : ElementKind} {width : Int} {skip : Nat}
    {limit : Option Nat} {estimate workers : Nat} (h : (skip + limit.getD 0 : Nat) ≤ maxWord)
    (turns : List Nat) {c : Crew Plan Window ℓ ρ}
    (hc : c.Ready (.make kind width skip limit estimate workers)) :
    c.HandsOut d deliver items skip limit turns := by
  have hend := covers_play hd turns (covers_of_ready h items.length hc)
  rw [List.nil_append] at hend
  have hpassed := fun i (hi : i < items.length) => Plan.passed_iff_wanted h hend.sound hend.same hi
  have hnodup : (c.handled d items.length turns).Nodup := by
    have := hend.nodup
    rw [List.flatMap_append, List.nodup_append] at this
    exact this.1
  have hwanted : c.handled d items.length turns ⊆
      Plan.wantedPositions skip limit items.length := by
    intro i hi
    have hi : i < items.length ∧ (c.play d turns).floor.supply.Passed i := by
      rw [← hend.mem_iff, List.flatMap_append]
      exact List.mem_append_left _ hi
    exact (hpassed i hi.1).1 hi.2
  refine ⟨delivered_of_slice hdeliver _, hnodup, hwanted, hend.counted, fun hne hstopped => ?_,
    fun hh w hw => ?_⟩
  · have hheld : (c.play d turns).held = [] := by
      rw [held, List.filterMap_eq_nil_iff]
      intro w hw
      obtain ⟨left, hleft⟩ := hstopped w hw
      simp [Worker.held?, hleft]
    -- Some worker has stopped, so the flag is up.
    have hhalted : (c.play d turns).floor.shared.progress.halted = true := by
      have hpos : 0 < (c.play d turns).workers.length := by
        rw [length_workers_play]
        exact List.length_pos_iff.2 hne
      obtain ⟨w, hw⟩ := List.exists_mem_of_length_pos hpos
      obtain ⟨left, hleft⟩ := hstopped w hw
      have := hend.fits w hw
      rw [Worker.Fits, hleft] at this
      exact this
    refine (List.perm_ext_iff_of_nodup hnodup (Plan.nodup_wantedPositions _ _ _)).2 fun i => ?_
    refine ⟨fun hi => hwanted hi, fun hi => ?_⟩
    have hlt := (Plan.mem_wantedPositions.1 hi).1
    have := (hend.mem_iff i).2 ⟨hlt, (hpassed i hlt).2 (hend.settled hhalted) hi⟩
    simpa [handled, hheld] using this
  · exact Plan.positions_of_mem_windows _ hend.sound (hend.settled hh) hw

end Crew

/-! ## Writing and scanning -/

theorem Station.progress_put (filters : KindFilters) (e : Element) (s : Station) :
    (s.put filters e).2.shared.progress = s.shared.progress := by
  unfold put
  split
  · rfl
  · unfold record
    rcases s.pool.writeElement _ _ e s.shared.disk with ⟨result, pool, disk⟩
    cases result <;> rfl
  · split <;> rfl

section Ticks

variable {σ : Type} {step : Element → σ → Except Failure Unit × σ} (progress : σ → Progress)

/-- A step that counts each element counts all that are fed to it. -/
theorem Delivery.processed_feed (hstep : ∀ e s, progress (step e s).2 = (progress s).tick)
    {items : List Element} {s s' : σ} {count : Nat}
    (h : Delivery.feed { items } step s = (.ok count, s')) :
    count = items.length ∧ (progress s').processed = (progress s).processed + count := by
  rcases Delivery.feed_cases { items } step s with ⟨t, ht, hfeed, -⟩ | ⟨f, hf⟩
  · rw [ht] at h
    cases h
    refine ⟨rfl, ?_⟩
    have := feed_ok_keeps
      (P := fun done t => (progress t).processed = (progress s).processed + done.length)
      (fun e done t t' hdone ht => ?_) items (by rw [List.length_nil, Nat.add_zero]) hfeed
    · simpa using this
    · have hnext := hstep e t
      rw [ht] at hnext
      rw [hnext, List.length_append, List.length_singleton, ← Nat.add_assoc, ← hdone]
      rfl
  · rw [hf] at h
    cases h

theorem Delivery.halted_feed (hstep : ∀ e s, progress (step e s).2 = (progress s).tick)
    (d : Delivery Element) (s : σ) :
    (progress (d.feed step s).2).halted = (progress s).halted := by
  have hkeeps : (progress (GraphExport.feed step d.items s).2).halted = (progress s).halted :=
    feed_keeps (P := fun t => (progress t).halted = (progress s).halted)
      (fun e t ht => by rw [hstep]; exact ht) d.items rfl
  rcases d.feed_cases step s with ⟨t, ht, hfeed, -⟩ | ⟨f, hf⟩
  · rw [ht]
    rwa [hfeed] at hkeeps
  · rw [hf]
    exact hkeeps

end Ticks

section Duties

variable {client : Client} {items : List Element} {kind : ElementKind} {filter : LabelFilter}

theorem streamsWindows_export
    (hclient : ∀ w : Window, client.elements (windowQuery kind filter w) =
      { items := w.slice items }) :
    (exportDuty client filter kind).StreamsWindows items where
  claim := rfl
  isLast := rfl
  perform_ok := by
    intro number w pool shared count pool' shared' h
    simp only [exportDuty, hclient, Prod.mk.injEq] at h
    obtain ⟨hcount, -, rfl⟩ := h
    exact Delivery.processed_feed (fun s => s.shared.progress)
      (fun e s => Station.progress_put _ e s.tick) (Prod.ext (within_ok hcount) rfl)
  perform_halted := by
    intro number w pool shared
    simp only [exportDuty, hclient]
    exact Delivery.halted_feed (fun s => s.shared.progress)
      (fun e s => Station.progress_put _ e s.tick) _ (⟨pool, shared⟩ : Station)
  close_progress := fun _ _ => rfl

theorem progress_scanStep (filter : LabelFilter) (e : Element) (s : GraphSchema × Shared) :
    (scanStep filter e s).2.2.progress = s.2.progress.tick := rfl

theorem streamsWindows_scan
    (hclient : ∀ w : Window, client.elements (windowQuery kind filter w) =
      { items := w.slice items }) :
    (scanDuty client filter kind).StreamsWindows items where
  claim := rfl
  isLast := rfl
  perform_ok := by
    intro number w schema shared count schema' shared' h
    simp only [scanDuty, hclient, Prod.mk.injEq] at h
    obtain ⟨hcount, -, rfl⟩ := h
    exact Delivery.processed_feed (fun s => s.2.progress) (progress_scanStep filter)
      (Prod.ext (within_ok hcount) rfl)
  perform_halted := by
    intro number w schema shared
    simp only [scanDuty, hclient]
    exact Delivery.halted_feed (fun s => s.2.progress) (progress_scanStep filter) _ (schema, shared)
  close_progress := fun _ _ => rfl

/-- Workers that write or scan a sequence by the windows of one plan hand out every wanted element
once, in whatever order their steps come. -/
theorem windows_cover_elements
    (hclient : ∀ w : Window, client.elements (windowQuery kind filter w) =
      { items := w.slice items })
    {width : Int} {skip : Nat} {limit : Option Nat} {estimate workers : Nat}
    (hfit : (skip + limit.getD 0 : Nat) ≤ maxWord) (turns : List Nat) :
    (∀ c : Crew Plan Window Pool (PerKind Fragments),
      c.Ready (.make kind width skip limit estimate workers) →
        c.HandsOut (exportDuty client filter kind)
          (fun w => (client.elements (windowQuery kind filter w)).items) items skip limit turns) ∧
    ∀ c : Crew Plan Window GraphSchema Collection,
      c.Ready (.make kind width skip limit estimate workers) →
        c.HandsOut (scanDuty client filter kind)
          (fun w => (client.elements (windowQuery kind filter w)).items) items skip limit
          turns := by
  have hdeliver : ∀ w : Window,
      (client.elements (windowQuery kind filter w)).items = w.slice items := by
    intro w
    rw [hclient]
  refine ⟨fun c hc => ?_, fun c hc => ?_⟩
  · exact Crew.handsOut_of_ready (streamsWindows_export hclient) hdeliver hfit turns hc
  · exact Crew.handsOut_of_ready (streamsWindows_scan hclient) hdeliver hfit turns hc

end Duties

def threeNodes : List Element :=
  ["a", "b", "c"].map fun id => .node { id, tags := ["t"], properties := ∅ }

/-- Two workers scan three nodes from the second one on, in windows of one. -/
theorem windows_cover_three_nodes :
    let client := Client.scripted none threeNodes [] []
    let duty := scanDuty client (.all .node) .nodes
    let crew := Crew.start 2 .empty (.make .nodes 1 1 none 3 2) { disk := ⟨∅, 0, { max := 0 }⟩ }
    let turns := [0, 1, 0, 1, 0, 1, 1, 0, 0, 1, 0, 1]
    crew.HandsOut duty (fun w => (client.elements (windowQuery .nodes (.all .node) w)).items)
        threeNodes 1 none turns ∧
      crew.handled duty 3 turns = [1, 2] ∧
      (crew.play duty turns).workers.all (fun w =>
        match w.stage with
        | .stopped (.ok _) => true
        | _ => false) := by
  refine ⟨?_, by decide +kernel, by decide +kernel⟩
  have hclient : ∀ w : Window, (Client.scripted none threeNodes [] []).elements
      (windowQuery .nodes (.all .node) w) = { items := w.slice threeNodes } := fun _ => rfl
  exact (windows_cover_elements hclient (by decide) _).2 _
    (Crew.ready_start 2 _ _ { disk := ⟨∅, 0, { max := 0 }⟩ })

end GraphExport
