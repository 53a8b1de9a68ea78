import GraphExport.Proofs.Window.Coverage
import GraphExport.Proofs.Window.Rest

/-!
# GraphExport.Proofs.Crew.Alone

A worker by itself. However its plan cuts the sequence into windows, it streams the wanted elements
in their order, and it stops.

* `Worker.run_windows`: the run of a worker by itself is one feed of the elements of its plan.
  `Worker.feeds_scan`: so it is of one that scans. `Worker.run_alone`: so it is of one that writes.
* `Crew.finish_alone`, `Crew.ends_alone`: so it is for a crew of one worker.
-/

namespace GraphExport

namespace Worker

section Steps

variable {π ω ℓ ρ : Type} {d : Duty π ω ℓ ρ} {w : Worker ω ℓ ρ} {s : Floor π}

theorem run_of_stopped {result : Except Failure ρ} (h : w.stage = .stopped result) (n : Nat) :
    w.run d n s = (w, s) := by
  cases n with
  | zero => rfl
  | succ n => simp [run, h]

theorem run_leaves (hst : w.stage = .testing) (hh : s.shared.progress.halted = true) (n : Nat) :
    w.run d (n + 1) s = w.stop d none s := by
  rw [run_succ]
  simp only [step, hst, Progress.mayContinue, hh]
  exact run_of_stopped rfl n

theorem run_runsOut {supply : π} (hst : w.stage = .testing)
    (hh : s.shared.progress.halted = false) (hclaim : d.claim s.supply = (none, supply)) (n : Nat) :
    w.run d (n + 2) s = w.stop d none { s with supply }.halt := by
  rw [run_succ, run_succ]
  simp only [step, hst, Progress.mayContinue, hh, hclaim, Bool.not_false, if_true]
  exact run_of_stopped rfl n

theorem run_round {piece : ω} {supply : π} {count : Nat} {own : ℓ} {shared : Shared}
    (hst : w.stage = .testing) (hh : s.shared.progress.halted = false)
    (hclaim : d.claim s.supply = (some piece, supply))
    (hdoes : d.perform w.number piece w.own s.shared = (.ok count, own, shared)) (n : Nat) :
    w.run d (n + 4) s = run d n { w with own, stage := .testing }
      (if d.isLast piece count supply then Floor.halt { supply, shared }
        else { supply, shared }) := by
  rw [run_succ, run_succ, run_succ, run_succ]
  simp only [step, hst, Progress.mayContinue, hh, hclaim, hdoes, Bool.not_false, if_true]

theorem run_fails {piece : ω} {supply : π} {f : Failure} {own : ℓ} {shared : Shared}
    (hst : w.stage = .testing) (hh : s.shared.progress.halted = false)
    (hclaim : d.claim s.supply = (some piece, supply))
    (hfails : d.perform w.number piece w.own s.shared = (.error f, own, shared))
    (hf : f.cause ≠ .handlesBusy) (n : Nat) :
    w.run d (n + 3) s =
      stop d (some f) { w with own, stage := .working piece } { supply, shared } := by
  rw [run_succ, run_succ, run_succ]
  simp only [step, hst, Progress.mayContinue, hh, hclaim, hfails, Bool.not_false, if_true,
    if_neg hf]
  exact run_of_stopped rfl n

end Steps

section Windows

variable {ℓ ρ : Type} {d : Duty Plan Window ℓ ρ} {items : List Element}
  {step : Element → ℓ × Shared → Except Failure Unit × ℓ × Shared}

/-- What becomes of a worker, if what it did by itself has this outcome. -/
def Ends {π ω : Type} (d : Duty π ω ℓ ρ) (fed : Except Failure Unit × ℓ × Shared)
    (after : Worker ω ℓ ρ × Floor π) : Prop :=
  match fed with
  | (.ok _, own, shared) => ∃ progress,
      after.1.stage = .stopped (.ok (d.close own { shared with progress }).1) ∧
        after.2.shared = (d.close own { shared with progress }).2.2
  | (.error f, _) => f.cause = .handlesBusy ∨
      ∃ g, after.1.stage = .stopped (.error g) ∧ g.cause = f.cause

/-- What the duty does with a window is to feed its elements to a step. -/
structure Feeds (d : Duty Plan Window ℓ ρ) (items : List Element)
    (step : Element → ℓ × Shared → Except Failure Unit × ℓ × Shared) : Prop where
  streams : d.StreamsWindows items
  perform : ∀ number w own shared, ∃ context, d.perform number w own shared =
    (within context ((feed step (w.slice items) (own, shared)).1.map fun _ =>
      (w.slice items).length), (feed step (w.slice items) (own, shared)).2)

theorem ends_of_rest_nil (hd : d.StreamsWindows items) {p : Plan} (hp : p.Sound) {own : ℓ}
    {shared : Shared} (hdone : p.cursor = none ∨ shared.progress.halted = true) (number n : Nat) :
    Ends d (.ok (), own, shared) (run d (n + 2) ⟨number, own, .testing⟩ ⟨p, shared⟩) := by
  cases hh : shared.progress.halted with
  | true =>
    rw [run_leaves rfl hh]
    exact ⟨shared.progress, rfl, rfl⟩
  | false =>
    have hcursor : p.cursor = none := hdone.resolve_right (by simp [hh])
    rcases Plan.claim_cases hp with ⟨-, hclaim⟩ | ⟨s, hs, -⟩
    · rw [← hd.claim] at hclaim
      rw [run_runsOut (s := ⟨p, shared⟩) rfl hh hclaim]
      exact ⟨_, rfl, rfl⟩
    · rw [hcursor] at hs
      cases hs

/-- The run of a worker by itself is one feed of the elements of its plan. -/
theorem run_windows (hd : Feeds d items step) (n : Nat) {p : Plan} (hp : p.Sound)
    (hleft : p.windowsLeft ≤ n) (own : ℓ) {shared : Shared}
    (hh : shared.progress.halted = false) (number : Nat) :
    Ends d (feed step (p.rest items) (own, shared))
      (run d (stepsFor n) ⟨number, own, .testing⟩ ⟨p, shared⟩) := by
  induction n generalizing p own shared with
  | zero =>
    have hcursor : p.cursor = none := by
      cases hs : p.cursor with
      | none => rfl
      | some s =>
        have := Plan.windowsLeft_next hp hs
        omega
    rw [Plan.rest_of_none hcursor, feed_nil]
    exact ends_of_rest_nil hd.streams hp (.inl hcursor) number 2
  | succ n ih =>
    rcases Plan.claim_cases hp with ⟨hcursor, -⟩ | ⟨s, hs, hclaim⟩
    · rw [Plan.rest_of_none hcursor, feed_nil]
      exact ends_of_rest_nil hd.streams hp (.inl hcursor) number (4 * (n + 1) + 2)
    · have hsteps : stepsFor (n + 1) = stepsFor n + 4 := by simp only [stepsFor]; omega
      obtain ⟨context, hperform⟩ := hd.perform number p.next.1 own shared
      rw [← hd.streams.claim] at hclaim
      rw [Plan.rest_next hp hs, hsteps]
      rcases hfeed : feed step (p.next.1.slice items) (own, shared) with ⟨result, own', shared'⟩
      rw [hfeed] at hperform
      cases result with
      | error f =>
        rw [feed_append_error hfeed]
        by_cases hf : f.cause = .handlesBusy
        · exact .inl hf
        · have hfails : d.perform number p.next.1 own shared =
              (.error (f.within context), own', shared') := hperform
          refine .inr ?_
          rw [show stepsFor n + 4 = stepsFor n + 1 + 3 from rfl,
            run_fails (s := ⟨p, shared⟩) (f := f.within _) rfl hh hclaim hfails hf]
          exact ⟨_, rfl, rfl⟩
      | ok _ =>
        rw [feed_append_ok hfeed, run_round (s := ⟨p, shared⟩) rfl hh hclaim hperform]
        have hhalted : shared'.progress.halted = false := by
          have := hd.streams.perform_halted number p.next.1 own shared
          rw [hperform] at this
          exact this.trans hh
        have hnext := Plan.sound_next hp
        rw [hd.streams.isLast]
        by_cases hlast : Plan.isLast p.next.1 (p.next.1.slice items).length p.next.2 = true
        · -- The last window: the plan has nothing more, whether the flag goes up or not.
          rw [if_pos hlast]
          have hend : ∀ t, p.next.2.cursor = some t → (items.length : Int) ≤ t := by
            intro t ht
            have hex : p.next.1.exceeds (p.next.1.slice items).length = true := by
              simpa [Plan.isLast, Plan.isExhausted, ht] using hlast
            rw [← Window.length_positions] at hex
            exact Window.length_le_of_exceeds hnext (Window.isBehind_next hp hs) hex ht
          rw [Plan.rest_of_end hnext items hend, feed_nil]
          have hends :
              Ends d (.ok (), own', { shared' with progress := shared'.progress.halt }) _ :=
            ends_of_rest_nil hd.streams hnext (.inr rfl) number (4 * n + 2)
          exact hends
        · rw [if_neg hlast]
          have hleft' := Plan.windowsLeft_next hp hs
          exact ih hnext (by omega) _ hhalted

theorem feeds_scan {client : Client} {kind : ElementKind} {filter : LabelFilter}
    (hclient : ∀ w : Window, client.elements (windowQuery kind filter w) =
      { items := w.slice items }) :
    Feeds (scanDuty client filter kind) items (scanStep filter) where
  streams := streamsWindows_scan hclient
  perform number w schema shared := by
    refine ⟨taskContext number (windowQuery kind filter w).text, ?_⟩
    simp only [scanDuty, hclient, Delivery.feed]
    rcases feed (scanStep filter) (w.slice items) (schema, shared) with ⟨result, s⟩
    cases result <;> rfl

end Windows

section Export

variable {client : Client} {items : List Element} {kind : ElementKind} {filter : LabelFilter}

/-- What becomes of a worker that writes files, if all that it was to stream was fed to its station
with this outcome. -/
def EndsWith {π ω : Type} (fed : Except Failure Unit × Station)
    (after : Worker ω Pool (PerKind Fragments) × Floor π) : Prop :=
  match fed with
  | (.ok _, s) => after.1.stage = .stopped (.ok (s.pool.close s.shared.disk).1) ∧
      ∃ progress, after.2.shared =
        { s.shared with disk := (s.pool.close s.shared.disk).2.2, progress }
  | (.error f, _) => f.cause = .handlesBusy ∨
      ∃ g, after.1.stage = .stopped (.error g) ∧ g.cause = f.cause

/-- What the duty of writing does with an element. -/
def exportStep (filter : LabelFilter) (e : Element) (s : Station) : Except Failure Unit × Station :=
  s.tick.put (.single filter) e

theorem feed_exportStep (filter : LabelFilter) (items : List Element) (pool : Pool)
    (shared : Shared) :
    feed (fun e s => ((exportStep filter e ⟨s.1, s.2⟩).1, (exportStep filter e ⟨s.1, s.2⟩).2.pool,
        (exportStep filter e ⟨s.1, s.2⟩).2.shared)) items (pool, shared) =
      ((feed (exportStep filter) items ⟨pool, shared⟩).1,
        (feed (exportStep filter) items ⟨pool, shared⟩).2.pool,
        (feed (exportStep filter) items ⟨pool, shared⟩).2.shared) :=
  feed_image (g := fun s : Station => (s.pool, s.shared)) (P := fun _ => True)
    (s := ⟨pool, shared⟩) (fun _ _ _ _ => ⟨rfl, trivial⟩) trivial

theorem feeds_export
    (hclient : ∀ w : Window, client.elements (windowQuery kind filter w) =
      { items := w.slice items }) :
    Feeds (exportDuty client filter kind) items fun e s =>
      ((exportStep filter e ⟨s.1, s.2⟩).1, (exportStep filter e ⟨s.1, s.2⟩).2.pool,
        (exportStep filter e ⟨s.1, s.2⟩).2.shared) where
  streams := streamsWindows_export hclient
  perform number w pool shared := by
    let d : Delivery Element := { items := w.slice items }
    have hperform : (exportDuty client filter kind).perform number w pool shared =
        (within (taskContext number (windowQuery kind filter w).text)
          (d.feed (exportStep filter) ⟨pool, shared⟩).1,
          (d.feed (exportStep filter) ⟨pool, shared⟩).2.pool,
          (d.feed (exportStep filter) ⟨pool, shared⟩).2.shared) := by
      simp only [exportDuty, hclient]
      rfl
    refine ⟨taskContext number (windowQuery kind filter w).text, hperform.trans ?_⟩
    rw [feed_exportStep, Delivery.feed]
    rcases feed (exportStep filter) (w.slice items) ⟨pool, shared⟩ with ⟨result, s⟩
    cases result <;> rfl

/-- So it is of a worker that writes files. -/
theorem run_alone
    (hclient : ∀ w : Window, client.elements (windowQuery kind filter w) =
      { items := w.slice items })
    (n : Nat) {p : Plan} (hp : p.Sound) (hleft : p.windowsLeft ≤ n) (pool : Pool) {shared : Shared}
    (hh : shared.progress.halted = false) (number : Nat) :
    EndsWith (feed (exportStep filter) (p.rest items) ⟨pool, shared⟩)
      (run (exportDuty client filter kind) (stepsFor n) ⟨number, pool, .testing⟩ ⟨p, shared⟩) := by
  have hends := run_windows (feeds_export hclient) n hp hleft pool hh number
  rw [feed_exportStep] at hends
  generalize feed (exportStep filter) (p.rest items) ⟨pool, shared⟩ = fed at hends ⊢
  obtain ⟨result, s⟩ := fed
  cases result with
  | error f => exact hends
  | ok _ =>
    obtain ⟨progress, hstage, hshared⟩ := hends
    exact ⟨hstage, progress, hshared⟩

end Export

end Worker

namespace Crew

variable {π ω ℓ ρ : Type} {d : Duty π ω ℓ ρ}

theorem finish_alone {own : ℓ} {supply : π} {shared : Shared} {n : Nat} {w : Worker ω ℓ ρ}
    {s : Floor π} {result : Except Failure ρ}
    (hrun : Worker.run d (Worker.stepsFor n) ⟨0, own, .testing⟩ ⟨supply, shared⟩ = (w, s))
    (hstopped : w.stage = .stopped result) : (start 1 own supply shared).finish d n = ⟨[w], s⟩ := by
  have hturn : ∀ {v : Worker ω ℓ ρ} {t : Floor π},
      Worker.run d (Worker.stepsFor n) v t = (w, s) → finishOnce d n ⟨[v], t⟩ = ⟨[w], s⟩ := by
    intro v t hv
    simp [finishOnce, List.range_succ, turn, hv]
  rw [finish, show start 1 own supply shared = ⟨[⟨0, own, .testing⟩], ⟨supply, shared⟩⟩ from rfl,
    hturn hrun, hturn (Worker.run_of_stopped hstopped _)]

theorem results_alone {w : Worker ω ℓ ρ} {s : Floor π} {result : Except Failure ρ}
    (h : w.stage = .stopped result) : results ⟨[w], s⟩ = result.map ([·]) := by
  have hw : w.result = result := by rw [Worker.result, h]
  rw [results, List.mapM_cons, hw]
  cases result <;> rfl

/-- One worker that writes files ends as what it was to stream is fed, if only the file system
fails. -/
theorem ends_alone {d : Duty π ω Pool (PerKind Fragments)} {pool : Pool} {supply : π}
    {shared : Shared} {n : Nat} {fed : Except Failure Unit × Station}
    (hrun : Worker.EndsWith fed
      (Worker.run d (Worker.stepsFor n) ⟨0, pool, .testing⟩ ⟨supply, shared⟩))
    (honly : ∀ f, fed.1 = .error f → f.cause = .io) :
    (∀ f, fed.1 = .error f →
      ∃ g, ((start 1 pool supply shared).finish d n).results = .error g ∧ g.cause = .io) ∧
    (fed.1 = .ok () →
      ((start 1 pool supply shared).finish d n).results =
          .ok [(fed.2.pool.close fed.2.shared.disk).1] ∧
        ∃ progress, ((start 1 pool supply shared).finish d n).floor.shared =
          { fed.2.shared with disk := (fed.2.pool.close fed.2.shared.disk).2.2, progress }) := by
  rcases hw : Worker.run d (Worker.stepsFor n) ⟨0, pool, .testing⟩ ⟨supply, shared⟩ with ⟨w, s⟩
  rw [hw] at hrun
  obtain ⟨result, st⟩ := fed
  cases result with
  | error f =>
    have hio := honly f rfl
    obtain ⟨g, hstopped, hcause⟩ := hrun.resolve_left (by rw [hio]; decide)
    refine ⟨fun _ _ => ⟨g, ?_, hcause.trans hio⟩, nofun⟩
    rw [finish_alone hw hstopped, results_alone hstopped]
    rfl
  | ok _ =>
    obtain ⟨hstopped, progress, hshared⟩ := hrun
    rw [finish_alone hw hstopped, results_alone hstopped]
    exact ⟨nofun, fun _ => ⟨rfl, progress, hshared⟩⟩

end Crew

end GraphExport
