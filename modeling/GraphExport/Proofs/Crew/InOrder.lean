import GraphExport.Job.WindowDuty
import GraphExport.Proofs.Crew.Steps

/-!
# GraphExport.Proofs.Crew.InOrder

The windows that a worker by itself takes from a plan. No bound is set on the numbers of the plan,
and the source may deliver anything, so long as it delivers the same each time it is asked.

* `Plan.Streams`: a plan is worked off by some windows. `Plan.Streams.unique`: by these alone.
* `Plan.Leads`: some windows lead from a plan to another. `Plan.Streams.of_leads`: then those that
  work off the second plan do the rest.
* `Worker.InOrder`: the worker has done some windows, and has these behind it. `Crew.inOrder_move`:
  every move keeps it so.
* `Crew.streams_of_results`: a worker that has ended well has worked off its plan.
-/

namespace GraphExport

namespace Plan

variable {count : Window → Nat} {p p' q r : Plan} {w : Window} {ws vs : List Window}

/-- The plan is worked off by these windows, if so many elements come of each: they are taken one
after the other, until there is none or one was the last. -/
inductive Streams (count : Window → Nat) : Plan → List Window → Prop where
  | done {p p' : Plan} : p.claim = (none, p') → Streams count p []
  | last {p p' : Plan} {w : Window} : p.claim = (some w, p') → isLast w (count w) p' = true →
      Streams count p [w]
  | more {p p' : Plan} {w : Window} {ws : List Window} : p.claim = (some w, p') →
      isLast w (count w) p' = false → Streams count p' ws → Streams count p (w :: ws)

/-- After these windows, none of them the last one, the plan has become another. -/
inductive Leads (count : Window → Nat) : Plan → List Window → Plan → Prop where
  | refl {p : Plan} : Leads count p [] p
  | cons {p p' q : Plan} {w : Window} {ws : List Window} : p.claim = (some w, p') →
      isLast w (count w) p' = false → Leads count p' ws q → Leads count p (w :: ws) q

theorem Leads.trans (h : Leads count p ws q) (h' : Leads count q vs r) :
    Leads count p (ws ++ vs) r := by
  induction h with
  | refl => exact h'
  | cons hclaim hlast _ ih => exact .cons hclaim hlast (ih h')

theorem Leads.snoc (h : Leads count p ws q) (hclaim : q.claim = (some w, r))
    (hlast : isLast w (count w) r = false) : Leads count p (ws ++ [w]) r :=
  h.trans (.cons hclaim hlast .refl)

theorem Streams.of_leads (h : Leads count p ws q) (h' : Streams count q vs) :
    Streams count p (ws ++ vs) := by
  induction h with
  | refl => exact h'
  | cons hclaim hlast _ ih => exact .more hclaim hlast (ih h')

/-- A plan is worked off by one sequence of windows. -/
theorem Streams.unique (h : Streams count p ws) (h' : Streams count p vs) : ws = vs := by
  induction h generalizing vs with
  | done hclaim =>
    cases h' with
    | done => rfl
    | last hclaim' => rw [hclaim] at hclaim'; cases hclaim'
    | more hclaim' => rw [hclaim] at hclaim'; cases hclaim'
  | last hclaim hlast =>
    cases h' with
    | done hclaim' => rw [hclaim] at hclaim'; cases hclaim'
    | last hclaim' => rw [hclaim] at hclaim'; cases hclaim'; rfl
    | more hclaim' hlast' =>
      rw [hclaim] at hclaim'
      cases hclaim'
      rw [hlast] at hlast'
      cases hlast'
  | more hclaim hlast _ ih =>
    cases h' with
    | done hclaim' => rw [hclaim] at hclaim'; cases hclaim'
    | last hclaim' hlast' =>
      rw [hclaim] at hclaim'
      cases hclaim'
      rw [hlast] at hlast'
      cases hlast'
    | more hclaim' _ hmore =>
      rw [hclaim] at hclaim'
      cases hclaim'
      rw [ih hmore]

end Plan

variable {ℓ ρ : Type}

/-- A duty that takes its windows from a plan. So many elements come of each window, and the means
of the worker tell of the windows that were done. -/
structure Duty.Follows (d : Duty Plan Window ℓ ρ) (count : Window → Nat)
    (Tells : List Window → ℓ → Prop) : Prop where
  claim : d.claim = Plan.claim
  isLast : d.isLast = Plan.isLast
  perform : ∀ {number w own shared n own' shared'},
    d.perform number w own shared = (.ok n, own', shared') →
      n = count w ∧ shared'.progress.halted = shared.progress.halted ∧
        ∀ done, Tells done own → Tells (done ++ [w]) own'

/-- The worker has done the windows, in the order in which the plan gives them out. Nothing is said
of one that has failed. -/
def Worker.InOrder (d : Duty Plan Window ℓ ρ) (count : Window → Nat)
    (Tells : List Window → ℓ → Prop) (start : Plan) (done : List Window) (w : Worker Window ℓ ρ)
    (s : Floor Plan) : Prop :=
  match w.stage with
  | .testing => Tells done w.own ∧
      ((s.shared.progress.halted = false ∧ start.Leads count done s.supply) ∨
        (s.shared.progress.halted = true ∧ start.Streams count done))
  | .claiming => Tells done w.own ∧ s.shared.progress.halted = false ∧
      start.Leads count done s.supply
  | .working piece => Tells done w.own ∧ s.shared.progress.halted = false ∧
      ∃ p, p.claim = (some piece, s.supply) ∧ start.Leads count done p
  | .checking piece n => Tells done w.own ∧ s.shared.progress.halted = false ∧
      ∃ before p, done = before ++ [piece] ∧ n = count piece ∧ p.claim = (some piece, s.supply) ∧
        start.Leads count before p
  | .stopped (.ok left) => start.Streams count done ∧
      ∃ own shared, Tells done own ∧ left = (d.close own shared).1
  | .stopped (.error _) => True

namespace Crew

variable {d : Duty Plan Window ℓ ρ} {count : Window → Nat} {Tells : List Window → ℓ → Prop}
  {start : Plan} {done : List Window}

theorem inOrder_move (hd : d.Follows count Tells) {w w' : Worker Window ℓ ρ} {s s' : Floor Plan}
    (h : w.InOrder d count Tells start done s) (hm : w.Move d s w' s') :
    w'.InOrder d count Tells start (done ++ (w.next? d s).toList) s' := by
  -- A move that does no window leaves the windows as they are.
  have hidle : w.next? d s = none → w'.InOrder d count Tells start done s' →
      w'.InOrder d count Tells start (done ++ (w.next? d s).toList) s' := by
    intro hnext h'
    rw [hnext]
    simpa using h'
  have hmoved := h
  unfold Worker.InOrder at hmoved
  cases hm with
  | leaves hst hh =>
    rw [hst] at hmoved
    refine hidle (by simp [Worker.next?, hst]) ⟨?_, w.own, s.shared, hmoved.1, rfl⟩
    rcases hmoved.2 with ⟨hgoes, -⟩ | ⟨-, hstreams⟩
    · rw [hh] at hgoes
      cases hgoes
    · exact hstreams
  | goesOn hst hh =>
    rw [hst] at hmoved
    refine hidle (by simp [Worker.next?, hst]) ⟨hmoved.1, hh, ?_⟩
    rcases hmoved.2 with ⟨-, hleads⟩ | ⟨hhalted, -⟩
    · exact hleads
    · rw [hh] at hhalted
      cases hhalted
  | @runsOut supply hst hclaim =>
    rw [hst] at hmoved
    obtain ⟨htells, -, hleads⟩ := hmoved
    rw [hd.claim] at hclaim
    have hstreams := Plan.Streams.of_leads hleads (.done hclaim)
    rw [List.append_nil] at hstreams
    exact hidle (by simp [Worker.next?, hst])
      ⟨hstreams, w.own, (Floor.halt { s with supply }).shared, htells, rfl⟩
  | takes hst hclaim =>
    rw [hst] at hmoved
    obtain ⟨htells, hh, hleads⟩ := hmoved
    rw [hd.claim] at hclaim
    exact hidle (by simp [Worker.next?, hst]) ⟨htells, hh, _, hclaim, hleads⟩
  | @does piece n own shared hst hp =>
    rw [hst] at hmoved
    obtain ⟨htells, hh, p, hclaim, hleads⟩ := hmoved
    obtain ⟨hcount, hhalted, hnext⟩ := hd.perform hp
    have hdone : w.next? d s = some piece := by simp [Worker.next?, hst, hp]
    rw [hdone]
    exact ⟨hnext done htells, hhalted.trans hh, done, p, rfl, hcount, hclaim, hleads⟩
  | waits hst hp hf => exact hidle (by simp [Worker.next?, hst, hp, hf]) h
  | fails => trivial
  | @checks piece n hst =>
    rw [hst] at hmoved
    obtain ⟨htells, hh, before, p, rfl, rfl, hclaim, hleads⟩ := hmoved
    refine hidle (by simp [Worker.next?, hst]) ⟨htells, ?_⟩
    rw [hd.isLast]
    cases hlast : Plan.isLast piece (count piece) s.supply with
    | true => exact .inr ⟨rfl, Plan.Streams.of_leads hleads (.last hclaim hlast)⟩
    | false => exact .inl ⟨hh, hleads.snoc hclaim hlast⟩
  | rests hst => exact hidle (by simp [Worker.next?, hst]) h

/-- One worker that has ended well has worked off its plan, whatever turns it was given. -/
theorem streams_of_results (hd : d.Follows count Tells) {own : ℓ} (hown : Tells [] own)
    (plan : Plan) (shared : Shared) (turns : List Nat) {left : List ρ}
    (h : ((Crew.start 1 own plan { shared with progress := {} }).play d turns).results = .ok left) :
    ∃ done own' shared', plan.Streams count done ∧ Tells done own' ∧
      left = [(d.close own' shared').1] := by
  have hstart : ∃ w, (Crew.start 1 own plan { shared with progress := {} }).workers = [w] ∧
      w.InOrder d count Tells plan []
        (Crew.start (ω := Window) (ρ := ρ) 1 own plan { shared with progress := {} }).floor :=
    ⟨{ number := 0, own }, rfl, hown, .inl ⟨rfl, .refl⟩⟩
  have hplay := play_records (d := d)
    (P := fun done c => ∃ w, c.workers = [w] ∧ w.InOrder d count Tells plan done c.floor)
    (fun done c i w w' s' hc hw hm => ?_) turns hstart
  · obtain ⟨w, hworkers, hw⟩ := hplay
    obtain ⟨hlength, hget⟩ := results_ok h
    rw [hworkers, List.length_singleton, List.length_eq_one_iff] at hlength
    obtain ⟨r, rfl⟩ := hlength
    obtain ⟨w', hw', hst⟩ := hget 0 r rfl
    rw [hworkers, List.getElem?_cons_zero, Option.some.injEq] at hw'
    subst hw'
    rw [Worker.InOrder, hst] at hw
    obtain ⟨hstreams, own', shared', htells, rfl⟩ := hw
    exact ⟨_, own', shared', hstreams, htells, rfl⟩
  · obtain ⟨v, hworkers, hv⟩ := hc
    rw [hworkers] at hw
    obtain ⟨hi, rfl⟩ := List.getElem?_eq_some_iff.1 hw
    obtain rfl : i = 0 := by simpa using hi
    exact ⟨w', by rw [hworkers]; rfl, inOrder_move hd hv hm⟩

end Crew

end GraphExport
