import GraphExport.Job.FullExport
import GraphExport.Proofs.Job.Stock
import GraphExport.Proofs.Schema.Seeded
import GraphExport.Proofs.Source.Recorded
import GraphExport.Proofs.Window.Coverage

/-!
# GraphExport.Proofs.Job.Scanned

What a scan finds, in every order of its workers' steps.

* `perform_scan`: one window, scanned.
* `Crew.Scanned`: every worker knows what it has scanned, and what was delivered was scanned by one
  of them. `Crew.scanned_move`: every move keeps it so.
* `FullExport.surveys_scanKind`: the schemas of a scan tell of every wanted element.
-/

namespace GraphExport

/-- The labels and properties by which elements are recorded. -/
def LabelFilter.scannedRows (filter : LabelFilter) (elements : List Element) :
    List (Label × PropertyMap) :=
  elements.filterMap (KindFilters.single filter).scanned?

/-- The elements of a window, as the client delivers them. -/
def Client.deliver (client : Client) (filter : LabelFilter) (kind : ElementKind) (w : Window) :
    List Element :=
  (client.elements (windowQuery kind filter w)).items

/-! ## One window -/

theorem get_scanElement (filter : LabelFilter) (e : Element) (g : GraphSchema) :
    (scanElement (.single filter) false e g).get filter.kind.output =
      (g.get filter.kind.output).updateAll false (filter.scannedRows [e]) := by
  rw [scanElement_eq, LabelFilter.scannedRows, List.filterMap_cons, List.filterMap_nil]
  cases h : (KindFilters.single filter).scanned? e with
  | none => rfl
  | some row =>
    obtain ⟨label, properties⟩ := row
    simp only [KindFilters.kind_of_scanned? h, PerKind.modify, PerKind.get_set_self]
    rfl

/-- A scan never fails by itself. -/
theorem feed_scanStep (filter : LabelFilter) (items : List Element) (s : GraphSchema × Shared) :
    ∃ g shared, feed (scanStep filter) items s = (.ok (), g, shared) ∧
      g.get filter.kind.output =
        (s.1.get filter.kind.output).updateAll false (filter.scannedRows items) := by
  induction items generalizing s with
  | nil => exact ⟨s.1, s.2, rfl, rfl⟩
  | cons e rest ih =>
    have hstep : scanStep filter e s = (.ok (), (scanStep filter e s).2) := rfl
    obtain ⟨g, shared, hfeed, hget⟩ := ih (scanStep filter e s).2
    refine ⟨g, shared, (feed_cons_ok hstep).trans hfeed, ?_⟩
    have hrows : filter.scannedRows (e :: rest) =
        filter.scannedRows [e] ++ filter.scannedRows rest :=
      List.filterMap_append (l := [e])
    rw [hget, hrows, Collection.updateAll, Collection.updateAll, List.foldl_append]
    exact congrArg (fun c => (filter.scannedRows rest).foldl _ c) (get_scanElement filter e s.1)

/-- A window is scanned to its end, and then the failure of the source shows, if there is one. -/
theorem perform_scan (client : Client) (filter : LabelFilter) (number : Nat) (w : Window)
    (g : GraphSchema) (shared : Shared) :
    ∃ g' shared', (scanDuty client filter filter.kind).perform number w g shared =
        (within (taskContext number (windowQuery filter.kind filter w).text)
          (client.elements (windowQuery filter.kind filter w)).outcome, g', shared') ∧
      g'.get filter.kind.output = (g.get filter.kind.output).updateAll false
        (filter.scannedRows (client.deliver filter filter.kind w)) := by
  obtain ⟨g', shared', hfeed, hget⟩ :=
    feed_scanStep filter (client.deliver filter filter.kind w) (g, shared)
  have hdelivery := Delivery.feed_of_ok
    (d := client.elements (windowQuery filter.kind filter w)) hfeed
  refine ⟨g', shared', ?_, hget⟩
  simp only [scanDuty, hdelivery]

/-! ## The crew -/

/-- The schemas of the worker tell of these rows. Nothing is said of one that has failed. -/
def Worker.HasSeen (kind : OutputKind) (rows : List (Label × PropertyMap))
    (w : Worker Window GraphSchema Collection) : Prop :=
  match w.stage with
  | .stopped (.ok left) => left.Surveys false rows
  | .stopped (.error _) => True
  | _ => (w.own.get kind).Surveys false rows

namespace Crew

variable {client : Client} {filter : LabelFilter} {pieces : List Window}
  {c : Crew Plan Window GraphSchema Collection}

/-- Every worker knows what it has seen, and the rows of the windows that are done were seen by one
of them. -/
structure ScannedBy (client : Client) (filter : LabelFilter) (pieces : List Window)
    (seen : Nat → List (Label × PropertyMap)) (c : Crew Plan Window GraphSchema Collection) :
    Prop where
  worker : ∀ (i : Nat) (w : Worker Window GraphSchema Collection), c.workers[i]? = some w →
    w.HasSeen filter.kind.output (seen i)
  known : ∀ piece ∈ pieces, ∀ row ∈ filter.scannedRows (client.deliver filter filter.kind piece),
    ∃ i < c.workers.length, row ∈ seen i

def Scanned (client : Client) (filter : LabelFilter) (pieces : List Window)
    (c : Crew Plan Window GraphSchema Collection) : Prop :=
  ∃ seen, c.ScannedBy client filter pieces seen

/-- One worker has seen more rows, among them those of the windows that were added. -/
theorem ScannedBy.set {seen : Nat → List (Label × PropertyMap)}
    (hc : c.ScannedBy client filter pieces seen) {i : Nat}
    {w w' : Worker Window GraphSchema Collection} (hw : c.workers[i]? = some w) (s' : Floor Plan)
    {added : List Window} (rows : List (Label × PropertyMap))
    (hadded : ∀ piece ∈ added,
      filter.scannedRows (client.deliver filter filter.kind piece) ⊆ rows)
    (hseen : w'.HasSeen filter.kind.output (seen i ++ rows)) :
    Scanned client filter (pieces ++ added) ⟨c.workers.set i w', s'⟩ := by
  obtain ⟨hi, -⟩ := List.getElem?_eq_some_iff.1 hw
  refine ⟨Function.update seen i (seen i ++ rows), ?_, fun piece hpiece row hrow => ?_⟩
  · refine forall_worker_set (P := fun v rows => v.HasSeen filter.kind.output rows)
      (fun j hj => Function.update_of_ne hj _ _) ?_ hc.worker
    rw [Function.update_self]
    exact hseen
  · rw [List.length_set]
    rcases List.mem_append.1 hpiece with hold | hnew
    · obtain ⟨j, hj, hmem⟩ := hc.known piece hold row hrow
      refine ⟨j, hj, ?_⟩
      by_cases hij : j = i
      · subst hij
        rw [Function.update_self]
        exact List.mem_append_left _ hmem
      · rwa [Function.update_of_ne hij]
    · refine ⟨i, hi, ?_⟩
      rw [Function.update_self]
      exact List.mem_append_right _ (hadded piece hnew hrow)

theorem scanned_move {i : Nat} {w w' : Worker Window GraphSchema Collection} {s' : Floor Plan}
    (hc : c.Scanned client filter pieces) (hw : c.workers[i]? = some w)
    (hm : w.Move (scanDuty client filter filter.kind) c.floor w' s') :
    Scanned client filter
      (pieces ++ (w.next? (scanDuty client filter filter.kind) c.floor).toList)
      ⟨c.workers.set i w', s'⟩ := by
  obtain ⟨seen, hc⟩ := hc
  have hseen := hc.worker i w hw
  -- A move that scans nothing leaves the worker with the rows that it has seen.
  have hidle : w.next? (scanDuty client filter filter.kind) c.floor = none →
      w'.HasSeen filter.kind.output (seen i) → Scanned client filter
        (pieces ++ (w.next? (scanDuty client filter filter.kind) c.floor).toList)
        ⟨c.workers.set i w', s'⟩ := by
    intro hnext hseen'
    rw [hnext]
    exact hc.set hw s' [] (fun piece hpiece => nomatch hpiece)
      (by rwa [List.append_nil])
  unfold Worker.HasSeen at hseen
  cases hm with
  | leaves hst hh =>
    rw [hst] at hseen
    exact hidle (by simp [Worker.next?, hst]) hseen
  | goesOn hst hh =>
    rw [hst] at hseen
    exact hidle (by simp [Worker.next?, hst]) hseen
  | runsOut hst hclaim =>
    rw [hst] at hseen
    exact hidle (by simp [Worker.next?, hst]) hseen
  | takes hst hclaim =>
    rw [hst] at hseen
    exact hidle (by simp [Worker.next?, hst]) hseen
  | @does piece count own shared hst hp =>
    rw [hst] at hseen
    obtain ⟨g', shared', hperform, hget⟩ :=
      perform_scan client filter w.number piece w.own c.floor.shared
    have hnext : w.next? (scanDuty client filter filter.kind) c.floor = some piece := by
      simp [Worker.next?, hst, hp]
    rw [hp] at hperform
    obtain ⟨-, rfl, -⟩ := Prod.mk.inj hperform |>.imp_right Prod.mk.inj
    rw [hnext]
    refine hc.set hw _ (filter.scannedRows (client.deliver filter filter.kind piece))
      (fun piece' hpiece' => ?_) ?_
    · rw [List.mem_singleton.1 hpiece']
      exact List.Subset.refl _
    · show (PerKind.get own _).Surveys false _
      rw [hget]
      exact hseen.updateAll _
  | waits hst hp hf =>
    refine hidle (by simp [Worker.next?, hst, hp, hf]) ?_
    exact hc.worker i w hw
  | @fails piece f own shared hst hp hf =>
    have hnext : w.next? (scanDuty client filter filter.kind) c.floor = some piece := by
      simp [Worker.next?, hst, hp, hf]
    rw [hnext]
    refine hc.set hw _ (filter.scannedRows (client.deliver filter filter.kind piece))
      (fun piece' hpiece' => ?_) trivial
    rw [List.mem_singleton.1 hpiece']
    exact List.Subset.refl _
  | checks hst =>
    rw [hst] at hseen
    exact hidle (by simp [Worker.next?, hst]) hseen
  | rests hst =>
    exact hidle (by simp [Worker.next?, hst]) (hc.worker i w hw)

theorem scanned_play (turns : List Nat) (hc : c.Scanned client filter pieces) :
    (c.play (scanDuty client filter filter.kind) turns).Scanned client filter
      (pieces ++ c.done (scanDuty client filter filter.kind) turns) :=
  play_records (P := fun pieces c => c.Scanned client filter pieces)
    (fun _ _ _ _ _ _ h hw hm => scanned_move h hw hm) turns hc

theorem scanned_start (client : Client) (filter : LabelFilter) (count : Nat) (plan : Plan)
    (shared : Shared) : Scanned client filter [] (start count .empty plan shared) := by
  refine ⟨fun _ => [], fun i w hw => ?_, fun piece hpiece => nomatch hpiece⟩
  simp only [start, List.getElem?_map, Option.map_eq_some_iff] at hw
  obtain ⟨number, -, rfl⟩ := hw
  show (PerKind.get GraphSchema.empty _).Surveys false []
  cases filter.kind <;> exact Collection.surveys_empty false

/-- The schemas of workers that have all ended well tell of all that was delivered. -/
theorem Scanned.surveys (hc : c.Scanned client filter pieces) {left : List Collection}
    (h : c.results = .ok left) : ∃ rows, (left.foldl Collection.union ∅).Surveys false rows ∧
      ∀ e ∈ pieces.flatMap (client.deliver filter filter.kind), ∀ row,
        (KindFilters.single filter).scanned? e = some row → row ∈ rows := by
  obtain ⟨seen, hc⟩ := hc
  obtain ⟨hlength, hget⟩ := results_ok h
  have hparts : List.Forall₂ (fun (d : Collection) rows => d.Surveys false rows) left
      ((List.range left.length).map seen) := by
    rw [List.forall₂_iff_get]
    refine ⟨by simp, fun i hi hi' => ?_⟩
    obtain ⟨w, hw, hst⟩ := hget i left[i] (List.getElem?_eq_getElem hi)
    have hseen := hc.worker i w hw
    rw [Worker.HasSeen, hst] at hseen
    simpa using hseen
  refine ⟨_, Collection.surveys_foldl_union hparts (Collection.surveys_empty false),
    fun e he row hrow => ?_⟩
  obtain ⟨piece, hpiece, hmem⟩ := List.mem_flatMap.1 he
  obtain ⟨i, hi, hseen⟩ := hc.known piece hpiece row (List.mem_filterMap.2 ⟨e, hmem, hrow⟩)
  rw [List.nil_append, List.mem_flatten]
  exact ⟨_, List.mem_map_of_mem (List.mem_range.2 (by omega)), hseen⟩

end Crew

/-! ## The scan -/

/-- The element is at one of the positions from `skip` on, at most `limit` of them. -/
def IsWanted (skip : Nat) (limit : Option Nat) (items : List Element) (e : Element) : Prop :=
  ∃ i ∈ Plan.wantedPositions skip limit items.length, items[i]? = some e

/-- A scan that ends well puts together what its workers found, in some order of their steps. -/
theorem FullExport.scanKind_ok {client : Client} {filter : LabelFilter} {kind : ElementKind}
    {turns : List Nat} {plan : Plan} {shared : Shared} {seed : Collection}
    (h : scanKind client filter kind turns plan shared = .ok seed) :
    ∃ steps left, ((Crew.start plan.workers GraphSchema.empty plan
        { shared with progress := {} }).play (scanDuty client filter kind) steps).results =
          .ok left ∧
      seed = left.foldl Collection.union ∅ := by
  simp only [scanKind] at h
  obtain ⟨more, hfinish⟩ := Crew.exists_finish_eq_play (d := scanDuty client filter kind)
    plan.windowsLeft
    ((Crew.start plan.workers GraphSchema.empty plan { shared with progress := {} }).play
      (scanDuty client filter kind) turns)
  rw [hfinish, ← Crew.play_append] at h
  obtain ⟨left, hresults, hseed⟩ := map_eq_ok h
  exact ⟨_, left, hresults, hseed.symm⟩

/-- The schemas of a scan tell of every wanted element. -/
theorem FullExport.surveys_scanKind {client : Client} {filter : LabelFilter} {items : List Element}
    (hclient : ∀ w : Window, client.elements (windowQuery filter.kind filter w) =
      { items := w.slice items })
    {kind : ElementKind} {width : Int} {skip : Nat} {limit : Option Nat} {estimate workers : Nat}
    (hfit : (skip + limit.getD 0 : Nat) ≤ maxWord) (hworkers : workers ≠ 0) {turns : List Nat}
    {shared : Shared} {seed : Collection}
    (h : scanKind client filter filter.kind turns
      (.make kind width skip limit estimate workers) shared = .ok seed) :
    ∃ rows, seed.Surveys false rows ∧ ∀ e, IsWanted skip limit items e → ∀ row,
      (KindFilters.single filter).scanned? e = some row → row ∈ rows := by
  obtain ⟨steps, left, hresults, rfl⟩ := scanKind_ok h
  have hready := Crew.ready_start (ρ := Collection) workers GraphSchema.empty
    (.make kind width skip limit estimate workers) shared
  have hdeliver : ∀ w, client.deliver filter filter.kind w = w.slice items :=
    fun w => congrArg Delivery.items (hclient w)
  have hhands := Crew.handsOut_of_ready (streamsWindows_scan hclient) hdeliver hfit steps hready
  obtain ⟨rows, hsurveys, hall⟩ := (Crew.scanned_play steps (Crew.scanned_start client filter
    workers (.make kind width skip limit estimate workers) _)).surveys hresults
  refine ⟨rows, hsurveys, fun e he => hall e ?_⟩
  obtain ⟨i, hi, hitem⟩ := he
  rw [List.nil_append]
  refine hhands.mem_delivered.2 ⟨i, ?_, hitem⟩
  exact (hhands.complete (by simpa [Crew.start] using hworkers)
    (Crew.stopped_of_results hresults)).mem_iff.2 hi

end GraphExport
