import GraphExport.Job.QueryExport
import GraphExport.Proofs.Crew.Steps
import GraphExport.Proofs.Output.Tables
import GraphExport.Proofs.Schema.Labelled
import GraphExport.Proofs.Source.Recorded

/-!
# GraphExport.Proofs.Job.Stock

The shelves of a crew, through every order of its workers' steps.

* `Station.Stocked`: the files of the job are those on the shelves, and the pool at hand is that of
  one worker.
* `Duty.WritesFiles`: a duty by which a worker changes its own shelf at most, and keeps it sound, as
  long as its pieces are allowed. Both duties of jobs are of this kind: `writesFiles_export` and
  `writesFiles_query`.
* `Crew.stocked_move`, `Crew.stocked_play`: a crew on such a duty stays stocked.
* `Crew.accounts_of_finish`: once all workers have ended well they account for all files.
-/

namespace GraphExport

/-- The files of the job are those on the shelves, and the pool is that of a worker. -/
structure Station.Stocked (dir : Path) (kinds : List OutputKind) (base : FileTree) (i : Nat)
    (shelves : Nat → Shelf) (s : Station) : Prop where
  shelved : Shelved dir kinds base shelves s.shared.disk
  holds : s.pool.Holds dir kinds (shelves i)

/-- The same, with another shelf of that worker perhaps, which is sound. -/
def Station.Restocked (Sound : Pool → Shelf → Prop) (dir : Path) (kinds : List OutputKind)
    (base : FileTree) (i : Nat) (shelves : Nat → Shelf) (s : Station) : Prop :=
  ∃ shelves', (∀ j, j ≠ i → shelves' j = shelves j) ∧ s.Stocked dir kinds base i shelves' ∧
    Sound s.pool (shelves' i)

/-- Any shelf is good enough. -/
abbrev AnyShelf : Pool → Shelf → Prop := fun _ _ => True

namespace Station

variable {dir : Path} {kinds : List OutputKind} {base : FileTree} {i : Nat} {shelves : Nat → Shelf}
  {s : Station} {Sound : Pool → Shelf → Prop} {IsRow : OutputKind → Label → PropertyMap → Prop}

theorem Stocked.restocked (h : s.Stocked dir kinds base i shelves)
    (hsound : Sound s.pool (shelves i)) : s.Restocked Sound dir kinds base i shelves :=
  ⟨shelves, fun _ _ => rfl, h, hsound⟩

theorem Stocked.tick (h : s.Stocked dir kinds base i shelves) :
    s.tick.Stocked dir kinds base i shelves :=
  ⟨h.shelved, h.holds⟩

theorem Stocked.tally (h : s.Stocked dir kinds base i shelves) (f : Stats → Stats) :
    (s.tally f).Stocked dir kinds base i shelves :=
  ⟨h.shelved, h.holds⟩

theorem row_writeElement {kind : OutputKind} (hkind : kind ≠ .results) {label : Label} (e : Element)
    (w w' : LabelWriter) (line : String) (hwk : w.kind = kind) (hwl : w.label = label)
    (hformat : w.format = .csv) (h : w.writeElement e = .ok (w', line)) :
    ∃ r, WrittenRow.ofElement kind label e = .ok r ∧ r.Fits kind label ∧
      w' = w.row (r.grow kind w.schema) ∧ line = Csv.line (r.record (r.grow kind w.schema)) := by
  obtain ⟨r, hr, -, rfl, rfl⟩ := LabelWriter.writeElement_ok hformat h
  rw [hwk, hwl] at hr
  have hgrow : w.schema.update r.properties false = r.grow kind w.schema := by
    simp [WrittenRow.grow, hkind]
  rw [hgrow]
  exact ⟨r, hr, WrittenRow.fits_ofElement hkind hr, rfl, rfl⟩

theorem row_writeColumns {label : Label} (columns : PropertyMap) (w w' : LabelWriter)
    (line : String) (_ : w.kind = .results) (_ : w.label = label) (hformat : w.format = .csv)
    (h : w.writeColumns columns = .ok (w', line)) :
    ∃ r, r = WrittenRow.ofColumns columns ∧ r.Fits .results label ∧
      w' = w.row (r.grow .results w.schema) ∧
      line = Csv.line (r.record (r.grow .results w.schema)) := by
  obtain ⟨-, rfl, rfl⟩ := LabelWriter.writeColumns_ok hformat h
  have hgrow : w.schema.update columns true =
      (WrittenRow.ofColumns columns).grow .results w.schema := by
    simp [WrittenRow.grow, WrittenRow.ofColumns]
  rw [hgrow]
  exact ⟨_, rfl, WrittenRow.fits_ofColumns label columns, rfl, rfl⟩

theorem record_pool_disk (s : Station) (kind : OutputKind) (label : Label)
    (properties : PropertyMap) (written : Except Failure Unit × Pool × Disk) :
    (s.record kind label properties written).2.pool = written.2.1 ∧
      (s.record kind label properties written).2.shared.disk = written.2.2 := by
  obtain ⟨result, pool, disk⟩ := written
  cases result <;> exact ⟨rfl, rfl⟩

theorem output_ne_results (kind : ElementKind) : kind.output ≠ .results := by
  cases kind <;> simp [ElementKind.output]

theorem Stocked.put (h : s.Stocked dir kinds base i shelves) (hsound : Sound s.pool (shelves i))
    (hlasting : Pool.Lasting Sound IsRow) (filters : KindFilters) (e : Element)
    (hrow : ∀ label properties, filters.exported? e = some (label, properties) →
      IsRow e.kind.output label properties) :
    (s.put filters e).2.Restocked Sound dir kinds base i shelves := by
  unfold Station.put
  split
  · exact h.restocked hsound
  · rename_i label properties hclassify
    obtain ⟨hpool, hdisk⟩ := record_pool_disk s e.kind.output label properties
      (s.pool.writeElement e.kind.output label e s.shared.disk)
    rcases hwrite : s.pool.writeElement e.kind.output label e s.shared.disk with
      ⟨result, pool, disk⟩
    rw [hwrite] at hpool hdisk
    obtain ⟨shelves', hothers, hshelved, hholds, hsettings, hok, herror⟩ :=
      Pool.writeWith_holds h.shelved h.holds (row_writeElement (output_ne_results e.kind) e) hwrite
    refine ⟨shelves', hothers, ⟨?_, ?_⟩, ?_⟩
    · rw [hdisk]
      exact hshelved
    · rw [hpool]
      exact hholds
    · rw [hpool]
      have hexported := KindFilters.exported?_eq_some.2 hclassify
      refine hlasting.writeWith hsound hsettings (hrow label properties hexported)
        (fun hresult => ?_) herror
      obtain ⟨r, hr, hshelf, -⟩ := hok hresult
      have hproperties :=
        KindFilters.properties_of_scanned? (KindFilters.scanned?_of_exported? hexported)
      rw [(WrittenRow.ofElement_ok.1 hr).2] at hproperties
      exact ⟨r, Except.ok.inj hproperties, hshelf⟩
  · split
    · exact (h.tally _).restocked hsound
    · exact h.restocked hsound

theorem Stocked.putRow (h : s.Stocked dir kinds base i shelves) (filters : KindFilters)
    (a : Answer) :
    (s.putRow filters a).2.Restocked AnyShelf dir kinds base i shelves := by
  unfold Station.putRow
  split
  · exact h.restocked trivial
  · exact h.put trivial Pool.lasting_true _ _ fun _ _ _ => trivial

theorem Stocked.fileRow (h : s.Stocked dir kinds base i shelves) (name : String)
    (allowTokens : Bool) (a : Answer) :
    (s.fileRow name allowTokens a).2.Restocked AnyShelf dir kinds base i shelves := by
  unfold Station.fileRow
  split
  · exact h.restocked trivial
  · rename_i row _
    simp only
    obtain ⟨hpool, hdisk⟩ := record_pool_disk s .results (.single name) (row.columns allowTokens)
      (s.pool.writeColumns .results (.single name) (row.columns allowTokens) s.shared.disk)
    rcases hwrite : s.pool.writeColumns .results (.single name) (row.columns allowTokens)
      s.shared.disk with ⟨result, pool, disk⟩
    rw [hwrite] at hpool hdisk
    obtain ⟨shelves', hothers, hshelved, hholds, -⟩ := Pool.writeWith_holds h.shelved h.holds
      (row_writeColumns (row.columns allowTokens)) hwrite
    refine ⟨shelves', hothers, ⟨?_, ?_⟩, trivial⟩
    · rw [hdisk]
      exact hshelved
    · rw [hpool]
      exact hholds

/-- A step that keeps a station stocked keeps it so over all that a delivery hands to it. -/
theorem Stocked.feed {α : Type} {step : α → Station → Except Failure Unit × Station}
    (d : Delivery α)
    (hstep : ∀ a ∈ d.items, ∀ shelves s, s.Stocked dir kinds base i shelves →
      Sound s.pool (shelves i) → (step a s).2.Restocked Sound dir kinds base i shelves)
    (h : s.Stocked dir kinds base i shelves) (hsound : Sound s.pool (shelves i)) :
    (d.feed step s).2.Restocked Sound dir kinds base i shelves := by
  rw [Delivery.feed_snd]
  refine feed_keeps_of_mem (P := Restocked Sound dir kinds base i shelves) (fun a ha s hs => ?_)
    (h.restocked hsound)
  obtain ⟨shelves₁, hothers₁, hs₁, hsound₁⟩ := hs
  obtain ⟨shelves₂, hothers₂, hs₂⟩ := hstep a ha shelves₁ s hs₁ hsound₁
  exact ⟨shelves₂, fun j hj => (hothers₂ j hj).trans (hothers₁ j hj), hs₂⟩

end Station

/-! ## Duties -/

/-- A worker on the duty changes its own shelf at most, and closes its pool at the end. Its pool and
shelf stay sound while it does allowed pieces. -/
structure Duty.WritesFiles {π ω : Type} (d : Duty π ω Pool (PerKind Fragments)) (dir : Path)
    (kinds : List OutputKind) (base : FileTree) (Allowed : ω → Prop)
    (Sound : Pool → Shelf → Prop) : Prop where
  perform : ∀ number w {i shelves pool shared}, Allowed w →
    (⟨pool, shared⟩ : Station).Stocked dir kinds base i shelves → Sound pool (shelves i) →
      (⟨(d.perform number w pool shared).2.1, (d.perform number w pool shared).2.2⟩ :
        Station).Restocked Sound dir kinds base i shelves
  close : ∀ pool shared, d.close pool shared =
    ((pool.close shared.disk).1, (pool.close shared.disk).2.1,
      { shared with disk := (pool.close shared.disk).2.2 })
  settings : ∀ {p p' : Pool} {S : Shelf}, p.SameSettings p' → Sound p S → Sound p' S

/-- Windows are allowed whose elements are written as rows of the sort. -/
theorem writesFiles_export_of_lasting (client : Client) (filter : LabelFilter) (kind : ElementKind)
    (dir : Path) (kinds : List OutputKind) (base : FileTree) (Allowed : Window → Prop)
    {Sound : Pool → Shelf → Prop} {IsRow : OutputKind → Label → PropertyMap → Prop}
    (hlasting : Pool.Lasting Sound IsRow)
    (hallowed : ∀ w, Allowed w → ∀ e ∈ (client.elements (windowQuery kind filter w)).items,
      ∀ label properties,
        (KindFilters.single filter).exported? e = some (label, properties) →
          IsRow e.kind.output label properties) :
    (exportDuty client filter kind).WritesFiles dir kinds base Allowed Sound where
  perform _ w _ _ _ _ hw h hsound := h.feed _ (fun e he _ _ hs hsound =>
    hs.tick.put hsound hlasting _ e (hallowed w hw e he)) hsound
  close _ _ := rfl
  settings := hlasting.settings

theorem writesFiles_export (client : Client) (filter : LabelFilter) (kind : ElementKind)
    (dir : Path) (kinds : List OutputKind) (base : FileTree) :
    (exportDuty client filter kind).WritesFiles dir kinds base (fun _ => True) AnyShelf :=
  writesFiles_export_of_lasting client filter kind dir kinds base _ Pool.lasting_true
    fun _ _ _ _ _ _ _ => trivial

theorem Pool.Holds.seedWith {dir : Path} {kinds : List OutputKind} {p : Pool} {S : Shelf}
    (h : p.Holds dir kinds S)
    (kind : OutputKind) {schemas : Collection} : (p.seedWith kind schemas).Holds dir kinds S := by
  have hseeds : GraphSchema.Labelled p.seeds := fun k => h.labelled k
  have hunion : GraphSchema.Labelled (p.seeds.modify kind fun c => c.union schemas) :=
    hseeds.modify fun c hc => hc.union schemas
  exact { h with labelled := fun k => hunion k }

namespace QueryExport

variable {dir : Path} {kinds : List OutputKind} {base : FileTree} {i : Nat} {shelves : Nat → Shelf}
  {s : Station}

theorem holds_seed (client : Client) (c : Config) (structured : Bool) (q : NamedQuery) {p : Pool}
    {S : Shelf} (h : p.Holds dir kinds S) : (seed client c structured q p).2.Holds dir kinds S := by
  unfold seed
  split
  · split
    · exact h
    · exact (h.seedWith .nodes).seedWith .edges
  · split
    · exact h
    · exact h.seedWith .results

theorem restocked_writeRows (client : Client) (c : Config) (structured : Bool) (q : NamedQuery)
    (h : s.Stocked dir kinds base i shelves) :
    (writeRows client c structured q s).2.Restocked AnyShelf dir kinds base i shelves := by
  unfold writeRows
  split
  · exact h.feed _ (fun a _ _ _ hs _ => hs.tick.putRow _ a) trivial
  · exact h.feed _ (fun a _ _ _ hs _ => hs.tick.fileRow _ _ a) trivial

theorem restocked_execute (client : Client) (c : Config) (structured : Bool) (q : NamedQuery)
    (h : s.Stocked dir kinds base i shelves) :
    (execute client c structured q s).2.Restocked AnyShelf dir kinds base i shelves := by
  unfold execute
  split
  · have hseed := holds_seed client c structured q h.holds
    rcases hs : seed client c structured q s.pool with ⟨result, pool⟩
    rw [hs] at hseed
    have hstocked : ({ s with pool } : Station).Stocked dir kinds base i shelves :=
      ⟨h.shelved, hseed⟩
    cases result with
    | error f => exact hstocked.restocked trivial
    | ok _ => exact restocked_writeRows client c structured q hstocked
  · exact restocked_writeRows client c structured q h

theorem restocked_attempt (client : Client) (c : Config) (structured : Bool) (number : Nat)
    (q : NamedQuery) (h : s.Stocked dir kinds base i shelves) :
    (attempt client c structured number q s).2.Restocked AnyShelf dir kinds base i shelves := by
  unfold attempt
  have hexecute := restocked_execute client c structured q h
  rcases hs : execute client c structured q s with ⟨result, s'⟩
  rw [hs] at hexecute
  cases result with
  | ok count => exact hexecute
  | error f =>
    simp only
    split
    · exact hexecute
    · split
      · exact hexecute
      · obtain ⟨shelves', hothers, hstocked, -⟩ := hexecute
        exact ⟨shelves', hothers, hstocked.tally _, trivial⟩

theorem writesFiles_query (client : Client) (c : Config) (structured : Bool) (dir : Path)
    (kinds : List OutputKind) (base : FileTree) :
    (duty client c structured).WritesFiles dir kinds base (fun _ => True) AnyShelf where
  perform number q _ _ _ _ _ h _ := restocked_attempt client c structured number q h
  close _ _ := rfl
  settings _ _ := trivial

end QueryExport

/-! ## Crews -/

/-- What a worker has to do with the files on its shelf: its pool holds them, or it has closed the
pool and accounts for them. Nothing is said of one that has failed. -/
def Worker.Minds {ω : Type} (dir : Path) (kinds : List OutputKind) (S : Shelf)
    (w : Worker ω Pool (PerKind Fragments)) : Prop :=
  match w.stage with
  | .stopped (.ok left) => ∀ kind, (left.get kind).Accounts dir S kind
  | .stopped (.error _) => True
  | _ => w.own.Holds dir kinds S

namespace Crew

variable {π ω : Type} {d : Duty π ω Pool (PerKind Fragments)} {dir : Path} {kinds : List OutputKind}
  {base : FileTree} {Allowed : ω → Prop} {Sound : Pool → Shelf → Prop}

/-- The files of the job are those on the shelves of the workers, and pools and shelves are
sound. -/
structure StockedWith (dir : Path) (kinds : List OutputKind) (base : FileTree)
    (Sound : Pool → Shelf → Prop) (shelves : Nat → Shelf)
    (c : Crew π ω Pool (PerKind Fragments)) : Prop where
  shelved : Shelved dir kinds base shelves c.floor.shared.disk
  minds : ∀ (i : Nat) (w : Worker ω Pool (PerKind Fragments)), c.workers[i]? = some w →
    w.Minds dir kinds (shelves i)
  sound : ∀ (i : Nat) (w : Worker ω Pool (PerKind Fragments)), c.workers[i]? = some w →
    Sound w.own (shelves i)
  empty : ∀ i, c.workers.length ≤ i → shelves i = Shelf.empty

def Stocked (dir : Path) (kinds : List OutputKind) (base : FileTree) (Sound : Pool → Shelf → Prop)
    (c : Crew π ω Pool (PerKind Fragments)) : Prop :=
  ∃ shelves, c.StockedWith dir kinds base Sound shelves

/-- A crew stays stocked where one worker changes its own shelf at most. -/
theorem StockedWith.set {shelves shelves' : Nat → Shelf} {c : Crew π ω Pool (PerKind Fragments)}
    (hc : c.StockedWith dir kinds base Sound shelves) {i : Nat}
    {w w' : Worker ω Pool (PerKind Fragments)} {s' : Floor π} (hw : c.workers[i]? = some w)
    (hothers : ∀ j, j ≠ i → shelves' j = shelves j)
    (hshelved : Shelved dir kinds base shelves' s'.shared.disk)
    (hminds : w'.Minds dir kinds (shelves' i)) (hsound : Sound w'.own (shelves' i)) :
    Stocked dir kinds base Sound ⟨c.workers.set i w', s'⟩ := by
  obtain ⟨hi, -⟩ := List.getElem?_eq_some_iff.1 hw
  refine ⟨shelves', hshelved,
    forall_worker_set (P := fun v S => v.Minds dir kinds S) hothers hminds hc.minds,
    forall_worker_set (P := fun v S => Sound v.own S) hothers hsound hc.sound, fun j hj => ?_⟩
  rw [List.length_set] at hj
  rw [hothers j (by omega)]
  exact hc.empty j hj

theorem minds_stop {shelves : Nat → Shelf} (hd : d.WritesFiles dir kinds base Allowed Sound)
    {i : Nat} {w : Worker ω Pool (PerKind Fragments)} {s : Floor π}
    (hshelved : Shelved dir kinds base shelves s.shared.disk)
    (hholds : w.own.Holds dir kinds (shelves i)) :
    (w.stop d none s).1.Minds dir kinds (shelves i) ∧
      Shelved dir kinds base shelves (w.stop d none s).2.shared.disk := by
  simp only [Worker.stop, hd.close, Worker.Minds]
  exact ⟨fun kind => Pool.accounts_close hshelved hholds kind,
    hshelved.of_files (fun q content => Iff.rfl) (Nat.le_refl _)⟩

theorem sound_stop (hd : d.WritesFiles dir kinds base Allowed Sound) {S : Shelf}
    {w : Worker ω Pool (PerKind Fragments)} (hsound : Sound w.own S) (failure : Option Failure)
    (s : Floor π) : Sound (w.stop d failure s).1.own S := by
  have hsettings : w.own.SameSettings (w.own.close s.shared.disk).2.1 := ⟨rfl, rfl⟩
  simp only [Worker.stop, hd.close]
  exact hd.settings hsettings hsound

theorem stocked_move (hd : d.WritesFiles dir kinds base Allowed Sound)
    {c : Crew π ω Pool (PerKind Fragments)} {i : Nat} {w w' : Worker ω Pool (PerKind Fragments)}
    {s' : Floor π} (hallowed : ∀ piece ∈ w.next? d c.floor, Allowed piece)
    (hc : c.Stocked dir kinds base Sound) (hw : c.workers[i]? = some w)
    (hm : w.Move d c.floor w' s') : Stocked dir kinds base Sound ⟨c.workers.set i w', s'⟩ := by
  obtain ⟨shelves, hc⟩ := hc
  have hminds := hc.minds i w hw
  have hsound := hc.sound i w hw
  unfold Worker.Minds at hminds
  cases hm with
  | leaves hst hh =>
    rw [hst] at hminds
    obtain ⟨haccounts, hshelved⟩ := minds_stop hd hc.shelved hminds
    exact hc.set hw (fun _ _ => rfl) hshelved haccounts (sound_stop hd hsound _ _)
  | goesOn hst hh =>
    rw [hst] at hminds
    exact hc.set hw (fun _ _ => rfl) hc.shelved hminds hsound
  | @runsOut supply hst hclaim =>
    rw [hst] at hminds
    obtain ⟨haccounts, hshelved⟩ :=
      minds_stop (s := Floor.halt { c.floor with supply }) hd hc.shelved hminds
    exact hc.set hw (fun _ _ => rfl) hshelved haccounts (sound_stop hd hsound _ _)
  | takes hst hclaim =>
    rw [hst] at hminds
    exact hc.set hw (fun _ _ => rfl) hc.shelved hminds hsound
  | @does piece count own shared hst hp =>
    rw [hst] at hminds
    have hst' : Station.Stocked dir kinds base i shelves ⟨w.own, c.floor.shared⟩ :=
      ⟨hc.shelved, hminds⟩
    have hpiece : Allowed piece := hallowed piece (by simp [Worker.next?, hst, hp])
    obtain ⟨shelves', hothers, hstocked, hsound'⟩ := hd.perform w.number piece hpiece hst' hsound
    rw [hp] at hstocked hsound'
    exact hc.set hw hothers hstocked.shelved hstocked.holds hsound'
  | waits hst hp hf => exact hc.set hw (fun _ _ => rfl) hc.shelved (hc.minds i w hw) hsound
  | @fails piece f own shared hst hp hf =>
    rw [hst] at hminds
    have hst' : Station.Stocked dir kinds base i shelves ⟨w.own, c.floor.shared⟩ :=
      ⟨hc.shelved, hminds⟩
    have hpiece : Allowed piece := hallowed piece (by simp [Worker.next?, hst, hp, hf])
    obtain ⟨shelves', hothers, hstocked, hsound'⟩ := hd.perform w.number piece hpiece hst' hsound
    rw [hp] at hstocked hsound'
    refine hc.set hw hothers ?_ trivial (sound_stop hd hsound' _ _)
    simp only [Worker.stop, hd.close]
    exact hstocked.shelved.of_files (fun q content => Iff.rfl) (Nat.le_refl _)
  | checks hst =>
    rw [hst] at hminds
    refine hc.set hw (fun _ _ => rfl) ?_ hminds hsound
    split
    · exact hc.shelved
    · exact hc.shelved
  | rests hst => exact hc.set hw (fun _ _ => rfl) hc.shelved (hc.minds i w hw) hsound

/-- A crew stays stocked in every order of its workers' steps, as long as the pieces done are
allowed. -/
theorem stocked_play (hd : d.WritesFiles dir kinds base Allowed Sound) (turns : List Nat)
    {c : Crew π ω Pool (PerKind Fragments)} (hallowed : ∀ piece ∈ c.done d turns, Allowed piece)
    (hc : c.Stocked dir kinds base Sound) : (c.play d turns).Stocked dir kinds base Sound := by
  refine play_records
    (P := fun pieces c => (∀ piece ∈ pieces, Allowed piece) → c.Stocked dir kinds base Sound)
    (fun pieces c i w w' s' h hw hm hpieces => ?_) turns
    (fun _ : ∀ piece ∈ [], Allowed piece => hc) hallowed
  refine stocked_move hd (fun piece hpiece => hpieces piece ?_)
    (h fun piece hpiece => hpieces piece (List.mem_append_left _ hpiece)) hw hm
  exact List.mem_append_right _ (Option.mem_toList.2 hpiece)

theorem stocked_start {pool : Pool} (hpool : pool.Holds dir kinds Shelf.empty)
    (hsound : Sound pool Shelf.empty) (count : Nat) (supply : π) (shared : Shared) :
    (start (ω := ω) (ρ := PerKind Fragments) count pool supply shared).Stocked dir kinds
      shared.disk.tree Sound := by
  have hall : ∀ (i : Nat) (w : Worker ω Pool (PerKind Fragments)),
      (start (ω := ω) (ρ := PerKind Fragments) count pool supply shared).workers[i]? = some w →
        w.own = pool ∧ w.stage = .testing := by
    intro i w hw
    simp only [start, List.getElem?_map, Option.map_eq_some_iff] at hw
    obtain ⟨number, -, rfl⟩ := hw
    exact ⟨rfl, rfl⟩
  refine ⟨fun _ => Shelf.empty, Shelved.start dir kinds shared.disk, fun i w hw => ?_,
    fun i w hw => ?_, fun _ _ => rfl⟩
  · obtain ⟨hown, hst⟩ := hall i w hw
    rw [Worker.Minds, hst, hown]
    exact hpool
  · rw [(hall i w hw).1]
    exact hsound

/-- Workers that have ended well account for the files on their shelves. -/
theorem StockedWith.accounts {shelves : Nat → Shelf} {c : Crew π ω Pool (PerKind Fragments)}
    (hc : c.StockedWith dir kinds base Sound shelves) {left : List (PerKind Fragments)}
    (h : c.results = .ok left) :
    (∀ (i : Nat) (fragments : PerKind Fragments), left[i]? = some fragments →
      ∀ kind, (fragments.get kind).Accounts dir (shelves i) kind) ∧
    ∀ i, left.length ≤ i → shelves i = Shelf.empty := by
  obtain ⟨hlength, hget⟩ := results_ok h
  refine ⟨fun i fragments hi => ?_, fun i hi => hc.empty i (by omega)⟩
  obtain ⟨w, hw, hst⟩ := hget i fragments hi
  have := hc.minds i w hw
  rw [Worker.Minds, hst] at this
  exact this

/-- Workers who start with empty shelves account for all files once they have ended well. -/
theorem accounts_of_finish {pool : Pool} {count : Nat} {supply : π} {shared : Shared}
    {turns : List Nat} {pieces : Nat} {left : List (PerKind Fragments)}
    (h : (((start count pool supply shared).play d turns).finish d pieces).results = .ok left)
    (hd : d.WritesFiles dir kinds shared.disk.tree (fun _ => True) AnyShelf)
    (hpool : pool.Holds dir kinds Shelf.empty) :
    ∃ shelves, Shelved dir kinds shared.disk.tree shelves
        (((start count pool supply shared).play d turns).finish d pieces).floor.shared.disk ∧
      (∀ (i : Nat) (fragments : PerKind Fragments), left[i]? = some fragments →
        ∀ kind, (fragments.get kind).Accounts dir (shelves i) kind) ∧
      ∀ i, left.length ≤ i → shelves i = Shelf.empty := by
  have hstart := stocked_start (ω := ω) hpool (show AnyShelf pool Shelf.empty from trivial)
    count supply shared
  obtain ⟨turns', hfinish⟩ :=
    exists_finish_eq_play (d := d) pieces ((start count pool supply shared).play d turns)
  rw [hfinish] at h ⊢
  obtain ⟨shelves, hc⟩ := stocked_play hd turns' (fun _ _ => trivial)
    (stocked_play hd turns (fun _ _ => trivial) hstart)
  exact ⟨shelves, hc.shelved, hc.accounts h⟩

end Crew

end GraphExport
