import GraphExport.Job.FullExport
import GraphExport.Proofs.Output.Handles
import GraphExport.Proofs.Output.Transparency
import GraphExport.Proofs.Source.Feed
import GraphExport.Proofs.Source.Recorded

/-!
# GraphExport.Proofs.Job.Deeds

What a worker by itself does to its files and to the statistics, as a list of deeds that is known
before the worker begins. No deed knows of file handles, and none fails but for the file system.

* `Desk.take`: what a deed does to the files, as a ledger shows them, and to the statistics.
* `Station.Does`: a station has done a list of deeds, or it was the file system that stopped it.
* `Station.Sound.write`, `Station.Sound.put`: a write is one deed, and an element is at most one.
* `Station.does_feed`: what is fed to a station is the deeds of its items, one after the other.
-/

namespace GraphExport

/-! ## Deeds -/

inductive Deed where
  /-- Files of a kind that are made from now on have these columns from the start. -/
  | seed (kind : OutputKind) (schemas : Collection)
  /-- A row is written, and counted with its properties. -/
  | row (kind : OutputKind) (label : Label) (item : Item) (properties : PropertyMap)
  /-- An element is passed over. -/
  | skip
  /-- A query is given up. -/
  | abandon

/-- The files of a job and its statistics. -/
structure Desk where
  ledger : Ledger
  stats : Stats

namespace Desk

def take : Deed → Desk → Except Failure Unit × Desk
  | .seed kind schemas, k => (.ok (), { k with ledger := (k.ledger.act (.seed kind schemas)).2 })
  | .row kind label item properties, k =>
    match k.ledger.act (.write kind label item) with
    | (.error f, ledger) => (.error f, { k with ledger })
    | (.ok _, ledger) => (.ok (), ⟨ledger, k.stats.record kind label properties⟩)
  | .skip, k => (.ok (), { k with stats := k.stats.skip })
  | .abandon, k => (.ok (), { k with stats := k.stats.abandon })

/-- Does deeds one after the other, up to the first failure. -/
def takeAll (deeds : List Deed) (k : Desk) : Except Failure Unit × Desk := feed take deeds k

theorem takeAll_append_ok {deeds : List Deed} {k k' : Desk}
    (h : takeAll deeds k = (.ok (), k')) (more : List Deed) :
    takeAll (deeds ++ more) k = takeAll more k' :=
  feed_append_ok h more

theorem takeAll_append_error {deeds : List Deed} {k k' : Desk} {f : Failure}
    (h : takeAll deeds k = (.error f, k')) (more : List Deed) :
    takeAll (deeds ++ more) k = (.error f, k') :=
  feed_append_error h more

end Desk

/-! ## Writes to a ledger -/

/-- The item has a line in every file of the kind and label. -/
def Item.Writable (kind : OutputKind) (label : Label) (i : Item) : Prop :=
  ∀ format schema, ∃ entry, i.entry format kind label schema = .ok entry

theorem Item.writable_columns (kind : OutputKind) (label : Label) (columns : PropertyMap) :
    (Item.columns columns).Writable kind label :=
  fun _ _ => ⟨_, rfl⟩

namespace Ledger

variable {L L' : Ledger} {kind : OutputKind} {label : Label}

theorem settings_get (L : Ledger) (kind : OutputKind) (label : Label) :
    (L.get kind label).2.kinds = L.kinds ∧ (L.get kind label).2.dir = L.dir ∧
      (L.get kind label).2.format = L.format := by
  unfold get
  split
  · exact ⟨rfl, rfl, rfl⟩
  · split
    · split <;> exact ⟨rfl, rfl, rfl⟩
    · exact ⟨rfl, rfl, rfl⟩

theorem settings_act (a : PoolAct) (L : Ledger) :
    (L.act a).2.kinds = L.kinds ∧ (L.act a).2.dir = L.dir ∧ (L.act a).2.format = L.format := by
  cases a with
  | seed kind schemas => exact ⟨rfl, rfl, rfl⟩
  | get kind label => exact settings_get L kind label
  | write kind label i =>
    have h := settings_get L kind label
    simp only [act]
    rcases hget : L.get kind label with ⟨result, L₁⟩
    rw [hget] at h
    cases result with
    | error f => exact h
    | ok f =>
      dsimp only
      split
      · exact h
      · exact h

theorem get_onlyIo (hkind : kind ∈ L.kinds) (label : Label) : OnlyIo (L.get kind label).1 := by
  have hcontains : L.kinds.contains kind = true := by simpa using hkind
  unfold get
  split
  · exact onlyIo_ok _
  · rw [if_pos hcontains]
    split
    · exact onlyIo_ok _
    · rename_i hcreate
      exact onlyIo_error (LabelWriter.create_error hcreate)

/-- A write that can be made is refused by nothing but the file system. -/
theorem write_onlyIo (hkind : kind ∈ L.kinds) {i : Item} (hitem : i.Writable kind label) :
    OnlyIo (L.act (.write kind label i)).1 := by
  have h := get_onlyIo hkind label
  simp only [act]
  rcases hget : L.get kind label with ⟨result, L₁⟩
  rw [hget] at h
  cases result with
  | error f => exact onlyIo_error (h f rfl)
  | ok f =>
    obtain ⟨entry, hentry⟩ := hitem f.format f.schema
    dsimp only
    rw [hentry]
    exact onlyIo_ok _

end Ledger

/-- To the files, a row is a write. -/
theorem Desk.ledger_take_row (kind : OutputKind) (label : Label) (item : Item)
    (properties : PropertyMap) (k : Desk) :
    (take (.row kind label item properties) k).2.ledger =
      (k.ledger.act (.write kind label item)).2 := by
  simp only [take]
  rcases k.ledger.act (.write kind label item) with ⟨_ | _, L⟩ <;> rfl

theorem Desk.settings_take (d : Deed) (k : Desk) :
    (take d k).2.ledger.kinds = k.ledger.kinds ∧ (take d k).2.ledger.dir = k.ledger.dir ∧
      (take d k).2.ledger.format = k.ledger.format := by
  cases d with
  | row kind label item properties =>
    rw [ledger_take_row]
    exact Ledger.settings_act (.write kind label item) k.ledger
  | _ => exact ⟨rfl, rfl, rfl⟩

theorem Desk.settings_takeAll (deeds : List Deed) (k : Desk) :
    (k.takeAll deeds).2.ledger.kinds = k.ledger.kinds ∧
      (k.takeAll deeds).2.ledger.dir = k.ledger.dir ∧
      (k.takeAll deeds).2.ledger.format = k.ledger.format := by
  refine feed_keeps (P := fun k' : Desk => k'.ledger.kinds = k.ledger.kinds ∧
    k'.ledger.dir = k.ledger.dir ∧ k'.ledger.format = k.ledger.format) (fun d k' h => ?_) deeds
    ⟨rfl, rfl, rfl⟩
  obtain ⟨hkinds, hdir, hformat⟩ := settings_take d k'
  exact ⟨hkinds.trans h.1, hdir.trans h.2.1, hformat.trans h.2.2⟩

/-! ## Stations -/

/-- All handles in use are those of the station's pool, which writes files of some kinds and keeps
account of them. -/
structure Station.Sound (kinds : List OutputKind) (s : Station) : Prop where
  scope : s.pool.kinds = kinds
  keyed : s.pool.Keyed
  balanced : s.pool.Balanced s.shared.disk
  filed : ∃ base log, (s.pool.ledger s.shared.disk).Filed base log

def Station.desk (s : Station) : Desk := ⟨s.pool.ledger s.shared.disk, s.shared.stats⟩

/-- The station has done these deeds, or it has stopped where the file system failed. -/
structure Station.Does (kinds : List OutputKind) (s : Station) (deeds : List Deed)
    (outcome : Except Failure Unit × Station) : Prop where
  sound : outcome.2.Sound kinds
  onlyIo : OnlyIo outcome.1
  done : (s.desk.takeAll deeds).1.isOk = outcome.1.isOk
  desk : (s.desk.takeAll deeds).2 = outcome.2.desk

namespace Station

variable {kinds : List OutputKind} {s s' : Station} {deeds more : List Deed} {f : Failure}
  {outcome : Except Failure Unit × Station} {kind : OutputKind} {label : Label}

/-- So is a station with a new pool, where no handles are in use. -/
theorem sound_new (dir : Path) (format : Format) (kinds : List OutputKind) {shared : Shared}
    (hclosed : shared.disk.budget.openCount = 0) :
    (⟨{ dir, format, kinds }, shared⟩ : Station).Sound kinds where
  scope := rfl
  keyed := Pool.keyed_new dir format kinds
  balanced := ⟨hclosed, .inr (by rw [hclosed]; exact Nat.zero_le _)⟩
  filed := ⟨_, [], Pool.filed_new dir format kinds _⟩

theorem Does.nil (h : s.Sound kinds) : s.Does kinds [] (.ok (), s) :=
  ⟨h, onlyIo_ok _, rfl, rfl⟩

/-- The deeds fail where the station stopped, and leave what it has left. -/
theorem Does.takeAll_cases (h : s.Does kinds deeds outcome) :
    (∃ s', outcome = (.ok (), s') ∧ s.desk.takeAll deeds = (.ok (), s'.desk)) ∨
      ∃ f g s', outcome = (.error f, s') ∧ s.desk.takeAll deeds = (.error g, s'.desk) := by
  obtain ⟨result, s'⟩ := outcome
  rcases htake : s.desk.takeAll deeds with ⟨taken, k⟩
  have hdone := h.done
  have hdesk := h.desk
  rw [htake] at hdone hdesk
  obtain rfl : k = s'.desk := hdesk
  cases result with
  | error f =>
    cases taken with
    | error g => exact .inr ⟨f, g, s', rfl, rfl⟩
    | ok _ => cases hdone
  | ok _ =>
    cases taken with
    | error g => cases hdone
    | ok _ => exact .inl ⟨s', rfl, rfl⟩

theorem Does.takeAll_eq (h : s.Does kinds deeds (.ok (), s')) :
    s.desk.takeAll deeds = (.ok (), s'.desk) := by
  rcases h.takeAll_cases with ⟨_, heq, htake⟩ | ⟨_, _, _, heq, -⟩
  · cases heq
    exact htake
  · cases heq

theorem Does.append (h : s.Does kinds deeds (.ok (), s')) (h' : s'.Does kinds more outcome) :
    s.Does kinds (deeds ++ more) outcome := by
  refine ⟨h'.sound, h'.onlyIo, ?_, ?_⟩
  · rw [Desk.takeAll_append_ok h.takeAll_eq]
    exact h'.done
  · rw [Desk.takeAll_append_ok h.takeAll_eq]
    exact h'.desk

/-- After a failure nothing more is done. -/
theorem Does.append_error (h : s.Does kinds deeds (.error f, s')) (more : List Deed) :
    s.Does kinds (deeds ++ more) (.error f, s') := by
  rcases h.takeAll_cases with ⟨_, heq, -⟩ | ⟨_, g, _, heq, htake⟩
  · cases heq
  · cases heq
    have hall := Desk.takeAll_append_error htake more
    exact ⟨h.sound, h.onlyIo, by rw [hall]; rfl, by rw [hall]⟩

/-- A failure of the file system may be told of in another context. -/
theorem Does.of_io (h : s.Does kinds deeds (.error f, s')) {g : Failure} (hg : g.cause = .io) :
    s.Does kinds deeds (.error g, s') :=
  ⟨h.sound, onlyIo_error hg, h.done, h.desk⟩

/-- Elements may be counted on the way. -/
theorem Does.of_tick (h : s.tick.Does kinds deeds outcome) : s.Does kinds deeds outcome :=
  ⟨h.sound, h.onlyIo, h.done, h.desk⟩

theorem Sound.tick (h : s.Sound kinds) : s.tick.Sound kinds :=
  ⟨h.scope, h.keyed, h.balanced, h.filed⟩

theorem Sound.tally (h : s.Sound kinds) (f : Stats → Stats) : (s.tally f).Sound kinds :=
  ⟨h.scope, h.keyed, h.balanced, h.filed⟩

theorem Sound.abandon (h : s.Sound kinds) :
    s.Does kinds [.abandon] (.ok (), s.tally Stats.abandon) :=
  ⟨h.tally _, onlyIo_ok _, rfl, rfl⟩

/-- New files of a kind are to have columns from the start. -/
theorem Sound.seedWith (h : s.Sound kinds) (kind : OutputKind) (schemas : Collection) :
    s.Does kinds [.seed kind schemas]
      (.ok (), { s with pool := s.pool.seedWith kind schemas }) := by
  obtain ⟨base, log, hfiled⟩ := h.filed
  have hfiled' := hfiled.act (a := .seed kind schemas) rfl
  exact ⟨⟨h.scope, h.keyed, ⟨h.balanced.count, h.balanced.bound⟩, base, _, hfiled'⟩, onlyIo_ok _,
    rfl, rfl⟩

theorem Sound.seedAll (h : s.Sound kinds) (seeds : List (OutputKind × Collection)) :
    s.Does kinds (seeds.map fun c => .seed c.1 c.2)
      (.ok (), { s with pool := seeds.foldl (fun p c => p.seedWith c.1 c.2) s.pool }) := by
  induction seeds generalizing s with
  | nil => exact .nil h
  | cons c rest ih =>
    have hfirst := h.seedWith c.1 c.2
    exact hfirst.append (ih hfirst.sound)

/-- A write is one deed. -/
theorem Sound.write (h : s.Sound kinds) (hkind : kind ∈ kinds) {i : Item}
    (hitem : i.Writable kind label) (properties : PropertyMap) :
    s.Does kinds [.row kind label i properties] (s.record kind label properties
      (s.pool.act (.write kind label i) s.shared.disk)) := by
  obtain ⟨base, log, hfiled⟩ := h.filed
  rcases hact : s.pool.act (.write kind label i) s.shared.disk with ⟨done, pool, disk⟩
  obtain ⟨hledger, hbalanced⟩ := Pool.act_ledger hact h.keyed h.balanced fun hf => by
    obtain ⟨-, text, -, htext, -⟩ := hfiled.file hf
    exact FileTree.isFile_of_get? htext
  have hscope : pool.kinds = kinds := by
    have hsettings := (Ledger.settings_act (.write kind label i)
      (s.pool.ledger s.shared.disk)).1
    rw [hledger] at hsettings
    exact hsettings.trans h.scope
  have honly := Ledger.write_onlyIo (L := s.pool.ledger s.shared.disk)
    (by rw [← h.scope] at hkind; exact hkind) hitem
  have htake : s.desk.takeAll [.row kind label i properties] =
      (done, ⟨pool.ledger disk, match done with
        | .error _ => s.shared.stats
        | .ok _ => s.shared.stats.record kind label properties⟩) := by
    simp only [Desk.takeAll, feed, Desk.take, desk, hledger]
    cases done <;> rfl
  have hsound : ∀ stats progress,
      (⟨pool, { s.shared with disk, stats, progress }⟩ : Station).Sound kinds := fun _ _ =>
    ⟨hscope, h.keyed.act hact, hbalanced, base, _, hfiled.act hledger⟩
  rw [hledger] at honly
  cases done with
  | error f => exact ⟨hsound _ _, honly, by rw [htake]; rfl, by rw [htake]; rfl⟩
  | ok _ => exact ⟨hsound _ _, onlyIo_ok _, by rw [htake]; rfl, by rw [htake]; rfl⟩

/-- What is fed to a station is the deeds of its items, one after the other. -/
theorem does_feed {α : Type} {step : α → Station → Except Failure Unit × Station}
    {deedsOf : α → List Deed}
    {l : List α}
    (hstep : ∀ a ∈ l, ∀ s : Station, s.Sound kinds → s.Does kinds (deedsOf a) (step a s))
    (h : s.Sound kinds) : s.Does kinds (l.flatMap deedsOf) (feed step l s) := by
  induction l generalizing s with
  | nil => exact .nil h
  | cons a rest ih =>
    have ha := hstep a List.mem_cons_self s h
    rw [List.flatMap_cons]
    rcases hs : step a s with ⟨result, s'⟩
    rw [hs] at ha
    cases result with
    | error f =>
      rw [feed_cons_error hs]
      exact ha.append_error _
    | ok _ =>
      rw [feed_cons_ok hs]
      exact ha.append (ih (fun b hb => hstep b (List.mem_cons_of_mem _ hb)) ha.sound)

end Station

/-! ## Elements -/

namespace Element

variable {e : Element} {f : Failure}

theorem local_id (h : e.id = .error f) : f.isElementLocal = true := by
  unfold id at h
  split at h
  · cases h
  · cases h
  all_goals
    split at h
    · cases h
    · cases h
      rfl

theorem local_defect {α : Type} {defect : Defect}
    (h : (e.defect defect : Except Failure α) = .error f) : f.isElementLocal = true := by
  unfold Element.defect at h
  split at h <;> cases h <;> rfl

theorem local_tags (h : e.tags = .error f) : f.isElementLocal = true := by
  unfold tags at h
  split at h
  · cases h
  · cases h
  · split at h
    · exact local_defect h
    · split at h <;> cases h
  all_goals
    split at h
    · cases h
    · exact local_defect h

theorem local_properties (h : e.properties = .error f) : f.isElementLocal = true := by
  unfold properties at h
  split at h
  · cases h
  · cases h
  · split at h
    · cases h
    · cases h
    · cases h
    · exact local_defect h
  · cases h
  · cases h

theorem local_endpoint {side : Endpoint} (h : e.endpoint side = .error f) :
    f.isElementLocal = true := by
  unfold endpoint at h
  split at h
  · split at h <;> cases h
  · split at h
    · exact local_defect h
    · cases h
  · split at h
    · exact local_defect h
    · dsimp only at h
      split at h
      · exact local_defect h
      · cases h
    · cases h
  · exact local_defect h

theorem local_labelOf {strategy : LabelStrategy} (h : strategy.labelOf e = .error f) :
    f.isElementLocal = true := by
  unfold LabelStrategy.labelOf at h
  split at h
  · split at h
    · cases h
    · rename_i htags
      cases h
      exact local_tags htags
  · split at h
    · cases h
    · rename_i htags
      cases h
      exact local_tags htags
  · split at h
    · rename_i htags
      cases h
      exact local_tags htags
    · split at h
      · rename_i hsource
        cases h
        exact local_endpoint (map_eq_error hsource)
      · split at h
        · rename_i htarget
          cases h
          exact local_endpoint (map_eq_error htarget)
        · cases h

end Element

theorem local_source {e : Element} {f : Failure} (h : e.source = .error f) :
    f.isElementLocal = true :=
  Element.local_endpoint (map_eq_error h)

theorem local_target {e : Element} {f : Failure} (h : e.target = .error f) :
    f.isElementLocal = true :=
  Element.local_endpoint (map_eq_error h)

/-- Whatever there is to be found wrong with an element, it costs that element only. -/
theorem classify_local {filters : KindFilters} {e : Element} {f : Failure}
    (h : classify filters e = .error f) : f.isElementLocal = true := by
  have hrest : ∀ {label : Label},
      (do .ok (.write label (← e.properties)) : Except Failure Verdict) = .error f →
        f.isElementLocal = true := by
    intro label h
    rcases bind_eq_error h with hproperties | ⟨properties, -, h⟩
    · exact Element.local_properties hproperties
    · cases h
  unfold classify at h
  split at h
  · cases h
  · split at h
    · rename_i hlabel
      cases h
      exact Element.local_labelOf hlabel
    · split at h
      · cases h
      · rcases bind_eq_error h with hid | ⟨id, -, h⟩
        · exact Element.local_id hid
        · dsimp only at h
          split at h
          · rcases bind_eq_error h with hsource | ⟨source, -, h⟩
            · exact local_source hsource
            · rcases bind_eq_error h with htarget | ⟨target, -, h⟩
              · exact local_target htarget
              · exact hrest h
          · exact hrest h

/-- An element that is to be written has all the parts that its line needs. -/
theorem classify_writable {filters : KindFilters} {e : Element} {label : Label}
    {properties : PropertyMap} (h : classify filters e = .ok (.write label properties)) :
    (Item.element e).Writable e.kind.output label := by
  have hexported := KindFilters.exported?_eq_some.2 h
  have hproperties :=
    KindFilters.properties_of_scanned? (KindFilters.scanned?_of_exported? hexported)
  have hplaced : e.isPlaced = true := by
    rw [KindFilters.exported?_eq] at hexported
    split at hexported
    · assumption
    · cases hexported
  have hread : ∀ {x : Except Failure String}, x.isOk = true → ∃ text, x = .ok text := by
    intro x hx
    cases x with
    | error f => cases hx
    | ok text => exact ⟨text, rfl⟩
  simp only [Element.isPlaced, Bool.and_eq_true, Bool.or_eq_true, decide_eq_true_eq] at hplaced
  obtain ⟨hid, hends⟩ := hplaced
  obtain ⟨id, hid⟩ := hread hid
  intro format schema
  cases hkind : e.kind with
  | nodes =>
    cases format <;>
      simp [Item.entry, ElementKind.output, elementLine, csvRecord, structuralCells, elementObject,
        hid, hproperties, bind, Except.bind, Except.map]
  | edges =>
    have hends := hends.resolve_left (by simp [hkind])
    obtain ⟨source, hsource⟩ := hread hends.1
    obtain ⟨target, htarget⟩ := hread hends.2
    cases format <;>
      simp [Item.entry, ElementKind.output, elementLine, csvRecord, structuralCells, elementObject,
        hid, hsource, htarget, hproperties, bind, Except.bind, Except.map]

/-- What is to be done with an element. -/
def KindFilters.deeds (filters : KindFilters) (e : Element) : List Deed :=
  match classify filters e with
  | .ok .ignore => []
  | .ok (.write label properties) => [.row e.kind.output label (.element e) properties]
  | .error _ => [.skip]

namespace Station

variable {kinds : List OutputKind} {s : Station}

/-- An element is one deed at most. -/
theorem Sound.put (h : s.Sound kinds) (filters : KindFilters) (e : Element)
    (hkind : (filters.get e.kind).isSome → e.kind.output ∈ kinds) :
    s.Does kinds (filters.deeds e) (s.put filters e) := by
  unfold Station.put KindFilters.deeds
  cases hclassify : classify filters e with
  | error f =>
    dsimp only
    rw [if_pos (classify_local hclassify)]
    exact ⟨h.tally _, onlyIo_ok _, rfl, rfl⟩
  | ok verdict =>
    cases verdict with
    | ignore => exact .nil h
    | write label properties =>
      have hfilter : (filters.get e.kind).isSome := by
        rw [Option.isSome_iff_ne_none]
        intro hnone
        simp [classify, hnone] at hclassify
      exact h.write (hkind hfilter) (classify_writable hclassify) properties

/-- So is a row of named columns. -/
theorem Sound.fileRow (h : s.Sound kinds) (hkind : .results ∈ kinds) (name : String) (row : Row) :
    s.Does kinds [.row .results (.single name) (.columns (row.columns true)) (row.columns true)]
      (s.fileRow name true (.row row)) :=
  h.write hkind (Item.writable_columns _ _ _) _

end Station

/-! ## Jobs -/

namespace Job

/-- What a job that ends well leaves: the schema, the statistics, and the files. -/
def left? (outcome : Except Failure Summary × FileTree) :
    Option (GraphSchema × Stats × FileTree) :=
  match outcome with
  | (.ok summary, t) => some (summary.schema, summary.stats, t)
  | (.error _, _) => none

theorem left?_eq_some {outcome : Except Failure Summary × FileTree} {schema : GraphSchema}
    {stats : Stats} {t : FileTree} : left? outcome = some (schema, stats, t) ↔
      ∃ maxOpenFiles, outcome = (.ok ⟨schema, stats, maxOpenFiles⟩, t) := by
  unfold left?
  split
  · rename_i summary t'
    obtain ⟨schema', stats', maxOpenFiles⟩ := summary
    simp only [Option.some.injEq, Prod.mk.injEq, Except.ok.injEq, Summary.mk.injEq]
    constructor
    · rintro ⟨rfl, rfl, rfl⟩
      exact ⟨_, ⟨rfl, rfl, rfl⟩, rfl⟩
    · rintro ⟨_, ⟨rfl, rfl, rfl⟩, rfl⟩
      exact ⟨rfl, rfl, rfl⟩
  · simp

/-- What a job leaves that has the schema and the statistics, and has yet to write them. -/
def finish (dir : Path) (schema : GraphSchema) (stats : Stats) (t : FileTree) :
    Option (GraphSchema × Stats × FileTree) :=
  match Job.writeArtifacts dir schema stats t with
  | (.error _, _) => none
  | (.ok _, t) => some (schema, stats, t)

/-- A job leaves in its directory what it leaves when it sees nothing else. -/
theorem left?_inOutput (dir : Route) (t : FileTree)
    (job : Path → FileTree → Except Failure Summary × FileTree) :
    left? (inOutput dir t job) = (t.openWay dir).bind fun way =>
      (left? (job dir.home (way.2.view way.1 dir.home))).map fun left =>
        (left.1, left.2.1, way.2.withView way.1 dir.home left.2.2) := by
  unfold inOutput
  cases t.openWay dir with
  | none => rfl
  | some way =>
    obtain ⟨place, t₁⟩ := way
    simp only [Option.bind_some]
    rcases job dir.home (t₁.view place dir.home) with ⟨result, inside⟩
    cases result <;> rfl

theorem inOutput_onlyIo {dir : Route} {t : FileTree}
    {job : Path → FileTree → Except Failure Summary × FileTree}
    (h : ∀ home view, OnlyIo (job home view).1) : OnlyIo (inOutput dir t job).1 := by
  unfold inOutput
  split
  · exact onlyIo_error rfl
  · exact h _ _

end Job

end GraphExport
