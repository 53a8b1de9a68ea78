import GraphExport.Proofs.Job.Stock
import GraphExport.Proofs.Job.Took
import GraphExport.Proofs.Window.Coverage

/-!
# GraphExport.Proofs.Job.Fates

What becomes of the elements that are handed to a worker: none is lost, none is counted twice.

* `KindFilters.fate`: an element is ignored, skipped, or written under a label. `fate_eq`: it is
  what the element is classified as.
* `Station.Alike`: stations that differ in what they have passed over only. `Station.alike_feed`:
  the elements that are written make all the difference.
* `Station.Accounts`: what is in the files, in their schemas and in the statistics is what was
  written. `Station.feed_accounts`: so it is after all that is handed to a worker.
-/

namespace GraphExport

/-! ## Fates -/

inductive Fate where
  | ignored
  | skipped
  | written (label : Label)
  deriving DecidableEq

namespace Fate

def isWritten : Fate → Bool
  | .written _ => true
  | _ => false

def ofVerdict : Except Failure Verdict → Fate
  | .ok .ignore => .ignored
  | .ok (.write label _) => .written label
  | .error _ => .skipped

end Fate

namespace KindFilters

variable {filters : KindFilters} {e : Element} {label : Label}

/-- What becomes of an element. It is ignored if its kind has no filter or its label is rejected. It
is skipped if it has no label, or if it is accepted and its id, an end or its properties are
malformed. -/
def fate (filters : KindFilters) (e : Element) : Fate :=
  match filters.get e.kind with
  | none => .ignored
  | some filter =>
    match filter.labelOf e with
    | .error _ => .skipped
    | .ok label =>
      if !filter.accepts label then .ignored
      else if e.isPlaced && e.properties.isOk then .written label
      else .skipped

theorem fate_eq (filters : KindFilters) (e : Element) :
    filters.fate e = .ofVerdict (classify filters e) := by
  unfold fate classify Element.isPlaced
  cases filters.get e.kind with
  | none => rfl
  | some filter =>
    dsimp only
    cases filter.labelOf e with
    | error f => rfl
    | ok label =>
      dsimp only
      cases filter.accepts label with
      | false => rfl
      | true =>
        cases e.id with
        | error f => rfl
        | ok id =>
          cases e.kind with
          | nodes => cases e.properties <;> rfl
          | edges => cases e.source <;> cases e.target <;> cases e.properties <;> rfl

theorem classify_of_ignored (h : filters.fate e = .ignored) :
    classify filters e = .ok .ignore := by
  rw [fate_eq] at h
  revert h
  rcases classify filters e with f | _ | ⟨label, properties⟩ <;> simp [Fate.ofVerdict]

theorem classify_of_skipped (h : filters.fate e = .skipped) :
    ∃ f, classify filters e = .error f := by
  rw [fate_eq] at h
  revert h
  rcases classify filters e with f | _ | ⟨label, properties⟩ <;> simp [Fate.ofVerdict]

theorem classify_of_written (h : filters.fate e = .written label) :
    ∃ properties, classify filters e = .ok (.write label properties) := by
  rw [fate_eq] at h
  revert h
  rcases classify filters e with f | _ | ⟨label', properties⟩ <;> simp [Fate.ofVerdict]

/-- The element is a row of the files of a kind and label. -/
def writes (filters : KindFilters) (kind : OutputKind) (label : Label) (e : Element) : Bool :=
  e.kind.output = kind && filters.fate e = .written label

theorem rows_deeds (filters : KindFilters) (kind : OutputKind) (label : Label) (e : Element) :
    (Deed.rows kind label (filters.deeds e)).length =
      if filters.writes kind label e then 1 else 0 := by
  unfold deeds writes
  rw [fate_eq]
  rcases classify filters e with f | _ | ⟨label', properties⟩
  · simp [Deed.rows, Fate.ofVerdict]
  · simp [Deed.rows, Fate.ofVerdict]
  · by_cases hkey : e.kind.output = kind ∧ label' = label <;>
      simp [Deed.rows, Fate.ofVerdict, hkey]

/-- There is a row for each element that is written, and no other. -/
theorem length_rows (filters : KindFilters) (kind : OutputKind) (label : Label)
    (items : List Element) :
    (Deed.rows kind label (items.flatMap filters.deeds)).length =
      items.countP (filters.writes kind label) := by
  induction items with
  | nil => rfl
  | cons e rest ih =>
    rw [List.flatMap_cons, Deed.rows_append, List.length_append, ih, rows_deeds,
      List.countP_cons, Nat.add_comm]

end KindFilters

/-! ## Steps -/

namespace Station

variable {filters : KindFilters} {e : Element} {s t : Station}

/-- What is done with an element that is handed to a worker. -/
def handle (filters : KindFilters) (e : Element) (s : Station) : Except Failure Unit × Station :=
  s.tick.put filters e

/-- An element that is ignored is counted as processed, and that is all. -/
theorem handle_of_ignored (h : filters.fate e = .ignored) (s : Station) :
    s.handle filters e = (.ok (), s.tick) := by
  rw [handle, put, KindFilters.classify_of_ignored h]

/-- An element that is skipped is counted as processed and as skipped, and that is all. -/
theorem handle_of_skipped (h : filters.fate e = .skipped) (s : Station) :
    s.handle filters e = (.ok (), s.tick.tally Stats.skip) := by
  obtain ⟨f, hclassify⟩ := KindFilters.classify_of_skipped h
  rw [handle, put, hclassify]
  dsimp only
  rw [if_pos (classify_local hclassify)]

theorem skipped_record (s : Station) (kind : OutputKind) (label : Label)
    (properties : PropertyMap) (written : Except Failure Unit × Pool × Disk) :
    (s.record kind label properties written).2.shared.stats.skipped = s.shared.stats.skipped := by
  obtain ⟨result, pool, disk⟩ := written
  cases result <;> rfl

theorem skipped_handle (filters : KindFilters) (e : Element) (s : Station) :
    (s.handle filters e).2.shared.stats.skipped =
      s.shared.stats.skipped + if filters.fate e = .skipped then 1 else 0 := by
  cases hfate : filters.fate e with
  | ignored =>
    rw [handle_of_ignored hfate]
    rfl
  | skipped =>
    rw [handle_of_skipped hfate]
    rfl
  | written label =>
    obtain ⟨properties, hclassify⟩ := KindFilters.classify_of_written hfate
    rw [handle, put, hclassify]
    exact skipped_record _ _ _ _ _

/-- The stations have the same writers and files and have counted the same, but for what they have
processed and skipped. -/
structure Alike (s t : Station) : Prop where
  pool : s.pool = t.pool
  disk : s.shared.disk = t.shared.disk
  stats : { s.shared.stats with skipped := 0 } = { t.shared.stats with skipped := 0 }

theorem Alike.record (h : s.Alike t) (kind : OutputKind) (label : Label)
    (properties : PropertyMap) (written : Except Failure Unit × Pool × Disk) :
    (s.record kind label properties written).1 = (t.record kind label properties written).1 ∧
      (s.record kind label properties written).2.Alike
        (t.record kind label properties written).2 := by
  obtain ⟨result, pool, disk⟩ := written
  cases result with
  | error f => exact ⟨rfl, rfl, rfl, h.stats⟩
  | ok _ => exact ⟨rfl, rfl, rfl, congrArg (·.record kind label properties) h.stats⟩

theorem Alike.handle (h : s.Alike t) (hfate : (filters.fate e).isWritten) :
    (s.handle filters e).1 = (t.handle filters e).1 ∧
      (s.handle filters e).2.Alike (t.handle filters e).2 := by
  cases hlabel : filters.fate e with
  | written label =>
    obtain ⟨properties, hclassify⟩ := KindFilters.classify_of_written hlabel
    have htick : s.tick.Alike t.tick := ⟨h.pool, h.disk, h.stats⟩
    simp only [Station.handle, put, hclassify]
    rw [show s.tick.pool = t.tick.pool from htick.pool,
      show s.tick.shared.disk = t.tick.shared.disk from htick.disk]
    exact htick.record _ _ _ _
  | ignored =>
    rw [hlabel] at hfate
    cases hfate
  | skipped =>
    rw [hlabel] at hfate
    cases hfate

theorem Alike.handle_left (h : s.Alike t) (hfate : (filters.fate e).isWritten = false) :
    ∃ s', s.handle filters e = (.ok (), s') ∧ s'.Alike t := by
  cases hlabel : filters.fate e with
  | written label =>
    rw [hlabel] at hfate
    cases hfate
  | ignored => exact ⟨_, handle_of_ignored hlabel s, h.pool, h.disk, h.stats⟩
  | skipped => exact ⟨_, handle_of_skipped hlabel s, h.pool, h.disk, h.stats⟩

/-- The elements that are skipped or ignored make no difference but to what is counted as skipped
and as processed. -/
theorem alike_feed (filters : KindFilters) (items : List Element) (h : s.Alike t) :
    let written := items.filter fun e => (filters.fate e).isWritten
    (feed (handle filters) items s).1 = (feed (handle filters) written t).1 ∧
      (feed (handle filters) items s).2.Alike (feed (handle filters) written t).2 := by
  dsimp only
  induction items generalizing s t with
  | nil => exact ⟨rfl, h⟩
  | cons e rest ih =>
    cases hfate : (filters.fate e).isWritten with
    | true =>
      rw [List.filter_cons, if_pos hfate]
      obtain ⟨hresult, hnext⟩ := h.handle hfate
      rcases hs : s.handle filters e with ⟨result, s'⟩
      rcases ht : t.handle filters e with ⟨result', t'⟩
      rw [hs, ht] at hresult hnext
      obtain rfl : result = result' := hresult
      cases result with
      | error f =>
        rw [feed_cons_error hs, feed_cons_error ht]
        exact ⟨rfl, hnext⟩
      | ok _ =>
        rw [feed_cons_ok hs, feed_cons_ok ht]
        exact ih hnext
    | false =>
      obtain ⟨s', hs, hnext⟩ := h.handle_left hfate
      rw [List.filter_cons, if_neg (by rw [hfate]; exact Bool.false_ne_true), feed_cons_ok hs]
      exact ih hnext

/-! ## Accounts -/

/-- The files of a kind and label. -/
def filesOf (s : Station) (kind : OutputKind) (label : Label) : SortedMap String FileSchema :=
  ((s.pool.close s.shared.disk).1.get kind).filesOf label

/-- What is on the disk when the writers are closed. -/
def left (s : Station) : FileTree := (s.pool.close s.shared.disk).2.2.tree

/-- The account of what a station has done with some elements. For each kind and label the rows of
the files, the counts in their schemas and the count in the statistics are the number of elements
that were written. -/
structure Accounts (filters : KindFilters) (items : List Element) (before : FileTree)
    (s : Station) : Prop where
  processed : s.shared.progress.processed = items.length
  fates : items.length = (items.countP fun e => (filters.fate e).isWritten) +
    (items.countP fun e => filters.fate e = .skipped) +
    (items.countP fun e => filters.fate e = .ignored)
  skipped : s.shared.stats.skipped = items.countP fun e => filters.fate e = .skipped
  counted : ∀ kind label,
    s.shared.stats.countOf kind label = items.countP (filters.writes kind label)
  schemas : ∀ kind label, ((s.filesOf kind label).values.map (·.schema.count)).sum =
    items.countP (filters.writes kind label)
  rows : ∀ kind label, ∃ rows : List Nat,
    ((s.filesOf kind label).values.map fun f => (s.left.read? f.path).map f.format.dataRows) =
      rows.map some ∧ rows.sum = items.countP (filters.writes kind label)
  unfiled : ∀ kind label, items.countP (filters.writes kind label) = 0 → s.filesOf kind label = ∅
  others : ∀ q, (∀ kind label, ∀ f ∈ (s.filesOf kind label).values, f.path ≠ q) →
    s.left.read? q = before.read? q

/-- A station with an empty pool, where nothing was counted. New files of a kind may have columns
from the start. -/
def start (dir : Path) (format : Format) (kinds : List OutputKind)
    (seeds : List (OutputKind × Collection)) (disk : Disk) : Station :=
  ⟨seeds.foldl (fun p c => p.seedWith c.1 c.2) { dir, format, kinds }, { disk }⟩

end Station

namespace KindFilters

/-- Elements are nodes or edges. -/
theorem writes_results (filters : KindFilters) (label : Label) (e : Element) :
    filters.writes .results label e = false := by
  rw [writes, decide_eq_false (Station.output_ne_results e.kind), Bool.false_and]

/-- Each element has one of three fates. -/
theorem countP_fates (filters : KindFilters) (items : List Element) :
    items.length = (items.countP fun e => (filters.fate e).isWritten) +
      (items.countP fun e => filters.fate e = .skipped) +
      (items.countP fun e => filters.fate e = .ignored) := by
  induction items with
  | nil => rfl
  | cons e rest ih =>
    simp only [List.length_cons, List.countP_cons, ih]
    cases filters.fate e <;> simp [Fate.isWritten] <;> omega

end KindFilters

namespace Station

variable {filters : KindFilters} {kinds : List OutputKind} {items : List Element} {s t : Station}

/-- The deeds of a station that was handed some elements, one after the other. -/
theorem does_start (hkinds : ∀ kind, (filters.get kind).isSome → kind.output ∈ kinds)
    (dir : Path) (format : Format) (seeds : List (OutputKind × Collection)) {disk : Disk}
    (hclosed : disk.budget.openCount = 0) (items : List Element) :
    (⟨{ dir, format, kinds }, { disk }⟩ : Station).Does kinds
      ((seeds.map fun c => .seed c.1 c.2) ++ items.flatMap filters.deeds)
      (feed (handle filters) items (start dir format kinds seeds disk)) := by
  have hnew : (⟨{ dir, format, kinds }, { disk }⟩ : Station).Sound kinds :=
    sound_new dir format kinds hclosed
  have hseeded := hnew.seedAll seeds
  exact hseeded.append (does_feed
    (fun e _ s hs => .of_tick (hs.tick.put filters e (hkinds e.kind))) hseeded.sound)

theorem skipped_feed (h : feed (handle filters) items s = (.ok (), t)) :
    t.shared.stats.skipped =
      s.shared.stats.skipped + items.countP fun e => filters.fate e = .skipped := by
  have hnone : s.shared.stats.skipped =
      s.shared.stats.skipped + ([] : List Element).countP fun e => filters.fate e = .skipped := rfl
  refine feed_ok_keeps (P := fun done t => t.shared.stats.skipped =
      s.shared.stats.skipped + done.countP fun e => filters.fate e = .skipped)
    (fun e done t t' hdone ht => ?_) items hnone h
  have hstep := skipped_handle filters e t
  rw [ht] at hstep
  rw [hstep, hdone, List.countP_append, List.countP_singleton, Nat.add_assoc]
  simp only [decide_eq_true_eq]

/-- The account is right when all the deeds are done. -/
theorem accounts_of_took {dir : Path} {format : Format} {seeds : List (OutputKind × Collection)}
    {disk : Disk}
    (htook : s.desk.Took (Pool.ledger { dir, format, kinds } disk)
      ((seeds.map fun c => .seed c.1 c.2) ++ items.flatMap filters.deeds))
    (hfeed : Delivery.feed { items } (handle filters) (start dir format kinds seeds disk) =
      (.ok items.length, s)) :
    s.Accounts filters items disk.tree := by
  have hrows : ∀ kind label, (Deed.rows kind label
      ((seeds.map fun c => .seed c.1 c.2) ++ items.flatMap filters.deeds)).length =
        items.countP (filters.writes kind label) := by
    intro kind label
    rw [Deed.rows_append, Deed.rows_seeds, List.nil_append, KindFilters.length_rows]
  have hfragments : ∀ kind label,
      s.filesOf kind label = (s.desk.ledger.fragments.get kind).filesOf label := by
    intro kind label
    rw [filesOf, Pool.fragments_close]
    rfl
  have hnone : ∀ kind label, items.countP (filters.writes kind label) = 0 →
      s.filesOf kind label = ∅ := by
    intro kind label hzero
    rw [hfragments]
    exact htook.no_file (List.eq_nil_of_length_eq_zero ((hrows kind label).trans hzero))
  have hsome : ∀ kind label, items.countP (filters.writes kind label) ≠ 0 →
      ∃ f text, s.filesOf kind label = SortedMap.insert ∅ f.path.text f ∧
        s.left.read? f.path = some text ∧
        f.format.dataRows text = items.countP (filters.writes kind label) ∧
        f.schema.count = items.countP (filters.writes kind label) := by
    intro kind label hpos
    have hkind : kind ≠ .results := by
      rintro rfl
      obtain ⟨e, -, he⟩ := List.countP_pos_iff.1 (Nat.pos_of_ne_zero hpos)
      rw [KindFilters.writes_results] at he
      cases he
    rw [hfragments, ← hrows]
    refine htook.file hkind fun hnil => hpos ?_
    rw [← hrows, hnil]
    rfl
  refine ⟨?_, filters.countP_fates items, ?_, fun kind label => ?_, fun kind label => ?_,
    fun kind label => ?_, hnone, fun q hq => ?_⟩
  · exact (Delivery.processed_feed (fun s => s.shared.progress)
      (fun e s => progress_put filters e s.tick) hfeed).2.trans (Nat.zero_add _)
  · rcases Delivery.feed_cases { items } (handle filters) (start dir format kinds seeds disk) with
      ⟨t, ht, hitems, -⟩ | ⟨f, hf⟩
    · rw [hfeed] at ht
      cases ht
      exact (skipped_feed hitems).trans (Nat.zero_add _)
    · rw [hfeed] at hf
      cases hf
  · exact (htook.countOf kind label).trans (hrows kind label)
  · by_cases hzero : items.countP (filters.writes kind label) = 0
    · rw [hnone kind label hzero, hzero]
      rfl
    · obtain ⟨f, text, hfiles, -, -, hcount⟩ := hsome kind label hzero
      rw [hfiles, ← hcount]
      rfl
  · by_cases hzero : items.countP (filters.writes kind label) = 0
    · refine ⟨[], ?_, hzero.symm⟩
      rw [hnone kind label hzero]
      rfl
    · obtain ⟨f, text, hfiles, htext, hdata, -⟩ := hsome kind label hzero
      refine ⟨[f.format.dataRows text], ?_, hdata⟩
      rw [hfiles]
      exact congrArg (fun x => [Option.map f.format.dataRows x]) htext
  · refine htook.filed.frame q fun kind label f hf => hq kind label f ?_
    rw [hfragments, htook.filed.filesOf_fragments, hf]
    exact List.mem_singleton_self f

/-- None is lost and none is counted twice. If the file system does not fail, a worker takes all
elements that are handed to it, in any shape and with any content, and its account is right; and the
elements that were skipped or ignored have made no difference to its files or its statistics but for
the number of those that were skipped. -/
theorem feed_accounts (filters : KindFilters) (kinds : List OutputKind)
    (hkinds : ∀ kind, (filters.get kind).isSome → kind.output ∈ kinds)
    (dir : Path) (format : Format) (seeds : List (OutputKind × Collection))
    (tree : FileTree) (filesNamed max : Nat) (items : List Element)
    (hio : ∀ f, (Delivery.feed { items } (handle filters)
      (start dir format kinds seeds ⟨tree, filesNamed, { max }⟩)).1 = .error f → f.cause ≠ .io) :
    ∃ s, Delivery.feed { items } (handle filters)
        (start dir format kinds seeds ⟨tree, filesNamed, { max }⟩) = (.ok items.length, s) ∧
      s.Accounts filters items tree ∧
      ∃ t, feed (handle filters) (items.filter fun e => (filters.fate e).isWritten)
          (start dir format kinds seeds ⟨tree, filesNamed, { max }⟩) = (.ok (), t) ∧
        s.Alike t := by
  let disk : Disk := ⟨tree, filesNamed, { max }⟩
  have hclosed : disk.budget.openCount = 0 := rfl
  have hdoes := does_start hkinds dir format seeds hclosed items
  rcases hfeed : feed (handle filters) items (start dir format kinds seeds disk) with ⟨result, s⟩
  rw [hfeed] at hdoes
  cases result with
  | error f =>
    refine absurd (hdoes.onlyIo f rfl) (hio f ?_)
    rw [Delivery.feed, hfeed]
  | ok _ =>
    have hdelivery : Delivery.feed { items } (handle filters)
        (start dir format kinds seeds disk) = (.ok items.length, s) := Delivery.feed_of_ok hfeed
    refine ⟨s, hdelivery, ?_, ?_⟩
    · have htook := Desk.took_takeAll (Desk.took_new dir format kinds disk rfl) hdoes.takeAll_eq
      exact accounts_of_took htook hdelivery
    · obtain ⟨hresult, halike⟩ := alike_feed filters items
        (s := start dir format kinds seeds disk) ⟨rfl, rfl, rfl⟩
      rcases hwritten : feed (handle filters) (items.filter fun e => (filters.fate e).isWritten)
        (start dir format kinds seeds disk) with ⟨result', t⟩
      rw [hfeed, hwritten] at hresult halike
      obtain rfl : .ok () = result' := hresult
      exact ⟨t, rfl, halike⟩

/-- A node is written, the next has no id, the label of the third is rejected, the fourth has none,
and there is no filter for edges. -/
theorem feed_accounts_one_of_each :
    let filters : KindFilters := ⟨some (.specified .node [.single "t"]), none⟩
    let items : List Element :=
      [.node { id := "1", tags := ["t"], properties := .ofList [("k", .str "x\ny")] },
        .projected .nodes (.ofList [("~label", .arr [.str "t"])]),
        .node { id := "3", tags := ["u"], properties := .ofList [] },
        .nodeRow (.ofList [(.id, .str "4")]),
        .edgeRow (.ofList [(.id, .str "5"), (.source, .str "1"), (.target, .str "3")])]
    let outcome := Delivery.feed { items } (handle filters)
      (start (.ofNames ["out"]) .csv [.nodes] [] ⟨∅, 0, { max := 1 }⟩)
    items.map filters.fate = [.written (.single "t"), .skipped, .ignored, .skipped, .ignored] ∧
      (∀ f, outcome.1 = .error f → f.cause ≠ .io) ∧ outcome.2.Accounts filters items ∅ ∧
      outcome.2.left.read? (.ofNames ["out", "nodes", "t-1.csv"]) =
        some "~id,~label\n1,t,\"x\ny\"\n" := by
  intro filters items outcome
  have hio : ∀ f, outcome.1 = .error f → f.cause ≠ .io := by
    have hok : outcome.1.isOk = true := by decide +kernel
    intro f hf
    rw [hf] at hok
    cases hok
  refine ⟨by decide +kernel, hio, ?_, by decide +kernel⟩
  have hkinds : ∀ kind, (filters.get kind).isSome → kind.output ∈ [OutputKind.nodes] := by
    intro kind
    cases kind <;> decide
  obtain ⟨s, hs, haccounts, -⟩ :=
    feed_accounts filters [.nodes] hkinds (.ofNames ["out"]) .csv [] ∅ 0 1 items hio
  rw [show outcome.2 = s from congrArg Prod.snd hs]
  exact haccounts

end Station

end GraphExport
