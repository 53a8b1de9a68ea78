import GraphExport.Proofs.Job.Tables
import GraphExport.Proofs.Output.Filing
import GraphExport.Proofs.Output.Handles
import GraphExport.Proofs.Source.Exported

/-!
# GraphExport.Proofs.Job.Filed

What a worker by itself writes, element by element.

* `Station.Filed`: the files of the job are those of some rows, and all handles are the worker's.
* `Station.Filed.put`, `Station.feed_filed`: an element adds its row, unless the file system fails.
* `Reconciled.made`: bringing the files of one worker in line gives them the texts of their rows.
-/

namespace GraphExport

/-- The shelves of a worker by itself. -/
def alone (S : Shelf) : Nat → Shelf := fun i => if i = 0 then S else Shelf.empty

theorem alone_eq_some {S : Shelf} {i : Nat} {kind : OutputKind} {label : Label} {s : Sheet} :
    alone S i kind label = some s ↔ i = 0 ∧ S kind label = some s := by
  unfold alone
  split
  · rename_i hi
    simp [hi]
  · rename_i hi
    simp [hi, Shelf.empty]

/-- The files of the job are those of some rows of a kind, and all handles are those of the pool. -/
structure Station.Filed (dir : Path) (kind : OutputKind) (base : FileTree) (named : Nat)
    (rows : List (Label × WrittenRow)) (s : Station) : Prop where
  stocked : s.Stocked dir [kind] base 0 (alone (filed kind named rows))
  unseeded : s.pool.seeds = .fill ∅
  count : s.shared.disk.filesNamed = named + (labelsOf rows).length
  balanced : s.pool.Balanced s.shared.disk

namespace Station

variable {dir : Path} {kind : OutputKind} {base : FileTree} {named : Nat}
  {rows : List (Label × WrittenRow)} {s : Station} {filter : LabelFilter} {e : Element}

theorem Filed.tally (h : s.Filed dir kind base named rows) (f : Stats → Stats) :
    (s.tally f).Filed dir kind base named rows :=
  ⟨h.stocked.tally f, h.unseeded, h.count, h.balanced⟩

theorem Filed.tick (h : s.Filed dir kind base named rows) : s.tick.Filed dir kind base named rows :=
  ⟨h.stocked.tick, h.unseeded, h.count, h.balanced⟩

theorem Filed.write (h : s.Filed dir e.kind.output base named rows) (he : e.IsWhole) (label : Label)
    {result : Except Failure Unit} {pool : Pool} {disk : Disk}
    (hwrite : s.pool.writeElement e.kind.output label e s.shared.disk = (result, pool, disk)) :
    OnlyIo result ∧ (result = .ok () → Station.Filed dir e.kind.output base named
      (rows ++ [(label, exportedRow label e)]) ⟨pool, { s.shared with disk }⟩) := by
  obtain ⟨shelves', hothers, hshelved, hholds, hsettings, hok, -⟩ := Pool.writeWith_holds
    h.stocked.shelved h.stocked.holds (row_writeElement (output_ne_results e.kind) e) hwrite
  obtain ⟨honly, hbalanced⟩ := Pool.writeWith_balanced h.stocked.shelved h.stocked.holds h.balanced
    (List.mem_singleton_self _) (fun w hkind _ hformat hopen =>
      LabelWriter.writeElement_whole he hkind hformat hopen) hwrite
  refine ⟨honly, fun hresult => ?_⟩
  obtain ⟨r, hr, hshelf, hcount⟩ := hok hresult
  rw [ofElement_whole he] at hr
  obtain rfl := Except.ok.inj hr
  have hbook : s.pool.newBook e.kind.output label = ⟨e.kind.output, label, { label }, []⟩ := by
    rw [Pool.newBook, h.unseeded]
    cases e.kind.output <;> rfl
  have hshelves : shelves' = alone (filed e.kind.output named
      (rows ++ [(label, exportedRow label e)])) := by
    funext i
    by_cases hi : i = 0
    · subst hi
      rw [hshelf, hbook, h.count, alone, if_pos rfl, alone, if_pos rfl, filed_append]
    · rw [hothers i hi, alone, if_neg hi, alone, if_neg hi]
  rw [hshelves] at hshelved hholds
  refine ⟨⟨hshelved, hholds⟩, hsettings.2.trans h.unseeded, ?_, hbalanced hresult⟩
  rw [length_labelsOf_append e.kind.output named]
  show disk.filesNamed = _
  rw [hcount, h.count, alone, if_pos rfl, Nat.add_assoc]

/-- An element adds its row, if the filter accepts it, unless the file system fails. -/
theorem Filed.put (h : s.Filed dir filter.kind.output base named rows) (he : e.IsWhole)
    (hkind : e.kind = filter.kind) :
    OnlyIo (s.put (.single filter) e).1 ∧ ((s.put (.single filter) e).1 = .ok () →
      (s.put (.single filter) e).2.Filed dir filter.kind.output base named
        (rows ++ (filter.rowOf? e).toList)) := by
  unfold Station.put
  rw [classify_whole he hkind]
  cases hrow : filter.rowOf? e with
  | none =>
    refine ⟨onlyIo_ok _, fun _ => ?_⟩
    simpa using h
  | some row =>
    obtain ⟨label, r⟩ := row
    obtain rfl := LabelFilter.rowOf?_eq_some hrow
    rw [← hkind] at h ⊢
    simp only [Option.toList_some]
    rcases hwrite : s.pool.writeElement e.kind.output label e s.shared.disk with
      ⟨result, pool, disk⟩
    obtain ⟨honly, hfiled⟩ := h.write he label hwrite
    cases result with
    | error f => exact ⟨onlyIo_error (honly f rfl), fun hok => nomatch hok⟩
    | ok _ =>
      refine ⟨onlyIo_ok _, fun _ => ?_⟩
      exact (hfiled rfl).tally (·.record e.kind.output label (exportedRow label e).properties)

theorem feed_filed {l : List Element} (hl : ∀ e ∈ l, e.IsWhole ∧ e.kind = filter.kind)
    (h : s.Filed dir filter.kind.output base named rows) :
    OnlyIo (feed (Worker.exportStep filter) l s).1 ∧
      ((feed (Worker.exportStep filter) l s).1 = .ok () →
        (feed (Worker.exportStep filter) l s).2.Filed dir filter.kind.output base named
          (rows ++ l.filterMap filter.rowOf?)) := by
  induction l generalizing s rows with
  | nil =>
    refine ⟨onlyIo_ok _, fun _ => ?_⟩
    simpa using h
  | cons e rest ih =>
    obtain ⟨he, hkind⟩ := hl e List.mem_cons_self
    obtain ⟨honly, hfiled⟩ := h.tick.put he hkind
    rcases hs : Worker.exportStep filter e s with ⟨result, s'⟩
    rw [show s.tick.put (.single filter) e = (result, s') from hs] at honly hfiled
    cases result with
    | error f =>
      rw [feed_cons_error hs]
      exact ⟨onlyIo_error (honly f rfl), fun hok => nomatch hok⟩
    | ok _ =>
      rw [feed_cons_ok hs]
      have hrest := ih (fun e' he' => hl e' (List.mem_cons_of_mem _ he')) (hfiled rfl)
      rw [List.append_assoc] at hrest
      have hrows : (filter.rowOf? e).toList ++ rest.filterMap filter.rowOf? =
          (e :: rest).filterMap filter.rowOf? := by
        rw [List.filterMap_cons]
        cases filter.rowOf? e <;> rfl
      rwa [hrows] at hrest

end Station

theorem reconcileFile_onlyIo (kind : OutputKind) (label : Label) (canonical : LabelSchema)
    (file : FileSchema) (t : FileTree) :
    OnlyIo (reconcileFile kind label canonical file t).1 := by
  unfold reconcileFile
  split
  · exact onlyIo_error (f := ⟨.io, _⟩) rfl
  · exact onlyIo_error (f := ⟨.io, _⟩) rfl
  · split
    · exact onlyIo_ok _
    · simp only
      split
      · exact onlyIo_error (f := ⟨.io, _⟩) rfl
      · split
        · exact onlyIo_error (f := ⟨.io, _⟩) rfl
        · exact onlyIo_ok _

theorem reconcileAll_onlyIo (kind : OutputKind) (jobs : List (Label × LabelSchema × FileSchema))
    (t : FileTree) : OnlyIo (reconcileAll kind jobs t).1 := by
  induction jobs generalizing t with
  | nil => exact onlyIo_ok _
  | cons job rest ih =>
    obtain ⟨label, canonical, file⟩ := job
    have hfile := reconcileFile_onlyIo kind label canonical file t
    unfold reconcileAll
    rcases hr : reconcileFile kind label canonical file t with ⟨result, t₁⟩
    rw [hr] at hfile
    cases result with
    | ok _ => exact ih t₁
    | error f => exact onlyIo_error (hfile f rfl)

theorem reconcileKind_onlyIo (format : Format) (kind : OutputKind) (context : String)
    (fragments : List Fragments) (t : FileTree) :
    OnlyIo (Job.reconcileKind format kind context fragments t).1 := by
  cases format with
  | json => exact onlyIo_ok _
  | csv =>
    have hall := reconcileAll_onlyIo kind (Masters.ofFragments fragments).jobs t
    simp only [Job.reconcileKind, reconcile]
    rcases hr : reconcileAll kind (Masters.ofFragments fragments).jobs t with ⟨result, t₁⟩
    rw [hr] at hall
    cases result with
    | ok _ => exact onlyIo_ok _
    | error f => exact onlyIo_error (hall f rfl)

/-- The schema that a job returns for a label whose rows are in one file. -/
def columnsFor (kind : OutputKind) (label : Label)
    (rows : List (Label × WrittenRow)) : LabelSchema :=
  ({ label } : LabelSchema).union (bookOf kind label rows).schema

/-- The text of that file once it is in line with the schema. -/
def textFor (kind : OutputKind) (label : Label) (rows : List (Label × WrittenRow)) : String :=
  (realigned? kind label (columnsFor kind label rows) (bookOf kind label rows).schema
    (bookOf kind label rows).text).getD (bookOf kind label rows).text

/-- The files that rows of a kind have to make: one for each label. -/
def Made (kind : OutputKind) (named : Nat) (rows : List (Label × WrittenRow)) (f : DataFile)
    (text : String) : Prop :=
  f.label ∈ labelsOf rows ∧ f = ⟨kind, f.label, numberOf named rows f.label⟩ ∧
    text = textFor kind f.label rows

/-- A phase has written the files of rows, and returned their schemas. -/
structure PhaseOf (dir : Path) (kind : OutputKind) (rows : List (Label × WrittenRow))
    (schemas : Collection) (d d' : Disk) : Prop where
  writes : Writes dir (Made kind d.filesNamed rows) d.tree d'.tree
  schema : ∀ label, schemas.get? label =
    if label ∈ labelsOf rows then some (columnsFor kind label rows) else none
  count : d'.filesNamed = d.filesNamed + (labelsOf rows).length
  closed : d'.budget.openCount = 0

section Alone

variable {dir : Path} {kind : OutputKind} {base : FileTree} {named : Nat}
  {rows : List (Label × WrittenRow)} {d : Disk} {schemas : Collection} {t' : FileTree}

theorem filed_eq_some {label : Label} {s : Sheet} :
    filed kind named rows kind label = some s ↔
      label ∈ labelsOf rows ∧ s = ⟨numberOf named rows label, bookOf kind label rows⟩ := by
  unfold filed
  split
  · rename_i h
    simp [h.2, eq_comm]
  · rename_i h
    simp only [true_and] at h
    simp [h]

theorem Reconciled.made (h : Reconciled dir (alone (filed kind named rows)) kind schemas d.tree t')
    (hs : Shelved dir [kind] base (alone (filed kind named rows)) d) :
    Writes dir (Made kind named rows) base t' ∧ ∀ label, schemas.get? label =
      if label ∈ labelsOf rows then some (columnsFor kind label rows) else none := by
  have hsheet : ∀ {label}, label ∈ labelsOf rows → alone (filed kind named rows) 0 kind label =
      some ⟨numberOf named rows label, bookOf kind label rows⟩ :=
    fun hlabel => alone_eq_some.2 ⟨rfl, filed_eq_some.2 ⟨hlabel, rfl⟩⟩
  have hschema : ∀ label, schemas.get? label =
      if label ∈ labelsOf rows then some (columnsFor kind label rows) else none := by
    intro label
    split
    · rename_i hlabel
      exact h.single (hsheet hlabel) fun j s' hs' => (alone_eq_some.1 hs').1
    · rename_i hlabel
      cases hget : schemas.get? label with
      | none => rfl
      | some columns =>
        obtain ⟨⟨i, s, hused⟩, -⟩ := h.used hget
        exact absurd (filed_eq_some.1 (alone_eq_some.1 hused).2).1 hlabel
  have hiff : ∀ f text, Made kind named rows f text ↔
      OnShelf (alone (filed kind named rows)) kind schemas f text := by
    intro f text
    constructor
    · rintro ⟨hlabel, hf, rfl⟩
      refine ⟨by rw [hf], 0, _, columnsFor kind f.label rows, hsheet hlabel, ?_, ?_, rfl⟩
      · rw [hf]
      · rw [hschema, if_pos hlabel]
    · rintro ⟨hkind, i, s, columns, hs', hnumber, hcolumns, rfl⟩
      obtain ⟨hlabel, rfl⟩ := filed_eq_some.1 (alone_eq_some.1 hs').2
      rw [hschema, if_pos hlabel] at hcolumns
      obtain rfl := Option.some.inj hcolumns
      refine ⟨hlabel, ?_, rfl⟩
      obtain ⟨k, label, number⟩ := f
      simp only at hkind hnumber ⊢
      rw [hkind, hnumber]
  have hphase := (hs.phase h).writes
  rw [← show Made kind named rows = OnShelf (alone (filed kind named rows)) kind schemas from
    funext fun f => funext fun text => propext (hiff f text)] at hphase
  exact ⟨hphase, hschema⟩

end Alone

end GraphExport
