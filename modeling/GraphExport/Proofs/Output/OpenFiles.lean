import GraphExport.Proofs.Output.Request

/-!
# GraphExport.Proofs.Output.OpenFiles

How many files a pool has open, and how many handles are in use.

* `Pool.openCount_setWriter`: what filing a writer does to the number of open ones.
* `Pool.Requested.openCount`: the handles in use grow by as much as the open writers of the pool,
  also where a file cannot be made or opened again.
* `Pool.Balanced`: all handles in use are those of one pool. Such a pool never has to wait.
-/

namespace GraphExport

namespace HandleBudget

/-- No more handles are in use than are allowed. -/
def Within (b : HandleBudget) : Prop := b.max = 0 ∨ b.openCount ≤ b.max

theorem acquire?_eq_some {b b' : HandleBudget} (h : b.acquire? = some b') :
    b'.openCount = b.openCount + 1 ∧ b'.max = b.max ∧
      b'.highWater = Max.max b.highWater (b.openCount + 1) ∧ b'.Within := by
  unfold acquire? at h
  split at h
  · cases h
  · rename_i hfree
    simp only [isUnlimited, Bool.and_eq_true, Bool.not_eq_true', decide_eq_false_iff_not,
      decide_eq_true_eq, not_and] at hfree
    cases h
    refine ⟨rfl, rfl, rfl, ?_⟩
    show b.max = 0 ∨ b.openCount + 1 ≤ b.max
    omega

theorem acquire?_eq_none {b : HandleBudget} (h : b.acquire? = none) :
    0 < b.max ∧ b.max ≤ b.openCount := by
  unfold acquire? at h
  split at h
  · rename_i hfull
    simp only [isUnlimited, Bool.and_eq_true, Bool.not_eq_true', decide_eq_false_iff_not,
      decide_eq_true_eq] at hfull
    omega
  · cases h

theorem Within.release {b : HandleBudget} (h : b.Within) : b.release.Within := by
  show b.max = 0 ∨ b.openCount - 1 ≤ b.max
  have := h
  unfold Within at this
  omega

end HandleBudget

namespace Pool

/-! ## Open writers -/

theorem openCount_eq (p : Pool) :
    p.openCount = p.writers.nodes.values.countP (·.isOpen) +
      p.writers.edges.values.countP (·.isOpen) + p.writers.results.values.countP (·.isOpen) := by
  rw [openCount, openWriters, ← List.countP_eq_length_filter, all, List.countP_append,
    List.countP_append]

/-- One for a writer that is open. -/
def openOne (w? : Option LabelWriter) : Nat := if w?.any (·.isOpen) then 1 else 0

theorem openOne_of_isOpen {w : LabelWriter} (h : w.isOpen = true) : openOne (some w) = 1 := by
  simp [openOne, h]

theorem openOne_of_closed {w : LabelWriter} (h : w.isOpen = false) : openOne (some w) = 0 := by
  simp [openOne, h]

theorem countP_insert (m : SortedMap Label LabelWriter) (w : LabelWriter) :
    (m.insert w.label w).values.countP (·.isOpen) + openOne (m.get? w.label) =
      m.values.countP (·.isOpen) + openOne (some w) := by
  rw [(SortedMap.values_insert_perm m w.label w).countP_eq, List.countP_cons]
  cases hget : m.get? w.label with
  | none =>
    rw [SortedMap.erase_of_none hget]
    simp [openOne]
  | some old =>
    rw [(SortedMap.values_perm_of_get? hget).countP_eq, List.countP_cons]
    simp only [openOne, Option.any_some]
    omega

/-- The writer that was filed there before is open no more; the new one may be. -/
theorem openCount_setWriter (p : Pool) (w : LabelWriter) :
    (p.setWriter w).openCount + openOne (p.writer? w.kind w.label) =
      p.openCount + openOne (some w) := by
  rw [openCount_eq, openCount_eq]
  cases hkind : w.kind with
  | nodes =>
    have := countP_insert p.writers.nodes w
    simp only [setWriter, writer?, PerKind.modify, hkind, PerKind.set, PerKind.get]
    omega
  | edges =>
    have := countP_insert p.writers.edges w
    simp only [setWriter, writer?, PerKind.modify, hkind, PerKind.set, PerKind.get]
    omega
  | results =>
    have := countP_insert p.writers.results w
    simp only [setWriter, writer?, PerKind.modify, hkind, PerKind.set, PerKind.get]
    omega

theorem openCount_setWriter_open (p : Pool) {w : LabelWriter} (h : w.isOpen = true) (clock : Nat) :
    (p.setWriter { w with lastUsed := clock }).openCount + openOne (p.writer? w.kind w.label) =
      p.openCount + 1 := by
  have := openCount_setWriter p { w with lastUsed := clock }
  rwa [openOne_of_isOpen (w := { w with lastUsed := clock }) h] at this

theorem openCount_release (writers : List LabelWriter) (b : HandleBudget) :
    (writers.foldl (fun b _ => b.release) b).openCount = b.openCount - writers.length := by
  induction writers generalizing b with
  | nil => rfl
  | cons w rest ih =>
    rw [List.foldl_cons, ih, HandleBudget.release, List.length_cons]
    simp only
    omega

/-! ## Requests -/

section

variable {p p' : Pool} {kind : OutputKind} {label : Label} {w : LabelWriter} {d d' : Disk}
  {result : Except Failure LabelWriter}

theorem one_le_openCount (hw : p.writer? kind label = some w) (hopen : w.isOpen = true) :
    1 ≤ p.openCount := by
  have hmem : w ∈ p.openWriters := mem_openWriters.2 ⟨mem_all.2 ⟨kind, label, hw⟩, hopen⟩
  exact List.length_pos_of_mem hmem

/-- The handle that is taken is not yet one of the pool's. -/
theorem Taken.openCount (htaken : p.Taken d p' d') (h : p.Keyed)
    (hle : p.openCount ≤ d.budget.openCount) :
    d'.budget.openCount + p.openCount = d.budget.openCount + p'.openCount + 1 ∧
      d'.budget.max = d.budget.max ∧ d'.budget.Within := by
  cases htaken with
  | free hb =>
    obtain ⟨hopen, hmax, -, hwithin⟩ := HandleBudget.acquire?_eq_some hb
    refine ⟨?_, hmax, hwithin⟩
    simp only [hopen]
    omega
  | @evicted victim b _ hvictim hb =>
    obtain ⟨hopen, hmax, -, hwithin⟩ := HandleBudget.acquire?_eq_some hb
    obtain ⟨hwriter, hisOpen⟩ := h.of_leastRecent? hvictim
    have hone := one_le_openCount hwriter hisOpen
    have hset := openCount_setWriter p victim.suspend
    rw [show p.writer? victim.suspend.kind victim.suspend.label = some victim from hwriter,
      openOne_of_isOpen hisOpen, openOne_of_closed (w := victim.suspend) rfl] at hset
    have hrelease : d.budget.release.openCount = d.budget.openCount - 1 := rfl
    refine ⟨?_, hmax, hwithin⟩
    show b.openCount + p.openCount = d.budget.openCount + (p.setWriter victim.suspend).openCount + 1
    omega

/-- The handles in use grow by as much as the open writers of the pool. -/
theorem Requested.openCount (hreq : p.Requested kind label d result p' d') (h : p.Keyed)
    (hbusy : result ≠ .error Cause.handlesBusy) (hle : p.openCount ≤ d.budget.openCount)
    (hwithin : d.budget.Within) :
    d'.budget.openCount + p.openCount = d.budget.openCount + p'.openCount ∧
      d'.budget.max = d.budget.max ∧ d'.budget.Within := by
  have htick : p.tick.Keyed := h
  cases hreq with
  | @ready w hw hopen =>
    obtain ⟨rfl, rfl⟩ := h hw
    have hset := openCount_setWriter_open p.tick hopen p.tick.clock
    rw [writer?_tick, hw, openOne_of_isOpen hopen] at hset
    have hsame : p.tick.openCount = p.openCount := rfl
    exact ⟨by omega, rfl, hwithin⟩
  | barred => exact ⟨rfl, rfl, hwithin⟩
  | busy => exact absurd rfl hbusy
  | @refused p₁ d₁ d₂ f hneeds htaken hfetch =>
    obtain ⟨hcount, hmax, hwithin₁⟩ := htaken.openCount htick hle
    rw [budget_of_fetch hfetch]
    have hrelease : d₁.budget.release.openCount = d₁.budget.openCount - 1 := rfl
    have hsame : p.tick.openCount = p.openCount := rfl
    refine ⟨?_, hmax, hwithin₁.release⟩
    show d₁.budget.release.openCount + _ = _
    omega
  | @served p₁ d₁ _ w hneeds htaken hfetch =>
    obtain ⟨hcount, hmax, hwithin₁⟩ := htaken.openCount htick hle
    rw [budget_of_fetch hfetch]
    obtain ⟨hopen, rfl, rfl⟩ := h.fetch hfetch
    -- Whatever was filed there before was not open.
    have hclosed : openOne (p₁.writer? w.kind w.label) = 0 := by
      rw [htaken.writer?_of_closed htick hneeds.1, writer?_tick]
      cases hw : p.writer? w.kind w.label with
      | none => rfl
      | some v => exact openOne_of_closed (hneeds.1 v hw)
    have hset := openCount_setWriter_open p₁ hopen p₁.clock
    have hsame : p.tick.openCount = p.openCount := rfl
    exact ⟨by omega, hmax, hwithin₁⟩

/-! ## Acts -/

/-- A row leaves its writer open. -/
theorem openCount_setWriter_row (hw : p.writer? w.kind w.label = some w) (hopen : w.isOpen = true)
    (schema : LabelSchema) : (p.setWriter (w.row schema)).openCount = p.openCount := by
  have hset := openCount_setWriter p (w.row schema)
  rw [show p.writer? (w.row schema).kind (w.row schema).label = some w from hw,
    openOne_of_isOpen hopen, openOne_of_isOpen (w := w.row schema) hopen] at hset
  omega

theorem Written.openCount {i : Item} {done : Except Failure Unit}
    (hwritten : Written i.writeTo w p d done p' d')
    (hw : p.writer? w.kind w.label = some w) (hopen : w.isOpen = true) :
    p'.openCount = p.openCount ∧ d'.budget = d.budget := by
  cases hwritten with
  | failed => exact ⟨rfl, rfl⟩
  | done hwrite =>
    obtain ⟨schema, -, rfl⟩ := Item.writeTo_ok hopen hwrite
    exact ⟨openCount_setWriter_row hw hopen schema, rfl⟩

/-- Whatever a pool does, the handles in use grow by as much as its open writers. -/
theorem act_openCount {a : PoolAct} {done : Except Failure Unit}
    (hact : p.act a d = (done, p', d')) (h : p.Keyed)
    (hbusy : done ≠ .error Cause.handlesBusy) (hle : p.openCount ≤ d.budget.openCount)
    (hwithin : d.budget.Within) :
    d'.budget.openCount + p.openCount = d.budget.openCount + p'.openCount ∧
      d'.budget.max = d.budget.max ∧ d'.budget.Within := by
  cases a with
  | seed kind schemas =>
    cases hact
    exact ⟨rfl, rfl, hwithin⟩
  | get kind label =>
    rcases hget : p.get kind label d with ⟨got, p₁, d₁⟩
    simp only [act, hget, Prod.mk.injEq] at hact
    obtain ⟨rfl, rfl, rfl⟩ := hact
    refine (requested hget).openCount h (fun heq => hbusy ?_) hle hwithin
    rw [heq]
    rfl
  | write kind label i =>
    rw [act_write] at hact
    rcases writeWith_cases hact with ⟨f, hget, rfl⟩ | ⟨w, p₁, d₁, hget, hwritten⟩
    · exact (requested hget).openCount h (fun heq => hbusy (by cases heq; rfl)) hle hwithin
    · obtain ⟨hcount, hmax, hwithin₁⟩ :=
        (requested hget).openCount h (by simp) hle hwithin
      obtain ⟨hw, hopen, rfl, rfl⟩ := (requested hget).writer? h
      obtain ⟨hsame, hbudget⟩ := hwritten.openCount hw hopen
      rw [hsame, hbudget]
      exact ⟨hcount, hmax, hwithin₁⟩

/-! ## A pool by itself -/

/-- The handles in use are those of the pool, and they are no more than allowed. -/
structure Balanced (p : Pool) (d : Disk) : Prop where
  count : d.budget.openCount = p.openCount
  bound : d.budget.max = 0 ∨ d.budget.openCount ≤ d.budget.max

theorem leastRecent?_eq_none (h : p.leastRecent? = none) : p.openCount = 0 := by
  unfold leastRecent? at h
  split at h
  · rename_i hnil
    rw [openCount, hnil]
    rfl
  · cases h

/-- Where no handle is free, the pool has one to give up, and that is enough. -/
theorem Balanced.not_waits (h : p.Balanced d) : ¬ p.Waits d p' d' := by
  have hcount := h.count
  have hbound := h.bound
  intro hwaits
  cases hwaits with
  | noWriter hfull hnone =>
    have := HandleBudget.acquire?_eq_none hfull
    have := leastRecent?_eq_none hnone
    omega
  | stillFull hfull hvictim hstill =>
    have := HandleBudget.acquire?_eq_none hfull
    have hrelease : d.budget.release.openCount = d.budget.openCount - 1 := rfl
    have hmax : d.budget.release.max = d.budget.max := rfl
    have := HandleBudget.acquire?_eq_none hstill
    omega

theorem Balanced.requested (h : p.Balanced d) (hkeyed : p.Keyed)
    (hreq : p.Requested kind label d result p' d') :
    result ≠ .error Cause.handlesBusy ∧ p'.Balanced d' := by
  have hbusy : result ≠ .error Cause.handlesBusy := by
    intro heq
    cases hreq with
    | ready => cases heq
    | barred => cases heq
    | busy _ hwaits => exact Balanced.not_waits (p := p.tick) ⟨h.count, h.bound⟩ hwaits
    | refused _ _ hfetch =>
      cases heq
      cases fetch_error hfetch
    | served => cases heq
  obtain ⟨hcount, hmax, hwithin⟩ :=
    hreq.openCount hkeyed hbusy (Nat.le_of_eq h.count.symm) h.bound
  have := h.count
  exact ⟨hbusy, by omega, hwithin⟩

/-- A pool that is closed gives all handles back. -/
theorem Balanced.close (h : p.Balanced d) :
    (p.close d).2.2.budget.openCount = 0 := by
  simp only [Pool.close]
  rw [openCount_release, h.count]
  exact Nat.sub_self _

end

end Pool

end GraphExport
