import GraphExport.Output.Pool
import GraphExport.Proofs.Files

/-!
# GraphExport.Proofs.Output.Request

All the ways that a request for a writer and a write can go, for pools of either format.

* `Pool.Taken`, `Pool.Waits`: a handle is free, or is taken from the writer that was not used for
  the longest time, or has to be waited for. `Pool.acquire_cases` says that there is no other way.
* `Pool.Requested`: the writer is open, or may not be there, or needs a handle for its file to be
  opened or made. `Pool.requested` says so of every request.
* `Pool.Written`, `Pool.writeWith_cases`: the same for a write.
* `Pool.Keyed`: every writer is filed under its own kind and label, whatever the pool does.
-/

namespace GraphExport

/-! ## What is written -/

/-- What a pool is given to write. -/
inductive Item where
  | element (e : Element)
  | columns (columns : PropertyMap)

namespace Item

def writeTo (w : LabelWriter) : Item → Except Failure (LabelWriter × String)
  | element e => w.writeElement e
  | columns m => w.writeColumns m

/-- The schema of a file after the item is written, and the item's line. -/
def entry (format : Format) (kind : OutputKind) (label : Label) (schema : LabelSchema) :
    Item → Except Failure (LabelSchema × String)
  | element e => do
    let _ ← e.id
    if kind = .edges then
      let _ ← e.source
      let _ ← e.target
    let properties ← e.properties
    let schema := schema.update properties false
    let line ← elementLine format kind label schema e
    .ok (schema, line)
  | columns m => .ok (schema.update m true, columnsLine format (schema.update m true) m)

/-- What an open writer writes depends on its file alone. -/
theorem writeTo_of_isOpen {w : LabelWriter} (h : w.isOpen = true) (i : Item) :
    i.writeTo w =
      (i.entry w.format w.kind w.label w.schema).map fun e => (w.row e.1, e.2) := by
  have hmap : ∀ {α β γ : Type} (x : Except Failure α) (f : α → Except Failure β) (g : β → γ),
      (x >>= f).map g = x >>= fun a => (f a).map g := by
    intro α β γ x f g
    cases x <;> rfl
  cases i with
  | columns m =>
    simp only [writeTo, LabelWriter.writeColumns, if_pos h, entry]
    rfl
  | element e =>
    simp only [writeTo, LabelWriter.writeElement, if_pos h, entry, hmap]
    split <;> simp only [hmap] <;> rfl

/-- An element that is written adds its properties and its line. -/
theorem entry_element_ok {format : Format} {kind : OutputKind} {label : Label} {s s' : LabelSchema}
    {e : Element} {line : String} (h : (element e).entry format kind label s = .ok (s', line)) :
    (∃ properties, e.properties = .ok properties ∧ s' = s.update properties false) ∧
      elementLine format kind label s' e = .ok line := by
  have hrest : (do
      let properties ← e.properties
      let line ← elementLine format kind label (s.update properties false) e
      .ok (s.update properties false, line)) = .ok (s', line) →
      (∃ properties, e.properties = .ok properties ∧ s' = s.update properties false) ∧
        elementLine format kind label s' e = .ok line := by
    intro hx
    obtain ⟨properties, hproperties, hx⟩ := bind_eq_ok hx
    obtain ⟨line', hline, hx⟩ := bind_eq_ok hx
    cases hx
    exact ⟨⟨properties, hproperties, rfl⟩, hline⟩
  obtain ⟨id, -, h⟩ := bind_eq_ok h
  split at h
  · obtain ⟨source, -, h⟩ := bind_eq_ok h
    obtain ⟨target, -, h⟩ := bind_eq_ok h
    exact hrest h
  · exact hrest h

/-- An item that is written counts for one. -/
theorem entry_ok {format : Format} {kind : OutputKind} {label : Label} {s s' : LabelSchema}
    {i : Item} {line : String} (h : i.entry format kind label s = .ok (s', line)) :
    s'.label = s.label ∧ s'.count = s.count + 1 := by
  cases i with
  | columns m =>
    cases h
    exact ⟨rfl, rfl⟩
  | element e =>
    obtain ⟨⟨properties, -, rfl⟩, -⟩ := entry_element_ok h
    exact ⟨rfl, rfl⟩

theorem writeTo_ok {w w' : LabelWriter} {i : Item} {line : String} (h : w.isOpen = true)
    (hwrite : i.writeTo w = .ok (w', line)) :
    ∃ schema, i.entry w.format w.kind w.label w.schema = .ok (schema, line) ∧
      w' = w.row schema := by
  rw [writeTo_of_isOpen h] at hwrite
  obtain ⟨⟨schema, _⟩, hentry, heq⟩ := map_eq_ok hwrite
  cases heq
  exact ⟨schema, hentry, rfl⟩

end Item

/-- What a worker may do with its pool. -/
inductive PoolAct where
  | seed (kind : OutputKind) (schemas : Collection)
  | get (kind : OutputKind) (label : Label)
  | write (kind : OutputKind) (label : Label) (item : Item)

namespace Pool

def act : PoolAct → Pool → Disk → Except Failure Unit × Pool × Disk
  | .seed kind schemas, p, d => (.ok (), p.seedWith kind schemas, d)
  | .get kind label, p, d =>
    let (result, p, d) := p.get kind label d
    (result.map fun _ => (), p, d)
  | .write kind label (.element e), p, d => p.writeElement kind label e d
  | .write kind label (.columns m), p, d => p.writeColumns kind label m d

theorem act_write (kind : OutputKind) (label : Label) (i : Item) (p : Pool) (d : Disk) :
    p.act (.write kind label i) d = p.writeWith i.writeTo kind label d := by
  cases i <;> rfl

/-! ## Writers -/

theorem writer?_setWriter (p : Pool) (w : LabelWriter) (kind : OutputKind) (label : Label) :
    (p.setWriter w).writer? kind label =
      if kind = w.kind ∧ label = w.label then some w else p.writer? kind label := by
  unfold writer? setWriter PerKind.modify
  by_cases hkind : kind = w.kind
  · subst hkind
    simp only [PerKind.get_set_self, true_and]
    exact SortedMap.get?_insert _ _ _ _
  · rw [PerKind.get_set_of_ne _ _ hkind, if_neg fun h => hkind h.1]

theorem mem_all {p : Pool} {w : LabelWriter} :
    w ∈ p.all ↔ ∃ kind label, p.writer? kind label = some w := by
  simp only [all, List.mem_append, SortedMap.mem_values]
  constructor
  · rintro ((⟨label, h⟩ | ⟨label, h⟩) | ⟨label, h⟩)
    · exact ⟨.nodes, label, h⟩
    · exact ⟨.edges, label, h⟩
    · exact ⟨.results, label, h⟩
  · rintro ⟨kind, label, h⟩
    cases kind with
    | nodes => exact .inl (.inl ⟨label, h⟩)
    | edges => exact .inl (.inr ⟨label, h⟩)
    | results => exact .inr ⟨label, h⟩

theorem mem_openWriters {p : Pool} {w : LabelWriter} :
    w ∈ p.openWriters ↔ w ∈ p.all ∧ w.isOpen = true := by
  rw [openWriters, List.mem_filter]

theorem foldl_older_mem (w : LabelWriter) (rest : List LabelWriter) :
    rest.foldl older w = w ∨ rest.foldl older w ∈ rest := by
  induction rest generalizing w with
  | nil => exact .inl rfl
  | cons v rest ih =>
    rw [List.foldl_cons]
    rcases ih (older w v) with h | h
    · rw [h, older]
      split
      · exact .inr List.mem_cons_self
      · exact .inl rfl
    · exact .inr (List.mem_cons_of_mem _ h)

/-- It is the oldest of the open writers. -/
theorem leastRecent?_eq_some {p : Pool} {w : LabelWriter} (h : p.leastRecent? = some w) :
    ∃ first rest, p.openWriters = first :: rest ∧ w = rest.foldl older first := by
  unfold leastRecent? at h
  split at h
  · cases h
  · rename_i first rest hopen
    exact ⟨first, rest, hopen, (Option.some.inj h).symm⟩

theorem leastRecent?_mem {p : Pool} {w : LabelWriter} (h : p.leastRecent? = some w) :
    w ∈ p.openWriters := by
  obtain ⟨first, rest, hopen, rfl⟩ := leastRecent?_eq_some h
  rw [hopen]
  rcases foldl_older_mem first rest with h | h
  · rw [h]
    exact List.mem_cons_self
  · exact List.mem_cons_of_mem _ h

end Pool

namespace LabelWriter

theorem reopen_ok {w w' : LabelWriter} {d : Disk} (h : w.reopen d = .ok w') :
    w' = { w with isOpen := true } := by
  unfold reopen at h
  split at h
  · rename_i hopen
    cases h
    rw [← hopen]
  · split at h
    · exact (Except.ok.inj h).symm
    · cases h

theorem create_ok_fields {dir : Path} {format : Format} {kind : OutputKind} {label : Label}
    {seed : Option LabelSchema} {d d' : Disk} {w : LabelWriter}
    (h : create dir format kind label seed d = (.ok w, d')) :
    w.isOpen = true ∧ w.kind = kind ∧ w.label = label := by
  unfold create at h
  simp only at h
  split at h
  · cases h
  · split at h
    · cases h
    · cases h
      exact ⟨rfl, rfl, rfl⟩

theorem reopen_error {w : LabelWriter} {d : Disk} {f : Failure} (h : w.reopen d = .error f) :
    f.cause = .io := by
  unfold reopen at h
  split at h
  · cases h
  · split at h
    · cases h
    · cases h
      rfl

theorem create_error {dir : Path} {format : Format} {kind : OutputKind} {label : Label}
    {seed : Option LabelSchema} {d d' : Disk} {f : Failure}
    (h : create dir format kind label seed d = (.error f, d')) : f.cause = .io := by
  unfold create at h
  simp only at h
  split at h
  · cases h
    rfl
  · split at h
    · cases h
      rfl
    · cases h

/-- A file that could not be made leaves at most directories behind. -/
theorem create_error_files {dir : Path} {format : Format} {kind : OutputKind} {label : Label}
    {seed : Option LabelSchema} {d d' : Disk} {f : Failure}
    (h : create dir format kind label seed d = (.error f, d')) :
    (∀ q content, d'.tree.get? q = some (.file content) ↔ d.tree.get? q = some (.file content)) ∧
      d.filesNamed ≤ d'.filesNamed := by
  unfold create at h
  simp only at h
  split at h
  · cases h
    exact ⟨fun q content => Iff.rfl, Nat.le_refl _⟩
  · rename_i t ht
    split at h
    · cases h
      exact ⟨fun q content => FileTree.file_makeDirectories ht, Nat.le_succ _⟩
    · cases h

/-- Making a file leaves the handles to the pool, and does not depend on them. -/
theorem create_withBudget (dir : Path) (format : Format) (kind : OutputKind) (label : Label)
    (seed : Option LabelSchema) (d : Disk) (b : HandleBudget) :
    create dir format kind label seed { d with budget := b } =
      ((create dir format kind label seed d).1,
        { (create dir format kind label seed d).2 with budget := b }) := by
  unfold create
  simp only
  split
  · rfl
  · split
    · rfl
    · cases format <;> rfl

end LabelWriter

namespace Pool

/-! ## Requests -/

/-- The pool as it takes a request. -/
def tick (p : Pool) : Pool := { p with clock := p.clock + 1 }

@[simp] theorem writer?_tick (p : Pool) (kind : OutputKind) (label : Label) :
    p.tick.writer? kind label = p.writer? kind label := rfl

/-- A writer gives up its handle to another. -/
def evict (p : Pool) (victim : LabelWriter) : Pool :=
  { p.setWriter victim.suspend with evictions := p.evictions + 1 }

/-- The ways to take a handle: one is free, or the writer that was not used for the longest time
gives up its own. -/
inductive Taken (p : Pool) (d : Disk) : Pool → Disk → Prop where
  | free {b : HandleBudget} (hb : d.budget.acquire? = some b) : Taken p d p { d with budget := b }
  | evicted {victim : LabelWriter} {b : HandleBudget} (hfull : d.budget.acquire? = none)
      (hvictim : p.leastRecent? = some victim) (hb : d.budget.release.acquire? = some b) :
      Taken p d (p.evict victim) { d with budget := b }

/-- No handle is free, and the pool has none to give up, or giving it up was of no use. -/
inductive Waits (p : Pool) (d : Disk) : Pool → Disk → Prop where
  | noWriter (hfull : d.budget.acquire? = none) (hnone : p.leastRecent? = none) : Waits p d p d
  | stillFull {victim : LabelWriter} (hfull : d.budget.acquire? = none)
      (hvictim : p.leastRecent? = some victim) (hstill : d.budget.release.acquire? = none) :
      Waits p d (p.evict victim) { d with budget := d.budget.release }

theorem acquire_cases {p p' : Pool} {d d' : Disk} {result : Except Failure Unit}
    (h : p.acquire d = (result, p', d')) :
    (result = .ok () ∧ p.Taken d p' d') ∨
      (result = .error Cause.handlesBusy ∧ p.Waits d p' d') := by
  unfold acquire at h
  split at h
  · rename_i b hb
    cases h
    exact .inl ⟨rfl, .free hb⟩
  · rename_i hfull
    split at h
    · rename_i hvictim
      cases h
      exact .inr ⟨rfl, .noWriter hfull hvictim⟩
    · rename_i victim hvictim
      simp only at h
      split at h
      · rename_i b hb
        cases h
        exact .inl ⟨rfl, .evicted hfull hvictim hb⟩
      · rename_i hstill
        cases h
        exact .inr ⟨rfl, .stillFull hfull hvictim hstill⟩

/-- The writer of a request once there is a handle for it: opened again, or made. -/
def fetch (p : Pool) (kind : OutputKind) (label : Label) (d : Disk) :
    Except Failure LabelWriter × Disk :=
  match p.writer? kind label with
  | some w => (w.reopen d, d)
  | none => LabelWriter.create p.dir p.format kind label ((p.seeds.get kind).get? label) d

/-- The writer has no handle, or is not there and may be made. -/
def NeedsHandle (p : Pool) (kind : OutputKind) (label : Label) : Prop :=
  (∀ w, p.writer? kind label = some w → w.isOpen = false) ∧
    (p.writer? kind label = none → kind ∈ p.kinds)

/-- All the ways that a request can go. -/
inductive Requested (p : Pool) (kind : OutputKind) (label : Label) (d : Disk) :
    Except Failure LabelWriter → Pool → Disk → Prop where
  | ready {w : LabelWriter} (hw : p.writer? kind label = some w) (hopen : w.isOpen = true) :
      Requested p kind label d (.ok { w with lastUsed := p.tick.clock })
        (p.tick.setWriter { w with lastUsed := p.tick.clock }) d
  | barred (hnone : p.writer? kind label = none) (hkind : kind ∉ p.kinds) :
      Requested p kind label d (.error (Cause.noWriters kind.name)) p.tick d
  | busy {p₁ : Pool} {d₁ : Disk} (hneeds : p.NeedsHandle kind label)
      (hwaits : p.tick.Waits d p₁ d₁) : Requested p kind label d (.error Cause.handlesBusy) p₁ d₁
  | refused {p₁ : Pool} {d₁ d₂ : Disk} {f : Failure} (hneeds : p.NeedsHandle kind label)
      (htaken : p.tick.Taken d p₁ d₁) (hfetch : p.fetch kind label d₁ = (.error f, d₂)) :
      Requested p kind label d (.error f) p₁ { d₂ with budget := d₂.budget.release }
  | served {p₁ : Pool} {d₁ d₂ : Disk} {w : LabelWriter} (hneeds : p.NeedsHandle kind label)
      (htaken : p.tick.Taken d p₁ d₁) (hfetch : p.fetch kind label d₁ = (.ok w, d₂)) :
      Requested p kind label d (.ok { w with lastUsed := p₁.clock })
        (p₁.setWriter { w with lastUsed := p₁.clock }) d₂

/-- Nothing but the writers and the number of evictions changes. -/
theorem Taken.settings {p p' : Pool} {d d' : Disk} (h : p.Taken d p' d') :
    p'.dir = p.dir ∧ p'.format = p.format ∧ p'.kinds = p.kinds ∧ p'.seeds = p.seeds ∧
      p'.clock = p.clock := by
  cases h <;> exact ⟨rfl, rfl, rfl, rfl, rfl⟩

theorem Taken.files {p p' : Pool} {d d' : Disk} (h : p.Taken d p' d') :
    d'.tree = d.tree ∧ d'.filesNamed = d.filesNamed := by
  cases h <;> exact ⟨rfl, rfl⟩

theorem requested {p p' : Pool} {kind : OutputKind} {label : Label} {d d' : Disk}
    {result : Except Failure LabelWriter} (h : p.get kind label d = (result, p', d')) :
    p.Requested kind label d result p' d' := by
  -- With a handle, it is all the same whether the writer has to be opened again or to be made.
  have hserve : ∀ {p₁ d₁}, p.NeedsHandle kind label → p.tick.Taken d p₁ d₁ →
      (∀ w d₂, p.fetch kind label d₁ = (.ok w, d₂) → p₁.use w d₂ = (result, p', d')) →
      (∀ f d₂, p.fetch kind label d₁ = (.error f, d₂) → refuse f p₁ d₂ = (result, p', d')) →
      p.Requested kind label d result p' d' := by
    intro p₁ d₁ hneeds htaken huse hrefuse
    rcases hfetch : p.fetch kind label d₁ with ⟨f | w, d₂⟩
    · cases hrefuse f d₂ hfetch
      exact .refused hneeds htaken hfetch
    · cases huse w d₂ hfetch
      exact .served hneeds htaken hfetch
  unfold get at h
  simp only at h
  rcases hacquire : p.tick.acquire d with ⟨acquired, p₁, d₁⟩
  rw [show Pool.acquire { p with clock := p.clock + 1 } d = (acquired, p₁, d₁) from hacquire] at h
  cases hw : p.writer? kind label with
  | some w =>
    rw [show Pool.writer? { p with clock := p.clock + 1 } kind label = some w from hw] at h
    simp only at h
    by_cases hopen : w.isOpen = true
    · rw [if_pos hopen] at h
      cases h
      exact .ready hw hopen
    · have hneeds : p.NeedsHandle kind label := ⟨by simp [hw, hopen], by simp [hw]⟩
      rw [if_neg hopen] at h
      rcases acquire_cases hacquire with ⟨rfl, htaken⟩ | ⟨rfl, hwaits⟩
      · refine hserve hneeds htaken (fun v d₂ hfetch => ?_) (fun f d₂ hfetch => ?_)
        · simp only [fetch, hw, Prod.mk.injEq] at hfetch
          obtain ⟨hreopen, rfl⟩ := hfetch
          simpa only [hreopen] using h
        · simp only [fetch, hw, Prod.mk.injEq] at hfetch
          obtain ⟨hreopen, rfl⟩ := hfetch
          simpa only [hreopen] using h
      · cases h
        exact .busy hneeds hwaits
  | none =>
    rw [show Pool.writer? { p with clock := p.clock + 1 } kind label = none from hw] at h
    simp only at h
    by_cases hkind : kind ∈ p.kinds
    · have hneeds : p.NeedsHandle kind label := ⟨by simp [hw], fun _ => hkind⟩
      rw [if_pos (by simpa using hkind)] at h
      rcases acquire_cases hacquire with ⟨rfl, htaken⟩ | ⟨rfl, hwaits⟩
      · obtain ⟨(hdir : p₁.dir = p.dir), (hformat : p₁.format = p.format), -,
          (hseeds : p₁.seeds = p.seeds), -⟩ := htaken.settings
        simp only [hdir, hformat, hseeds] at h
        refine hserve hneeds htaken (fun v d₂ hfetch => ?_) (fun f d₂ hfetch => ?_)
        · simp only [fetch, hw] at hfetch
          simpa only [hfetch] using h
        · simp only [fetch, hw] at hfetch
          simpa only [hfetch] using h
      · cases h
        exact .busy hneeds hwaits
    · rw [if_neg (by simpa using hkind)] at h
      cases h
      exact .barred hw hkind

/-! ## Writers and their keys -/

/-- Every writer is filed under its own kind and label. -/
def Keyed (p : Pool) : Prop :=
  ∀ ⦃kind label w⦄, p.writer? kind label = some w → w.kind = kind ∧ w.label = label

section

variable {p p' : Pool} {kind : OutputKind} {label : Label} {w : LabelWriter} {d d' : Disk}
  {result : Except Failure LabelWriter}

theorem keyed_new (dir : Path) (format : Format) (kinds : List OutputKind) :
    Keyed { dir, format, kinds } := by
  intro kind label w hw
  cases kind <;> cases hw

theorem Keyed.setWriter (h : p.Keyed) (w : LabelWriter) : (p.setWriter w).Keyed := by
  intro kind label v hv
  rw [writer?_setWriter] at hv
  split at hv
  · rename_i hkey
    cases hv
    exact ⟨hkey.1.symm, hkey.2.symm⟩
  · exact h hv

theorem Keyed.of_leastRecent? (h : p.Keyed) (hw : p.leastRecent? = some w) :
    p.writer? w.kind w.label = some w ∧ w.isOpen = true := by
  obtain ⟨hmem, hopen⟩ := mem_openWriters.1 (leastRecent?_mem hw)
  obtain ⟨kind, label, hwriter⟩ := mem_all.1 hmem
  obtain ⟨rfl, rfl⟩ := h hwriter
  exact ⟨hwriter, hopen⟩

theorem Keyed.taken (h : p.Keyed) (htaken : p.Taken d p' d') : p'.Keyed := by
  cases htaken with
  | free => exact h
  | evicted => exact h.setWriter _

/-- A writer that gives up its handle was open. -/
theorem Taken.writer?_of_closed (htaken : p.Taken d p' d') (h : p.Keyed)
    (hclosed : ∀ w, p.writer? kind label = some w → w.isOpen = false) :
    p'.writer? kind label = p.writer? kind label := by
  cases htaken with
  | free => rfl
  | @evicted victim _ _ hvictim _ =>
    obtain ⟨hwriter, hopen⟩ := h.of_leastRecent? hvictim
    refine (writer?_setWriter p victim.suspend kind label).trans (if_neg ?_)
    rintro ⟨rfl, rfl⟩
    have hshut : victim.isOpen = false := hclosed victim hwriter
    rw [hopen] at hshut
    cases hshut

theorem Keyed.fetch (h : p.Keyed) (hfetch : p.fetch kind label d = (.ok w, d')) :
    w.isOpen = true ∧ w.kind = kind ∧ w.label = label := by
  unfold Pool.fetch at hfetch
  split at hfetch
  · rename_i v hv
    obtain ⟨hkind, hlabel⟩ := h hv
    obtain rfl := LabelWriter.reopen_ok (Prod.mk.inj hfetch).1
    exact ⟨rfl, hkind, hlabel⟩
  · exact LabelWriter.create_ok_fields hfetch

theorem fetch_error {f : Failure} (hfetch : p.fetch kind label d = (.error f, d')) :
    f.cause = .io := by
  unfold Pool.fetch at hfetch
  split at hfetch
  · exact LabelWriter.reopen_error (Prod.mk.inj hfetch).1
  · exact LabelWriter.create_error hfetch

theorem fetch_withBudget (p : Pool) (kind : OutputKind) (label : Label) (d : Disk)
    (b : HandleBudget) : p.fetch kind label { d with budget := b } =
      ((p.fetch kind label d).1, { (p.fetch kind label d).2 with budget := b }) := by
  unfold fetch
  split
  · rfl
  · exact LabelWriter.create_withBudget _ _ _ _ _ d b

theorem budget_of_fetch {fetched : Except Failure LabelWriter}
    (hfetch : p.fetch kind label d = (fetched, d')) : d'.budget = d.budget := by
  have h := fetch_withBudget p kind label d d.budget
  rw [show { d with budget := d.budget } = d from rfl, hfetch] at h
  rw [(Prod.mk.inj h).2]

/-- A handle makes no difference to what there is to open or to make. -/
theorem Taken.fetch (htaken : p.tick.Taken d p' d') :
    p.fetch kind label d' =
      ((p.fetch kind label d).1, { (p.fetch kind label d).2 with budget := d'.budget }) := by
  cases htaken with
  | free => exact fetch_withBudget p kind label d _
  | evicted => exact fetch_withBudget p kind label d _

theorem Requested.keyed (hreq : p.Requested kind label d result p' d') (h : p.Keyed) :
    p'.Keyed := by
  have htick : p.tick.Keyed := h
  cases hreq with
  | ready => exact htick.setWriter _
  | barred => exact htick
  | busy _ hwaits =>
    cases hwaits with
    | noWriter => exact htick
    | stillFull => exact htick.setWriter _
  | refused _ htaken => exact htick.taken htaken
  | served _ htaken => exact (htick.taken htaken).setWriter _

/-- A request that succeeds gives the writer that is filed there, and it is open. -/
theorem Requested.writer? (hreq : p.Requested kind label d (.ok w) p' d') (h : p.Keyed) :
    p'.writer? kind label = some w ∧ w.isOpen = true ∧ w.kind = kind ∧ w.label = label := by
  cases hreq with
  | ready hw hopen =>
    obtain ⟨rfl, rfl⟩ := h hw
    exact ⟨(writer?_setWriter _ _ _ _).trans (if_pos ⟨rfl, rfl⟩), hopen, rfl, rfl⟩
  | served hneeds htaken hfetch =>
    obtain ⟨hopen, rfl, rfl⟩ := h.fetch hfetch
    exact ⟨(writer?_setWriter _ _ _ _).trans (if_pos ⟨rfl, rfl⟩), hopen, rfl, rfl⟩

end

/-! ## Writes -/

/-- The ways that a write can go, once there is a writer for it. -/
inductive Written (write : LabelWriter → Except Failure (LabelWriter × String)) (w : LabelWriter)
    (p : Pool) (d : Disk) : Except Failure Unit → Pool → Disk → Prop where
  | failed {f : Failure} (hwrite : write w = .error f) : Written write w p d (.error f) p d
  | done {w' : LabelWriter} {line : String} (hwrite : write w = .ok (w', line)) :
      Written write w p d (.ok ()) (p.setWriter w') (d.append w'.path line)

theorem writeWith_cases {write : LabelWriter → Except Failure (LabelWriter × String)}
    {p p' : Pool} {kind : OutputKind} {label : Label} {d d' : Disk} {result : Except Failure Unit}
    (h : p.writeWith write kind label d = (result, p', d')) :
    (∃ f, p.get kind label d = (.error f, p', d') ∧ result = .error f) ∨
      ∃ w p₁ d₁, p.get kind label d = (.ok w, p₁, d₁) ∧ Written write w p₁ d₁ result p' d' := by
  unfold writeWith at h
  split at h
  · rename_i f p₁ d₁ hget
    cases h
    exact .inl ⟨f, hget, rfl⟩
  · rename_i w p₁ d₁ hget
    refine .inr ⟨w, p₁, d₁, hget, ?_⟩
    split at h
    · rename_i f hwrite
      cases h
      exact .failed hwrite
    · rename_i w' line hwrite
      cases h
      exact .done hwrite

/-- Whatever a pool does, its writers stay under their keys. -/
theorem Keyed.act {a : PoolAct} {p p' : Pool} {d d' : Disk} {done : Except Failure Unit}
    (h : p.Keyed) (hact : p.act a d = (done, p', d')) : p'.Keyed := by
  cases a with
  | seed kind schemas =>
    cases hact
    exact h
  | get kind label =>
    rcases hget : p.get kind label d with ⟨got, p₁, d₁⟩
    simp only [Pool.act, hget, Prod.mk.injEq] at hact
    obtain ⟨-, rfl, -⟩ := hact
    exact (requested hget).keyed h
  | write kind label i =>
    rw [act_write] at hact
    rcases writeWith_cases hact with ⟨f, hget, -⟩ | ⟨w, p₁, d₁, hget, hwritten⟩
    · exact (requested hget).keyed h
    · have h₁ := (requested hget).keyed h
      cases hwritten with
      | failed => exact h₁
      | done => exact h₁.setWriter _

end Pool

end GraphExport
