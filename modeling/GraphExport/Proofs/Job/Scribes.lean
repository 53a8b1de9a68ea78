import Mathlib.Data.List.Forall2
import GraphExport.Proofs.Job.Tables
import GraphExport.Proofs.Output.Ledger

/-!
# GraphExport.Proofs.Job.Scribes

Several pools that write their files to one disk, in any order of what they do and however it goes.

* `Scribes.play`: a run, with a log of it. `SharedLog.of`: what one of the pools has done.
* `Pool.act_holds`: an act adds to the shelf of its pool the rows that the log shows for it.
* `Scribes.Kept`: every file has the rows of the items that its pool was given for it, in order.
  `Scribes.Kept.step`, `Scribes.Kept.play`: so it stays, whichever pool is next.
* `Scribes.Kept.reconciled`: what bringing the files of all pools in line makes of them.
-/

namespace GraphExport

/-- The row that an item is written as. -/
def Item.row (kind : OutputKind) (label : Label) : Item → Except Failure WrittenRow
  | element e => WrittenRow.ofElement kind label e
  | columns m => .ok (.ofColumns m)

/-- Rows are those of some items. -/
abbrev Item.AllRows (kind : OutputKind) (label : Label) : List Item → List WrittenRow → Prop :=
  List.Forall₂ fun i r => i.row kind label = .ok r

theorem Item.row_of_getElem? {kind : OutputKind} {label : Label} {items : List Item}
    {rows : List WrittenRow} (h : AllRows kind label items rows) {k : Nat} {i : Item}
    (hi : items[k]? = some i) : ∃ r, rows[k]? = some r ∧ i.row kind label = .ok r := by
  obtain ⟨hk, rfl⟩ := List.getElem?_eq_some_iff.1 hi
  have hk' : k < rows.length := h.length_eq ▸ hk
  exact ⟨rows[k], List.getElem?_eq_getElem hk', (List.forall₂_iff_get.1 h).2 k hk hk'⟩

/-- Elements go to files of nodes and edges, rows of results to files of results. -/
def PoolAct.Suits : PoolAct → Prop
  | .write kind _ (.element _) => kind ≠ .results
  | .write kind _ (.columns _) => kind = .results
  | _ => True

/-- The rows in the file of a kind and label. -/
def Shelf.rows (S : Shelf) (kind : OutputKind) (label : Label) : List WrittenRow :=
  ((S kind label).map (·.book.rows)).getD []

/-! ## One pool -/

section

variable {dir : Path} {kinds : List OutputKind} {base : FileTree} {shelves : Nat → Shelf} {i : Nat}
  {p p' : Pool} {d d' : Disk} {kind : OutputKind} {label : Label}

theorem PoolAct.Suits.row_writeTo {item : Item} (h : (PoolAct.write kind label item).Suits)
    (w w' : LabelWriter) (line : String) (hkind : w.kind = kind) (hlabel : w.label = label)
    (hformat : w.format = .csv) (hwrite : item.writeTo w = .ok (w', line)) :
    ∃ r, item.row kind label = .ok r ∧ r.Fits kind label ∧ w' = w.row (r.grow kind w.schema) ∧
      line = Csv.line (r.record (r.grow kind w.schema)) := by
  cases item with
  | element e => exact Station.row_writeElement h e w w' line hkind hlabel hformat hwrite
  | columns m =>
    obtain rfl : kind = .results := h
    obtain ⟨r, rfl, hr⟩ := Station.row_writeColumns m w w' line hkind hlabel hformat hwrite
    exact ⟨_, rfl, hr⟩

/-- A new file has no rows. -/
theorem Shelf.rows_set_new {S : Shelf} (h : S kind label = none) (number : Nat) (p : Pool) :
    (S.set kind label ⟨number, p.newBook kind label⟩).rows = S.rows := by
  funext k l
  unfold Shelf.rows
  by_cases hkey : k = kind ∧ l = label
  · obtain ⟨rfl, rfl⟩ := hkey
    rw [Shelf.set_self, h]
    rfl
  · rw [Shelf.set_of_ne _ _ hkey]

theorem Shelf.rows_set_add (S : Shelf) (kind : OutputKind) (label : Label) (number : Nat) (p : Pool)
    (r : WrittenRow) (k : OutputKind) (l : Label) :
    (S.set kind label (((S kind label).getD ⟨number, p.newBook kind label⟩).add r)).rows k l =
      S.rows k l ++ if kind = k ∧ label = l then [r] else [] := by
  unfold Shelf.rows
  by_cases hkey : kind = k ∧ label = l
  · obtain ⟨rfl, rfl⟩ := hkey
    rw [Shelf.set_self, if_pos ⟨rfl, rfl⟩]
    cases S kind label <;> rfl
  · rw [Shelf.set_of_ne _ _ fun h => hkey ⟨h.1.symm, h.2.symm⟩, if_neg hkey, List.append_nil]

/-- An act adds rows to the shelf of its pool, which are those of the items that it has written. -/
theorem Pool.act_holds (hs : Shelved dir kinds base shelves d) (hp : p.Holds dir kinds (shelves i))
    {a : PoolAct} (hsuits : a.Suits) {done : Except Failure Unit}
    (h : p.act a d = (done, p', d')) :
    ∃ shelves', (∀ j, j ≠ i → shelves' j = shelves j) ∧ Shelved dir kinds base shelves' d' ∧
      p'.Holds dir kinds (shelves' i) ∧ ∀ kind label, ∃ rows,
        Item.AllRows kind label (PoolLog.items kind label [(a, done)]) rows ∧
          (shelves' i).rows kind label = (shelves i).rows kind label ++ rows := by
  -- Where nothing is written no rows are added.
  have hsame : ∀ {S' : Shelf}, S'.rows = (shelves i).rows →
      (∀ kind label, PoolLog.items kind label [(a, done)] = []) → ∀ kind label, ∃ rows,
        Item.AllRows kind label (PoolLog.items kind label [(a, done)]) rows ∧
          S'.rows kind label = (shelves i).rows kind label ++ rows := by
    intro S' hrows hitems kind label
    exact ⟨[], by rw [hitems]; exact .nil, by rw [hrows, List.append_nil]⟩
  cases a with
  | seed kind schemas =>
    cases h
    exact ⟨shelves, fun _ _ => rfl, hs, hp.seedWith kind, hsame rfl fun _ _ => rfl⟩
  | get kind label =>
    rcases hget : p.get kind label d with ⟨got, p₁, d₁⟩
    simp only [act, hget, Prod.mk.injEq] at h
    obtain ⟨rfl, rfl, rfl⟩ := h
    obtain ⟨shelves', hcases, hs', hp', -⟩ := get_holds hs hp hget
    rcases hcases with rfl | ⟨hnone, rfl⟩
    · exact ⟨_, fun _ _ => rfl, hs', hp', hsame rfl fun _ _ => rfl⟩
    · refine ⟨_, fun j hj => setSheet_of_ne _ _ _ _ hj, hs', hp', hsame ?_ fun _ _ => rfl⟩
      rw [setSheet_self]
      exact Shelf.rows_set_new hnone _ p
  | write kind label item =>
    rw [act_write] at h
    obtain ⟨shelves', hothers, hs', hp', -, hok, herror⟩ :=
      writeWith_holds hs hp hsuits.row_writeTo h
    refine ⟨shelves', hothers, hs', hp', ?_⟩
    cases done with
    | error f =>
      refine hsame ?_ fun _ _ => rfl
      rcases herror f rfl with hshelf | ⟨hnone, hshelf⟩
      · rw [hshelf]
      · rw [hshelf]
        exact Shelf.rows_set_new hnone _ p
    | ok _ =>
      obtain ⟨r, hr, hshelf, -⟩ := hok rfl
      intro k l
      refine ⟨if kind = k ∧ label = l then [r] else [], ?_, ?_⟩
      · by_cases hkey : kind = k ∧ label = l
        · obtain ⟨rfl, rfl⟩ := hkey
          simpa [PoolLog.items] using hr
        · simp [PoolLog.items, hkey]
      · rw [hshelf]
        exact Shelf.rows_set_add _ _ _ _ p r k l

end

/-! ## Several pools -/

/-- What several pools have done, and how it went. -/
abbrev SharedLog (n : Nat) := List (Fin n × PoolAct × Except Failure Unit)

/-- What one of the pools has done. -/
def SharedLog.of {n : Nat} (log : SharedLog n) (i : Fin n) : PoolLog :=
  log.filterMap fun e => if e.1 = i then some e.2 else none

theorem SharedLog.items_concat {n : Nat} (log : SharedLog n) (i j : Fin n) (a : PoolAct)
    (done : Except Failure Unit) (kind : OutputKind) (label : Label) :
    PoolLog.items kind label (SharedLog.of (log ++ [(i, a, done)]) j) =
      PoolLog.items kind label (log.of j) ++
        if i = j then PoolLog.items kind label [(a, done)] else [] := by
  rw [SharedLog.of, List.filterMap_append, List.filterMap_cons, List.filterMap_nil]
  by_cases hij : i = j
  · rw [if_pos hij, if_pos hij]
    exact PoolLog.items_append kind label _ _
  · rw [if_neg hij, if_neg hij, List.append_nil, List.append_nil]
    rfl

/-- Pools that write to one disk. -/
structure Scribes (n : Nat) where
  pools : Fin n → Pool
  disk : Disk

namespace Scribes

variable {n : Nat}

/-- New pools for files in a directory. -/
def start (n : Nat) (dir : Path) (kinds : List OutputKind) (disk : Disk) : Scribes n where
  pools _ := { dir, format := .csv, kinds }
  disk := disk

def step (s : Scribes n) (i : Fin n) (a : PoolAct) : Except Failure Unit × Scribes n :=
  let (done, p, disk) := (s.pools i).act a s.disk
  (done, { pools := Function.update s.pools i p, disk })

/-- What the pools do one after the other, and how each act goes. -/
def play : List (Fin n × PoolAct) → Scribes n → SharedLog n × Scribes n
  | [], s => ([], s)
  | (i, a) :: rest, s =>
    let (done, s) := s.step i a
    let (log, s) := play rest s
    ((i, a, done) :: log, s)

theorem play_cons (i : Fin n) (a : PoolAct) (rest : List (Fin n × PoolAct)) (s : Scribes n) :
    play ((i, a) :: rest) s =
      ((i, a, (s.step i a).1) :: (play rest (s.step i a).2).1, (play rest (s.step i a).2).2) := rfl

/-- The files of a kind that the pools tell of when they are closed. -/
def fragments (s : Scribes n) (kind : OutputKind) : List Fragments :=
  List.ofFn fun i => ((s.pools i).close s.disk).1.get kind

/-- The files are those on the shelves of the pools, with the rows of the items that the log
shows. -/
structure Kept (dir : Path) (kinds : List OutputKind) (base : FileTree) (shelves : Nat → Shelf)
    (log : SharedLog n) (s : Scribes n) : Prop where
  shelved : Shelved dir kinds base shelves s.disk
  holds : ∀ i : Fin n, (s.pools i).Holds dir kinds (shelves i)
  rows : ∀ (i : Fin n) kind label,
    Item.AllRows kind label ((log.of i).items kind label) ((shelves i).rows kind label)
  empty : ∀ i, n ≤ i → shelves i = Shelf.empty

section

variable {dir : Path} {kinds : List OutputKind} {base : FileTree} {shelves : Nat → Shelf}
  {log : SharedLog n} {s s' : Scribes n}

theorem kept_start (n : Nat) (dir : Path) (kinds : List OutputKind) (d : Disk) :
    (start n dir kinds d).Kept dir kinds d.tree (fun _ => Shelf.empty) [] where
  shelved := Shelved.start dir kinds d
  holds _ := Pool.holds_new dir kinds
  rows _ _ _ := .nil
  empty _ _ := rfl

theorem Kept.step (h : s.Kept dir kinds base shelves log) {i : Fin n} {a : PoolAct}
    (hsuits : a.Suits) {done : Except Failure Unit} (hstep : s.step i a = (done, s')) :
    ∃ shelves', s'.Kept dir kinds base shelves' (log ++ [(i, a, done)]) := by
  rcases hact : (s.pools i).act a s.disk with ⟨done', p', d'⟩
  simp only [Scribes.step, hact, Prod.mk.injEq] at hstep
  obtain ⟨rfl, rfl⟩ := hstep
  obtain ⟨shelves', hothers, hshelved, hholds, hrows⟩ :=
    Pool.act_holds h.shelved (h.holds i) hsuits hact
  have hapart : ∀ {j : Fin n}, j ≠ i → shelves' j = shelves j := fun hj =>
    hothers _ fun heq => hj (Fin.ext heq)
  refine ⟨shelves', hshelved, fun j => ?_, fun j kind label => ?_, fun j hj => ?_⟩
  · by_cases hj : j = i
    · subst hj
      simpa only [Function.update_self] using hholds
    · simpa only [Function.update_of_ne hj, hapart hj] using h.holds j
  · rw [SharedLog.items_concat]
    by_cases hj : i = j
    · subst hj
      obtain ⟨rows, hnew, heq⟩ := hrows kind label
      rw [if_pos rfl, heq]
      exact List.rel_append (h.rows i kind label) hnew
    · rw [if_neg hj, List.append_nil, hapart (Ne.symm hj)]
      exact h.rows j kind label
  · rw [hothers j (by omega)]
    exact h.empty j hj

/-- Whatever the pools do, and in whichever order, every file has the rows of its items. -/
theorem Kept.play (acts : List (Fin n × PoolAct)) (h : s.Kept dir kinds base shelves log)
    (hsuits : ∀ a ∈ acts, a.2.Suits) {more : SharedLog n} (hplay : play acts s = (more, s')) :
    ∃ shelves', s'.Kept dir kinds base shelves' (log ++ more) := by
  induction acts generalizing s shelves log more with
  | nil =>
    cases hplay
    rw [List.append_nil]
    exact ⟨shelves, h⟩
  | cons first rest ih =>
    obtain ⟨i, a⟩ := first
    rcases hstep : s.step i a with ⟨done, s₁⟩
    rcases hrest : Scribes.play rest s₁ with ⟨later, s₂⟩
    rw [play_cons, hstep, hrest, Prod.mk.injEq] at hplay
    obtain ⟨rfl, rfl⟩ := hplay
    obtain ⟨hfirst, hlater⟩ := List.forall_mem_cons.1 hsuits
    obtain ⟨shelves₁, h₁⟩ := h.step hfirst hstep
    rw [List.append_cons]
    exact ih h₁ hlater hrest

/-- What bringing the files of a kind in line makes of them. -/
theorem Kept.reconciled (h : s.Kept dir kinds base shelves log) {kind : OutputKind}
    {schemas : Collection} {t : FileTree}
    (hreconcile : reconcile .csv kind (.ofFragments (s.fragments kind)) s.disk.tree =
      (.ok schemas, t)) : Reconciled dir shelves kind schemas s.disk.tree t := by
  refine h.shelved.reconcile (fun i f hf => ?_) (fun i hi label => ?_) hreconcile
  · rw [fragments, List.getElem?_ofFn] at hf
    split at hf
    · rename_i hi
      obtain rfl := Option.some.inj hf
      exact Pool.accounts_close h.shelved (h.holds ⟨i, hi⟩) kind
    · cases hf
  · rw [fragments, List.length_ofFn] at hi
    rw [h.empty i hi]
    rfl

end

end Scribes

end GraphExport
