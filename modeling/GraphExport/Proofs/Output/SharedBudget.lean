import Mathlib.Algebra.BigOperators.Group.Finset.Basic
import Mathlib.Algebra.Order.BigOperators.Group.Finset
import Mathlib.Order.Bounds.Basic
import GraphExport.Proofs.Output.OpenFiles

/-!
# GraphExport.Proofs.Output.SharedBudget

Several pools that share one budget of file handles, in any order of what they do.

* `HandleBudget.Tracks`: the budget remembers the largest number of handles that were in use.
* `Pool.act_budget`, `Pool.close_budget`: the handles that a pool takes and gives back, one by one.
* `Sharing.Accounted`: the handles in use are the open files of all pools. `Sharing.Accounted.step`
  and `Sharing.Accounted.play`: that stays so, whatever the pools do.
-/

namespace GraphExport

/-! ## The budget -/

inductive HandleOp where
  | take
  | give
  deriving DecidableEq

namespace HandleBudget

/-- The budget after an operation. Nothing is taken where no handle is free. -/
def run (b : HandleBudget) : HandleOp → HandleBudget
  | .take => b.acquire?.getD b
  | .give => b.release

/-- The number of handles in use after each of some operations. -/
def counts (b : HandleBudget) : List HandleOp → List Nat
  | [] => []
  | op :: ops => (b.run op).openCount :: (b.run op).counts ops

/-- The history is that of the numbers of handles in use, and the budget keeps to its bound. -/
structure Tracks (b : HandleBudget) (history : List Nat) : Prop where
  bound : b.openCount ≤ b.max
  now : b.openCount ∈ history
  highWater : IsGreatest {c | c ∈ history} b.highWater
  highBound : b.highWater ≤ b.max

section

variable {b : HandleBudget} {history : List Nat}

theorem max_run (b : HandleBudget) (op : HandleOp) : (b.run op).max = b.max := by
  cases op with
  | give => rfl
  | take =>
    unfold run
    cases hb : b.acquire? with
    | none => rfl
    | some b' => exact (acquire?_eq_some hb).2.1

theorem Tracks.run (h : b.Tracks history) (hpos : 0 < b.max) (op : HandleOp) :
    (b.run op).Tracks (history ++ [(b.run op).openCount]) := by
  have hle : ∀ c ∈ history, c ≤ b.highWater := fun c hc => h.highWater.2 hc
  have hnow := hle _ h.now
  -- A number that is no larger than the mark leaves the mark where it is.
  have hkeep : ∀ n ≤ b.highWater, IsGreatest {c | c ∈ history ++ [n]} b.highWater := by
    intro n hn
    refine ⟨List.mem_append_left _ h.highWater.1, fun c hc => ?_⟩
    rcases List.mem_append.1 hc with hc | hc
    · exact hle c hc
    · rw [List.mem_singleton.1 hc]
      exact hn
  cases op with
  | give =>
    have hless : b.release.openCount ≤ b.openCount := Nat.sub_le _ _
    exact ⟨Nat.le_trans hless h.bound, by simp, hkeep _ (Nat.le_trans hless hnow), h.highBound⟩
  | take =>
    cases hb : b.acquire? with
    | none =>
      rw [show b.run .take = b by simp [HandleBudget.run, hb]]
      exact ⟨h.bound, by simp, hkeep _ hnow, h.highBound⟩
    | some b' =>
      rw [show b.run .take = b' by simp [HandleBudget.run, hb]]
      obtain ⟨hopen, hmax, hhigh, hwithin⟩ := acquire?_eq_some hb
      have hbound : b'.openCount ≤ b'.max := by
        rcases hwithin with hzero | hle
        · omega
        · exact hle
      have hmark : b'.highWater = Max.max b.highWater b'.openCount := by rw [hhigh, hopen]
      have hold := h.highBound
      refine ⟨hbound, by simp, ⟨?_, fun c hc => ?_⟩, by omega⟩
      · show b'.highWater ∈ history ++ [b'.openCount]
        rcases Nat.le_total b.highWater b'.openCount with hl | hl
        · rw [hmark, Nat.max_eq_right hl]
          simp
        · rw [hmark, Nat.max_eq_left hl]
          exact List.mem_append_left _ h.highWater.1
      · rcases List.mem_append.1 hc with hc | hc
        · have := hle c hc
          omega
        · rw [List.mem_singleton.1 hc]
          omega

theorem Tracks.foldl (h : b.Tracks history) (hpos : 0 < b.max) (ops : List HandleOp) :
    (ops.foldl HandleBudget.run b).Tracks (history ++ b.counts ops) ∧
      (ops.foldl HandleBudget.run b).max = b.max := by
  induction ops generalizing b history with
  | nil =>
    rw [counts, List.append_nil]
    exact ⟨h, rfl⟩
  | cons op rest ih =>
    obtain ⟨htracks, hmax⟩ := ih (h.run hpos op) (by rw [max_run]; exact hpos)
    rw [counts, List.append_cons]
    exact ⟨htracks, hmax.trans (max_run b op)⟩

end

end HandleBudget

/-! ## One pool -/

def isBusy {α : Type} : Except Failure α → Bool
  | .error f => f.cause = .handlesBusy
  | .ok _ => false

namespace Pool

/-- The request needs a handle: its writer is closed, or is not there and may be made. -/
def lacksHandle (p : Pool) (kind : OutputKind) (label : Label) : Bool :=
  match p.writer? kind label with
  | some w => !w.isOpen
  | none => p.kinds.contains kind

/-- The operations by which a pool gets a handle. -/
def takeOps (p : Pool) (b : HandleBudget) : List HandleOp :=
  if b.acquire?.isSome then [.take]
  else if p.leastRecent?.isSome then [.give, .take]
  else []

/-- The operations of a request. A handle for a file that cannot be opened or made is given back. -/
def requestOps (p : Pool) (kind : OutputKind) (label : Label) (d : Disk) : List HandleOp :=
  if p.lacksHandle kind label then
    p.takeOps d.budget ++
      match (p.fetch kind label d).1 with
      | .ok _ => []
      | .error _ => [.give]
  else []

def actOps (p : Pool) (d : Disk) : PoolAct → List HandleOp
  | .seed _ _ => []
  | .get kind label => p.requestOps kind label d
  | .write kind label _ => p.requestOps kind label d

/-- Every open file gives its handle back. -/
def closeOps (p : Pool) : List HandleOp := p.openWriters.map fun _ => .give

section

variable {p p' : Pool} {kind : OutputKind} {label : Label} {d d' : Disk}

theorem NeedsHandle.lacksHandle (h : p.NeedsHandle kind label) :
    p.lacksHandle kind label = true := by
  unfold Pool.lacksHandle
  cases hw : p.writer? kind label with
  | some w => simp [h.1 w hw]
  | none => simpa using h.2 hw

theorem Taken.budget (h : p.tick.Taken d p' d') :
    d'.budget = (p.takeOps d.budget).foldl HandleBudget.run d.budget := by
  cases h with
  | free hb => simp [takeOps, hb, HandleBudget.run]
  | evicted hfull hvictim hb =>
    have hvictim : p.leastRecent? = some _ := hvictim
    simp [takeOps, hfull, hvictim, HandleBudget.run, hb]

theorem Requested.budget {result : Except Failure LabelWriter}
    (h : p.Requested kind label d result p' d') (hbusy : isBusy result = false) :
    d'.budget = (p.requestOps kind label d).foldl HandleBudget.run d.budget := by
  cases h with
  | ready hw hopen => simp [requestOps, lacksHandle, hw, hopen]
  | barred hnone hkind => simp [requestOps, lacksHandle, hnone, hkind]
  | busy => cases hbusy
  | refused hneeds htaken hfetch =>
    rw [htaken.fetch] at hfetch
    obtain ⟨hresult, rfl⟩ := Prod.mk.inj hfetch
    rw [requestOps, if_pos hneeds.lacksHandle, hresult, List.foldl_append, ← htaken.budget]
    rfl
  | served hneeds htaken hfetch =>
    rw [htaken.fetch] at hfetch
    obtain ⟨hresult, rfl⟩ := Prod.mk.inj hfetch
    rw [requestOps, if_pos hneeds.lacksHandle, hresult, List.foldl_append, ← htaken.budget]
    rfl

/-- What a pool does to the budget. -/
theorem act_budget {a : PoolAct} {done : Except Failure Unit} (h : p.act a d = (done, p', d'))
    (hbusy : isBusy done = false) :
    d'.budget = (p.actOps d a).foldl HandleBudget.run d.budget := by
  cases a with
  | seed kind schemas =>
    cases h
    rfl
  | get kind label =>
    rcases hget : p.get kind label d with ⟨got, p₁, d₁⟩
    simp only [act, hget, Prod.mk.injEq] at h
    obtain ⟨rfl, rfl, rfl⟩ := h
    refine (requested hget).budget ?_
    cases got <;> exact hbusy
  | write kind label i =>
    rw [act_write] at h
    rcases writeWith_cases h with ⟨f, hget, rfl⟩ | ⟨w, p₁, d₁, hget, hwritten⟩
    · exact (requested hget).budget hbusy
    · have hbudget : d'.budget = d₁.budget := by cases hwritten <;> rfl
      rw [hbudget]
      exact (requested hget).budget rfl

theorem close_budget (p : Pool) (d : Disk) :
    (p.close d).2.2.budget = p.closeOps.foldl HandleBudget.run d.budget := by
  rw [close, closeOps, List.foldl_map]
  rfl

end

end Pool

/-! ## Several pools -/

/-- Pools that share their handles. A pool that was closed is gone. The history is that of the
numbers of handles in use. -/
structure Sharing (n : Nat) where
  pools : Fin n → Option Pool
  disk : Disk
  history : List Nat

inductive SharedAct (n : Nat) where
  | act (i : Fin n) (a : PoolAct)
  | close (i : Fin n)
  /-- Others change the files, so that one may not be opened or made any more. -/
  | outside (tree : FileTree) (filesNamed : Nat)

namespace Sharing

variable {n : Nat}

/-- New pools, each with settings of its own. -/
def start (max : Nat) (dir : Fin n → Path) (format : Fin n → Format)
    (kinds : Fin n → List OutputKind) (tree : FileTree) (filesNamed : Nat) : Sharing n where
  pools i := some { dir := dir i, format := format i, kinds := kinds i }
  disk := { tree, filesNamed, budget := { max } }
  history := [0]

/-- Where a pool would have to wait, nothing is done. -/
def step (s : Sharing n) : SharedAct n → Sharing n
  | .act i a =>
    match s.pools i with
    | none => s
    | some p =>
      let (done, p', d) := p.act a s.disk
      if isBusy done then s
      else
        { pools := Function.update s.pools i (some p')
          disk := d
          history := s.history ++ s.disk.budget.counts (p.actOps s.disk a) }
  | .close i =>
    match s.pools i with
    | none => s
    | some p =>
      { pools := Function.update s.pools i none
        disk := (p.close s.disk).2.2
        history := s.history ++ s.disk.budget.counts p.closeOps }
  | .outside tree filesNamed => { s with disk := { s.disk with tree, filesNamed } }

def play (s : Sharing n) (acts : List (SharedAct n)) : Sharing n := acts.foldl step s

/-- The number of open files of a pool that may be gone. -/
def openIn : Option Pool → Nat
  | some p => p.openCount
  | none => 0

theorem sum_openIn_update (pools : Fin n → Option Pool) (i : Fin n) (q : Option Pool) :
    ∑ j, openIn (Function.update pools i q j) + openIn (pools i) =
      ∑ j, openIn (pools j) + openIn q := by
  have hrest : ∑ j ∈ Finset.univ.erase i, openIn (Function.update pools i q j) =
      ∑ j ∈ Finset.univ.erase i, openIn (pools j) :=
    Finset.sum_congr rfl fun j hj => by rw [Function.update_of_ne (Finset.ne_of_mem_erase hj)]
  rw [← Finset.add_sum_erase _ (fun j => openIn (Function.update pools i q j)) (Finset.mem_univ i),
    ← Finset.add_sum_erase _ (fun j => openIn (pools j)) (Finset.mem_univ i), hrest,
    Function.update_self]
  omega

/-- The handles in use are the open files of all pools, and they were counted throughout. -/
structure Accounted (max : Nat) (s : Sharing n) : Prop where
  keyed : ∀ {i p}, s.pools i = some p → p.Keyed
  count : s.disk.budget.openCount = ∑ i, openIn (s.pools i)
  max_eq : s.disk.budget.max = max
  tracks : s.disk.budget.Tracks s.history

namespace Accounted

variable {max : Nat} {s : Sharing n}

theorem start (max : Nat) (dir : Fin n → Path) (format : Fin n → Format)
    (kinds : Fin n → List OutputKind) (tree : FileTree) (filesNamed : Nat) :
    (Sharing.start max dir format kinds tree filesNamed).Accounted max where
  keyed {i p} hp := by
    cases hp
    exact Pool.keyed_new _ _ _
  count := by
    have hzero : ∀ i, openIn ((Sharing.start max dir format kinds tree filesNamed).pools i) = 0 :=
      fun i => rfl
    simp only [hzero, Finset.sum_const_zero]
    rfl
  max_eq := rfl
  tracks := ⟨Nat.zero_le _, List.mem_singleton.2 rfl,
    ⟨List.mem_singleton.2 rfl, fun c hc => Nat.le_of_eq (List.mem_singleton.1 hc)⟩, Nat.zero_le _⟩

theorem openCount_le (h : s.Accounted max) {i : Fin n} {p : Pool} (hp : s.pools i = some p) :
    p.openCount ≤ s.disk.budget.openCount := by
  have hle := Finset.single_le_sum (f := fun j => openIn (s.pools j)) (fun _ _ => Nat.zero_le _)
    (Finset.mem_univ i)
  rw [h.count]
  simpa only [hp, openIn] using hle

/-- One pool goes on by operations on the budget that change the number of its open files. -/
theorem go (h : s.Accounted max) (hpos : 0 < max) {i : Fin n} {p : Pool}
    (hp : s.pools i = some p) {q : Option Pool} {d : Disk} {ops : List HandleOp}
    (hkeyed : ∀ {p'}, q = some p' → p'.Keyed)
    (hbudget : d.budget = ops.foldl HandleBudget.run s.disk.budget)
    (hcount : d.budget.openCount + p.openCount = s.disk.budget.openCount + openIn q) :
    Accounted max
      { pools := Function.update s.pools i q
        disk := d
        history := s.history ++ s.disk.budget.counts ops } := by
  obtain ⟨htracks, hmax⟩ := h.tracks.foldl (by rw [h.max_eq]; exact hpos) ops
  rw [← hbudget] at htracks hmax
  refine ⟨fun {j p'} hp' => ?_, ?_, hmax.trans h.max_eq, htracks⟩
  · by_cases hj : j = i
    · subst hj
      simp only [Function.update_self] at hp'
      exact hkeyed hp'
    · simp only [Function.update_of_ne hj] at hp'
      exact h.keyed hp'
  · have hsum := sum_openIn_update s.pools i q
    rw [hp, show openIn (some p) = p.openCount from rfl] at hsum
    have := h.count
    show d.budget.openCount = ∑ j, openIn (Function.update s.pools i q j)
    omega

theorem step (h : s.Accounted max) (hpos : 0 < max) (a : SharedAct n) :
    (s.step a).Accounted max := by
  cases a with
  | act i a =>
    cases hp : s.pools i with
    | none => simpa only [Sharing.step, hp] using h
    | some p =>
      rcases hact : p.act a s.disk with ⟨done, p', d⟩
      simp only [Sharing.step, hp, hact]
      cases hbusy : isBusy done with
      | true => exact h
      | false =>
        have hwithin : s.disk.budget.Within := .inr h.tracks.bound
        obtain ⟨hcount, -, -⟩ := p.act_openCount hact (h.keyed hp)
          (fun heq => by rw [heq] at hbusy; cases hbusy) (h.openCount_le hp) hwithin
        refine h.go hpos hp (q := some p') (fun heq => ?_) (Pool.act_budget hact hbusy) hcount
        cases heq
        exact (h.keyed hp).act hact
  | close i =>
    cases hp : s.pools i with
    | none => simpa only [Sharing.step, hp] using h
    | some p =>
      have hle := h.openCount_le hp
      simp only [Sharing.step, hp]
      refine h.go hpos hp (q := none) (fun heq => by cases heq) (p.close_budget s.disk) ?_
      show (p.openWriters.foldl (fun b _ => b.release) s.disk.budget).openCount + p.openCount = _
      rw [Pool.openCount_release]
      show s.disk.budget.openCount - p.openCount + p.openCount = s.disk.budget.openCount + 0
      omega
  | outside tree filesNamed => exact ⟨h.keyed, h.count, h.max_eq, h.tracks⟩

theorem play (h : s.Accounted max) (hpos : 0 < max) (acts : List (SharedAct n)) :
    (s.play acts).Accounted max := by
  induction acts generalizing s with
  | nil => exact h
  | cons a rest ih => exact ih (h.step hpos a)

end Accounted

/-- Whatever the pools do, the handles in use are their open files and no more than allowed, the
budget remembers the largest number of them, and pools that are closed hold none. -/
theorem handles_accounted (max : Nat) (hpos : 0 < max) (dir : Fin n → Path)
    (format : Fin n → Format) (kinds : Fin n → List OutputKind) (tree : FileTree)
    (filesNamed : Nat) (acts : List (SharedAct n)) :
    let s := (start max dir format kinds tree filesNamed).play acts
    s.disk.budget.openCount = ∑ i, openIn (s.pools i) ∧
      s.disk.budget.openCount ≤ max ∧
      IsGreatest {c | c ∈ s.history} s.disk.budget.highWater ∧
      s.disk.budget.highWater ≤ max ∧
      ((∀ i, s.pools i = none) → s.disk.budget.openCount = 0) := by
  intro s
  have h : s.Accounted max := (Accounted.start max dir format kinds tree filesNamed).play hpos acts
  have hbound := h.tracks.bound
  have hhigh := h.tracks.highBound
  rw [h.max_eq] at hbound hhigh
  refine ⟨h.count, hbound, h.tracks.highWater, hhigh, fun hclosed => ?_⟩
  rw [h.count]
  exact Finset.sum_eq_zero fun i _ => by rw [hclosed i]; rfl

/-- Two pools with one handle: a writer is suspended, a pool has to wait, a kind may not be written,
and a file that is gone is not opened again. -/
theorem handles_accounted_one_handle :
    let dir : Fin 2 → Path := fun _ => .ofNames ["out"]
    let format : Fin 2 → Format := fun i => if i = 0 then .csv else .json
    let kinds : Fin 2 → List OutputKind := fun _ => [.nodes]
    let acts : List (SharedAct 2) :=
      [.act 0 (.get .nodes (.single "a")), .act 1 (.get .nodes (.single "a")),
        .act 0 (.get .nodes (.single "b")), .act 0 (.get .results (.single "a")),
        .outside ∅ 7, .act 0 (.get .nodes (.single "a")), .act 0 (.seed .nodes ∅),
        .act 1 (.get .nodes (.single "a")), .close 0, .close 1]
    let s := (start 1 dir format kinds ∅ 0).play acts
    0 < 1 ∧ s.history = [0, 1, 0, 1, 0, 1, 0, 1, 0] ∧ (∀ i, (s.pools i).isNone = true) ∧
      s.disk.budget.openCount = ∑ i, openIn (s.pools i) ∧
      s.disk.budget.openCount ≤ 1 ∧
      IsGreatest {c | c ∈ s.history} s.disk.budget.highWater ∧
      s.disk.budget.highWater ≤ 1 ∧
      ((∀ i, s.pools i = none) → s.disk.budget.openCount = 0) := by
  intro dir format kinds acts
  refine ⟨by decide, ?_, ?_, ?_⟩
  · decide +kernel
  · decide +kernel
  · exact handles_accounted 1 (by decide) dir format kinds ∅ 0 acts

end Sharing

end GraphExport
