/-!
# GraphExport.Data.SortedMap

Finite maps kept as a list of bindings in strictly increasing key order. The order is part of the
type, so two maps with the same bindings are the same value, and `entries` is the one view of a
map: every operation is explained by what it does to that list.
-/

namespace GraphExport

universe u v w

/-- Bindings with strictly increasing keys. -/
def Increasing {κ : Type u} {α : Type v} [Ord κ] (l : List (κ × α)) : Prop :=
  l.Pairwise fun a b => compare a.1 b.1 = .lt

/-- Puts a binding in its place, replacing one of the same key. -/
def insertBinding {κ : Type u} {α : Type v} [Ord κ] (k : κ) (a : α) :
    List (κ × α) → List (κ × α)
  | [] => [(k, a)]
  | (j, b) :: rest =>
    match compare k j with
    | .lt => (k, a) :: (j, b) :: rest
    | .eq => (k, a) :: rest
    | .gt => (j, b) :: insertBinding k a rest

theorem mem_insertBinding {κ : Type u} {α : Type v} [Ord κ] {k : κ} {a : α} {p : κ × α} :
    ∀ {l : List (κ × α)}, p ∈ insertBinding k a l → p = (k, a) ∨ p ∈ l
  | [], h => by simpa [insertBinding] using h
  | (j, b) :: rest, h => by
    simp only [insertBinding] at h
    split at h
    · simpa using h
    · rcases List.mem_cons.1 h with h | h
      · exact .inl h
      · exact .inr (List.mem_cons_of_mem _ h)
    · rcases List.mem_cons.1 h with h | h
      · exact .inr (h ▸ List.mem_cons_self)
      · exact (mem_insertBinding h).imp id (List.mem_cons_of_mem _)

theorem Increasing.insertBinding {κ : Type u} {α : Type v} [Ord κ] [Std.TransOrd κ]
    [Std.LawfulEqOrd κ] {k : κ} {a : α} :
    ∀ {l : List (κ × α)}, Increasing l → Increasing (GraphExport.insertBinding k a l)
  | [], _ => by simp [GraphExport.insertBinding, Increasing]
  | (j, b) :: rest, h => by
    have ⟨hj, hrest⟩ := List.pairwise_cons.1 h
    simp only [GraphExport.insertBinding]
    split
    · rename_i hlt
      refine List.pairwise_cons.2 ⟨fun p hp => ?_, h⟩
      rcases List.mem_cons.1 hp with rfl | hp
      · exact hlt
      · exact Std.TransCmp.lt_trans hlt (hj p hp)
    · rename_i heq
      have : k = j := Std.LawfulEqOrd.eq_of_compare heq
      subst this
      exact List.pairwise_cons.2 ⟨hj, hrest⟩
    · rename_i hgt
      refine List.pairwise_cons.2 ⟨fun p hp => ?_, Increasing.insertBinding hrest⟩
      rcases mem_insertBinding hp with rfl | hp
      · exact Std.OrientedCmp.lt_of_gt hgt
      · exact hj p hp

/-- A finite map; `entries` lists its bindings by increasing key. -/
structure SortedMap (κ : Type u) (α : Type v) [Ord κ] where
  entries : List (κ × α)
  increasing : Increasing entries

namespace SortedMap

section
variable {κ : Type u} {α : Type v} [Ord κ]

theorem ext_entries {m n : SortedMap κ α} (h : m.entries = n.entries) : m = n := by
  cases m; cases n; cases h; rfl

instance [DecidableEq κ] [DecidableEq α] : DecidableEq (SortedMap κ α) := fun m n =>
  decidable_of_iff (m.entries = n.entries) ⟨ext_entries, fun h => h ▸ rfl⟩

def empty : SortedMap κ α := ⟨[], List.Pairwise.nil⟩

instance : EmptyCollection (SortedMap κ α) := ⟨empty⟩
instance : Inhabited (SortedMap κ α) := ⟨empty⟩

def isEmpty (m : SortedMap κ α) : Bool := m.entries.isEmpty

def size (m : SortedMap κ α) : Nat := m.entries.length

def keys (m : SortedMap κ α) : List κ := m.entries.map (·.1)

def values (m : SortedMap κ α) : List α := m.entries.map (·.2)

def get? [DecidableEq κ] (m : SortedMap κ α) (k : κ) : Option α := m.entries.lookup k

def contains [DecidableEq κ] (m : SortedMap κ α) (k : κ) : Bool := (m.get? k).isSome

def filter (p : κ → α → Bool) (m : SortedMap κ α) : SortedMap κ α :=
  ⟨m.entries.filter fun e => p e.1 e.2, m.increasing.filter _⟩

def erase [DecidableEq κ] (m : SortedMap κ α) (k : κ) : SortedMap κ α :=
  m.filter fun j _ => j != k

def mapValues {β : Type w} (f : κ → α → β) (m : SortedMap κ α) : SortedMap κ β :=
  ⟨m.entries.map fun e => (e.1, f e.1 e.2), by
    simpa [Increasing, List.pairwise_map] using m.increasing⟩

end

section
variable {κ : Type u} {α : Type v} [Ord κ] [Std.TransOrd κ] [Std.LawfulEqOrd κ]

/-- Binds `k` to `a`, replacing what `k` was bound to. -/
def insert (m : SortedMap κ α) (k : κ) (a : α) : SortedMap κ α :=
  ⟨insertBinding k a m.entries, m.increasing.insertBinding⟩

/-- The map of a list of bindings, of which a later one replaces an earlier one. -/
def ofList (l : List (κ × α)) : SortedMap κ α :=
  l.foldl (fun m e => m.insert e.1 e.2) empty

/-- Binds `k` to what `f` makes of the value it had. -/
def alter [DecidableEq κ] (m : SortedMap κ α) (k : κ) (f : Option α → α) : SortedMap κ α :=
  m.insert k (f (m.get? k))

end

end SortedMap

end GraphExport
