/-!
# GraphExport.Data.FirstSeen

Finite maps that list their keys in the order in which they were first seen. A binding never
moves: changing the value of a key keeps its place, and a new key goes to the end.
-/

namespace GraphExport

universe u v

def alterBinding {κ : Type u} {α : Type v} [DecidableEq κ] (k : κ) (f : Option α → α) :
    List (κ × α) → List (κ × α)
  | [] => [(k, f none)]
  | (j, a) :: rest => if j = k then (j, f (some a)) :: rest else (j, a) :: alterBinding k f rest

theorem map_fst_alterBinding {κ : Type u} {α : Type v} [DecidableEq κ] (k : κ)
    (f : Option α → α) (l : List (κ × α)) :
    (alterBinding k f l).map (·.1) =
      if k ∈ l.map (·.1) then l.map (·.1) else l.map (·.1) ++ [k] := by
  induction l with
  | nil => rfl
  | cons e rest ih =>
    obtain ⟨j, a⟩ := e
    by_cases h : j = k
    · simp [alterBinding, h]
    · have hk : ¬ k = j := fun e => h e.symm
      simp only [alterBinding, h, if_false, List.map_cons, ih, List.mem_cons, hk, false_or]
      split <;> simp

/-- A finite map; `entries` lists its bindings by the first sight of the key. -/
structure FirstSeen (κ : Type u) (α : Type v) where
  entries : List (κ × α)
  distinct : (entries.map (·.1)).Nodup

namespace FirstSeen

variable {κ : Type u} {α : Type v}

theorem ext_entries {m n : FirstSeen κ α} (h : m.entries = n.entries) : m = n := by
  cases m; cases n; cases h; rfl

instance [DecidableEq κ] [DecidableEq α] : DecidableEq (FirstSeen κ α) := fun m n =>
  decidable_of_iff (m.entries = n.entries) ⟨ext_entries, fun h => h ▸ rfl⟩

def empty : FirstSeen κ α := ⟨[], List.nodup_nil⟩

instance : EmptyCollection (FirstSeen κ α) := ⟨empty⟩
instance : Inhabited (FirstSeen κ α) := ⟨empty⟩

def size (m : FirstSeen κ α) : Nat := m.entries.length

def keys (m : FirstSeen κ α) : List κ := m.entries.map (·.1)

def values (m : FirstSeen κ α) : List α := m.entries.map (·.2)

def get? [DecidableEq κ] (m : FirstSeen κ α) (k : κ) : Option α := m.entries.lookup k

def contains [DecidableEq κ] (m : FirstSeen κ α) (k : κ) : Bool := (m.get? k).isSome

def map {β : Type v} (f : κ → α → β) (m : FirstSeen κ α) : FirstSeen κ β :=
  ⟨m.entries.map fun e => (e.1, f e.1 e.2), by simpa [Function.comp_def] using m.distinct⟩

/-- Changes the value of `k` in place; a new key goes to the end. -/
def alter [DecidableEq κ] (m : FirstSeen κ α) (k : κ) (f : Option α → α) : FirstSeen κ α where
  entries := alterBinding k f m.entries
  distinct := by
    rw [map_fst_alterBinding]
    split
    · exact m.distinct
    · rename_i h
      rw [List.nodup_append]
      exact ⟨m.distinct, by simp, fun a ha b hb e => h (by simp_all)⟩

theorem keys_alter [DecidableEq κ] (m : FirstSeen κ α) (k : κ) (f : Option α → α) :
    (m.alter k f).keys = if k ∈ m.keys then m.keys else m.keys ++ [k] :=
  map_fst_alterBinding k f m.entries

end FirstSeen

end GraphExport
