import GraphExport.Data.FirstSeen
import GraphExport.Data.SortedMap

/-!
# GraphExport.Proofs.Data.Maps

What the operations of the two kinds of maps do to the value of a key.

* `SortedMap.get?_insert`, `get?_filter`, `get?_mapValues`: one equation for each operation.
* `SortedMap.mem_entries`, `SortedMap.ext_get?`: a map is known by the values of its keys.
* `SortedMap.values_insert_perm`: a map has the value of one key, and the values of the others.
* `FirstSeen.get?_alter`, `FirstSeen.get?_foldl_alter`: the same for maps in the order of sight.
* `FirstSeen.mem_keys_alter`: a key that is altered is there afterwards, and no other comes or goes.
* `FirstSeen.ext_get?`: such a map is known by its keys in their order and their values.
-/

namespace GraphExport

universe u v w x

section
variable {κ : Type u} {α : Type v} [Ord κ] [DecidableEq κ]

omit [Ord κ] in
theorem lookup_cons_eq (k : κ) (a : α) (l : List (κ × α)) (j : κ) :
    ((k, a) :: l).lookup j = if j = k then some a else l.lookup j := by
  rw [List.lookup_cons]
  by_cases h : j = k
  · simp [h]
  · have hb : (j == k) = false := by simpa using h
    rw [hb, if_neg h]

omit [Ord κ] in
/-- Where keys are distinct, the value of a key is the one that it is bound to. -/
theorem lookup_eq_some_iff {l : List (κ × α)} (h : (l.map (·.1)).Nodup) {k : κ} {a : α} :
    l.lookup k = some a ↔ (k, a) ∈ l := by
  induction l with
  | nil => simp
  | cons e rest ih =>
    obtain ⟨j, b⟩ := e
    rw [List.map_cons, List.nodup_cons] at h
    rw [lookup_cons_eq, List.mem_cons]
    by_cases hk : k = j
    · subst hk
      have hrest : (k, a) ∉ rest := fun hmem => h.1 (List.mem_map_of_mem (f := (·.1)) hmem)
      simp [hrest, eq_comm]
    · simp [hk, ih h.2]

omit [Ord κ] in
/-- Altering each key of a list of bindings once, in a map of any kind. -/
theorem foldl_alter {M : Type x} {β : Type w} (get : M → κ → Option α)
    (alter : M → κ → (Option α → α) → M)
    (hget : ∀ m k j f, get (alter m k f) j = if j = k then some (f (get m k)) else get m j)
    (f : β → Option α → α) {entries : List (κ × β)} (h : (entries.map (·.1)).Nodup) (m : M)
    (k : κ) :
    get (entries.foldl (fun m e => alter m e.1 (f e.2)) m) k =
      ((entries.lookup k).map fun b => f b (get m k)).or (get m k) := by
  induction entries generalizing m with
  | nil => rfl
  | cons e rest ih =>
    obtain ⟨j, b⟩ := e
    rw [List.map_cons, List.nodup_cons] at h
    rw [List.foldl_cons, ih h.2, lookup_cons_eq, hget]
    by_cases hk : k = j
    · subst hk
      have hrest : rest.lookup k = none := by
        rw [List.lookup_eq_none_iff]
        intro e he
        have hne : e.1 ≠ k := fun heq => h.1 (heq ▸ List.mem_map_of_mem (f := (·.1)) he)
        simpa using hne.symm
      rw [hrest, if_pos rfl, if_pos rfl]
      rfl
    · rw [if_neg hk, if_neg hk]

variable [Std.TransOrd κ] [Std.LawfulEqOrd κ]

omit [DecidableEq κ] [Std.LawfulEqOrd κ] in
theorem ne_of_compare {j k : κ} (h : compare j k ≠ .eq) : j ≠ k := by
  rintro rfl
  exact h Std.ReflCmp.compare_self

theorem lookup_insertBinding (k : κ) (a : α) (j : κ) (l : List (κ × α)) :
    (insertBinding k a l).lookup j = if j = k then some a else l.lookup j := by
  induction l with
  | nil => rw [insertBinding, lookup_cons_eq]
  | cons e rest ih =>
    obtain ⟨i, b⟩ := e
    simp only [insertBinding]
    split
    · rw [lookup_cons_eq]
    · rename_i heq
      have : k = i := Std.LawfulEqOrd.eq_of_compare heq
      subst this
      rw [lookup_cons_eq, lookup_cons_eq]
      split <;> rfl
    · rename_i hgt
      have hne : k ≠ i := ne_of_compare (by rw [hgt]; decide)
      rw [lookup_cons_eq, lookup_cons_eq, ih]
      by_cases hj : j = i
      · subst hj
        rw [if_pos rfl, if_pos rfl, if_neg fun e => hne e.symm]
      · rw [if_neg hj, if_neg hj]

omit [DecidableEq κ] [Std.LawfulEqOrd κ] in
theorem Increasing.nodup_keys {l : List (κ × α)} (h : Increasing l) : (l.map (·.1)).Nodup := by
  rw [List.nodup_iff_pairwise_ne, List.pairwise_map]
  refine h.imp fun {a b} hab => ne_of_compare ?_
  rw [hab]
  decide

end

namespace SortedMap

section
variable {κ : Type u} {α : Type v} {β : Type w} [Ord κ] [DecidableEq κ]

@[simp] theorem get?_empty (k : κ) : (∅ : SortedMap κ α).get? k = none := rfl

variable [Std.TransOrd κ]

theorem mem_entries {m : SortedMap κ α} {k : κ} {a : α} :
    (k, a) ∈ m.entries ↔ m.get? k = some a :=
  (lookup_eq_some_iff m.increasing.nodup_keys).symm

theorem mem_values {m : SortedMap κ α} {a : α} : a ∈ m.values ↔ ∃ k, m.get? k = some a := by
  simp only [values, List.mem_map, Prod.exists, exists_eq_right, mem_entries]

theorem get?_filter (p : κ → α → Bool) (m : SortedMap κ α) (k : κ) :
    (m.filter p).get? k = (m.get? k).filter (p k) := by
  ext a
  rw [← mem_entries, filter, List.mem_filter, mem_entries, Option.filter_eq_some_iff]

theorem get?_erase (m : SortedMap κ α) (k j : κ) :
    (m.erase k).get? j = if j = k then none else m.get? j := by
  rw [erase, get?_filter]
  by_cases h : j = k
  · simp [h]
  · cases hj : m.get? j <;> simp [h]

theorem get?_mapValues (f : κ → α → β) (m : SortedMap κ α) (k : κ) :
    (m.mapValues f).get? k = (m.get? k).map (f k) := by
  ext b
  rw [← mem_entries, mapValues]
  simp only [List.mem_map, Prod.mk.injEq, Prod.exists, mem_entries, Option.map_eq_some_iff]
  constructor
  · rintro ⟨j, a, h, rfl, rfl⟩
    exact ⟨a, h, rfl⟩
  · rintro ⟨a, h, rfl⟩
    exact ⟨k, a, h, rfl, rfl⟩

/-- A map is known by the values of its keys. -/
theorem ext_get? {m n : SortedMap κ α} (h : ∀ k, m.get? k = n.get? k) : m = n := by
  have hnodup : ∀ m : SortedMap κ α, m.entries.Nodup :=
    fun m => (List.pairwise_map.1 m.increasing.nodup_keys).imp fun hne heq => hne (by rw [heq])
  have hmem : ∀ e, e ∈ m.entries ↔ e ∈ n.entries := by
    rintro ⟨k, a⟩
    rw [mem_entries, mem_entries, h]
  refine ext_entries (List.Perm.eq_of_pairwise (fun a b _ _ hab hba => ?_) m.increasing n.increasing
    ((List.perm_ext_iff_of_nodup (hnodup m) (hnodup n)).2 hmem))
  have := Std.OrientedCmp.gt_of_lt hab
  rw [hba] at this
  cases this

theorem erase_of_none {m : SortedMap κ α} {k : κ} (h : m.get? k = none) : m.erase k = m := by
  refine ext_get? fun j => ?_
  rw [get?_erase]
  split
  · rename_i hj
    rw [hj, h]
  · rfl

variable [Std.LawfulEqOrd κ]

theorem get?_insert (m : SortedMap κ α) (k j : κ) (a : α) :
    (m.insert k a).get? j = if j = k then some a else m.get? j :=
  lookup_insertBinding k a j m.entries

@[simp] theorem get?_insert_self (m : SortedMap κ α) (k : κ) (a : α) :
    (m.insert k a).get? k = some a := by
  rw [get?_insert, if_pos rfl]

theorem get?_insert_of_ne (m : SortedMap κ α) {k j : κ} (h : j ≠ k) (a : α) :
    (m.insert k a).get? j = m.get? j := by
  rw [get?_insert, if_neg h]

theorem insert_of_get? {m : SortedMap κ α} {k : κ} {a : α} (h : m.get? k = some a) :
    m.insert k a = m := by
  refine ext_get? fun j => ?_
  rw [get?_insert]
  split
  · rename_i hj
    rw [hj, h]
  · rfl

theorem mapValues_insert (f : κ → α → β) (m : SortedMap κ α) (k : κ) (a : α) :
    (m.insert k a).mapValues f = (m.mapValues f).insert k (f k a) := by
  refine ext_get? fun j => ?_
  rw [get?_mapValues, get?_insert, get?_insert, get?_mapValues]
  split
  · rename_i hj
    rw [hj]
    rfl
  · rfl

theorem get?_alter (m : SortedMap κ α) (k j : κ) (f : Option α → α) :
    (m.alter k f).get? j = if j = k then some (f (m.get? k)) else m.get? j :=
  get?_insert m k j _

theorem get?_foldl_alter (f : β → Option α → α) {entries : List (κ × β)}
    (h : (entries.map (·.1)).Nodup) (m : SortedMap κ α) (k : κ) :
    (entries.foldl (fun m e => m.alter e.1 (f e.2)) m).get? k =
      ((entries.lookup k).map fun b => f b (m.get? k)).or (m.get? k) :=
  foldl_alter get? alter get?_alter f h m k

/-- The map of a list binds a key as the last binding of the key in the list does. -/
theorem get?_ofList (l : List (κ × α)) (k : κ) : (ofList l).get? k = l.reverse.lookup k := by
  rw [ofList, ← List.foldr_reverse]
  induction l.reverse with
  | nil => rfl
  | cons e rest ih =>
    rw [List.foldr_cons, get?_insert, ih, lookup_cons_eq]

theorem get?_ofList_eq_some {l : List (κ × α)} (h : (l.map (·.1)).Nodup) {k : κ} {a : α} :
    (ofList l).get? k = some a ↔ (k, a) ∈ l := by
  have hreverse : (l.reverse.map (·.1)).Nodup := ((List.reverse_perm l).map _).nodup_iff.2 h
  rw [get?_ofList, lookup_eq_some_iff hreverse, List.mem_reverse]

/-- A map has the value of one key, and the values of the others. -/
theorem values_insert_perm (m : SortedMap κ α) (k : κ) (a : α) :
    (m.insert k a).values.Perm (a :: (m.erase k).values) := by
  have hkeys : ∀ {l : List (κ × α)}, Increasing l →
      (insertBinding k a l).Perm ((k, a) :: l.filter fun e => e.1 != k) := by
    intro l
    induction l with
    | nil => intro _; simp [insertBinding]
    | cons e rest ih =>
      intro h
      obtain ⟨j, b⟩ := e
      obtain ⟨hj, hrest⟩ := List.pairwise_cons.1 h
      have hne : ∀ i, compare k i = .lt → i ≠ k := by
        intro i hi
        exact (ne_of_compare (by rw [hi]; decide)).symm
      simp only [insertBinding]
      split
      · rename_i hlt
        have hall : ∀ e ∈ (j, b) :: rest, (e.1 != k) = true := by
          intro e he
          have : e.1 ≠ k := by
            refine hne e.1 ?_
            rcases List.mem_cons.1 he with rfl | he
            · exact hlt
            · exact Std.TransCmp.lt_trans hlt (hj e he)
          simpa using this
        rw [List.filter_eq_self.2 hall]
      · rename_i heq
        have : k = j := Std.LawfulEqOrd.eq_of_compare heq
        subst this
        have hall : ∀ e ∈ rest, (e.1 != k) = true := by
          intro e he
          have : e.1 ≠ k := hne e.1 (hj e he)
          simpa using this
        simp [List.filter_eq_self.2 hall]
      · rename_i hgt
        have hjk : j ≠ k := (ne_of_compare (by rw [hgt]; decide)).symm
        rw [List.filter_cons_of_pos (by simpa using hjk)]
        exact ((ih hrest).cons (j, b)).trans (List.Perm.swap _ _ _)
  exact (hkeys m.increasing).map (·.2)

theorem values_perm_of_get? {m : SortedMap κ α} {k : κ} {a : α} (h : m.get? k = some a) :
    m.values.Perm (a :: (m.erase k).values) := by
  have := values_insert_perm m k a
  rwa [insert_of_get? h] at this

end

end SortedMap

namespace FirstSeen

variable {κ : Type u} {α : Type v} [DecidableEq κ]

theorem mem_keys_alter {m : FirstSeen κ α} {k j : κ} {f : Option α → α} :
    j ∈ (m.alter k f).keys ↔ j = k ∨ j ∈ m.keys := by
  rw [keys_alter]
  split
  · rename_i h
    constructor
    · exact .inr
    · rintro (rfl | h')
      · exact h
      · exact h'
  · rw [List.mem_append, List.mem_singleton, or_comm]

theorem lookup_alterBinding (k : κ) (f : Option α → α) (l : List (κ × α)) (j : κ) :
    (alterBinding k f l).lookup j = if j = k then some (f (l.lookup k)) else l.lookup j := by
  induction l with
  | nil => rw [alterBinding, lookup_cons_eq]; rfl
  | cons e rest ih =>
    obtain ⟨i, a⟩ := e
    rw [alterBinding]
    by_cases hi : i = k
    · subst hi
      rw [if_pos rfl, lookup_cons_eq, lookup_cons_eq, lookup_cons_eq, if_pos rfl]
      split <;> rfl
    · rw [if_neg hi, lookup_cons_eq, lookup_cons_eq, lookup_cons_eq, ih, if_neg (Ne.symm hi)]
      by_cases hj : j = i
      · rw [if_pos hj, if_pos hj, if_neg (hj ▸ hi)]
      · rw [if_neg hj, if_neg hj]

theorem get?_alter (m : FirstSeen κ α) (k j : κ) (f : Option α → α) :
    (m.alter k f).get? j = if j = k then some (f (m.get? k)) else m.get? j :=
  lookup_alterBinding k f m.entries j

@[simp] theorem get?_empty (k : κ) : (∅ : FirstSeen κ α).get? k = none := rfl

theorem isSome_get? {m : FirstSeen κ α} {k : κ} : (m.get? k).isSome ↔ k ∈ m.keys := by
  rw [Option.isSome_iff_exists, keys, List.mem_map]
  constructor
  · rintro ⟨a, ha⟩
    exact ⟨(k, a), (lookup_eq_some_iff m.distinct).1 ha, rfl⟩
  · rintro ⟨⟨_, a⟩, hmem, rfl⟩
    exact ⟨a, (lookup_eq_some_iff m.distinct).2 hmem⟩

/-- Each key of a list of bindings is altered once. -/
theorem get?_foldl_alter {β : Type w} (f : β → Option α → α) {entries : List (κ × β)}
    (h : (entries.map (·.1)).Nodup) (m : FirstSeen κ α) (k : κ) :
    (entries.foldl (fun m e => m.alter e.1 (f e.2)) m).get? k =
      ((entries.lookup k).map fun b => f b (m.get? k)).or (m.get? k) :=
  foldl_alter get? alter get?_alter f h m k

theorem keys_prefix_alter (m : FirstSeen κ α) (k : κ) (f : Option α → α) :
    m.keys <+: (m.alter k f).keys := by
  rw [keys_alter]
  split
  · exact List.prefix_refl _
  · exact List.prefix_append _ _

theorem mem_keys_foldl_alter {β : Type w} {f : β → Option α → α} {entries : List (κ × β)}
    {m : FirstSeen κ α} {k : κ} :
    k ∈ (entries.foldl (fun m e => m.alter e.1 (f e.2)) m).keys ↔
      k ∈ m.keys ∨ k ∈ entries.map (·.1) := by
  induction entries generalizing m with
  | nil => simp
  | cons e rest ih =>
    rw [List.foldl_cons, ih, mem_keys_alter, List.map_cons, List.mem_cons, or_assoc, or_left_comm]

theorem keys_prefix_foldl_alter {β : Type w} (f : β → Option α → α) (entries : List (κ × β))
    (m : FirstSeen κ α) : m.keys <+: (entries.foldl (fun m e => m.alter e.1 (f e.2)) m).keys := by
  induction entries generalizing m with
  | nil => exact List.prefix_refl _
  | cons e rest ih => exact (m.keys_prefix_alter _ _).trans (ih _)

/-- Changing values of keys that are there adds no key. -/
theorem keys_foldl_alter_of_mem {β : Type w} {f : β → Option α → α} {entries : List (κ × β)}
    {m : FirstSeen κ α} (h : ∀ e ∈ entries, e.1 ∈ m.keys) :
    (entries.foldl (fun m e => m.alter e.1 (f e.2)) m).keys = m.keys := by
  induction entries generalizing m with
  | nil => rfl
  | cons e rest ih =>
    have hkeys : (m.alter e.1 (f e.2)).keys = m.keys := by
      rw [keys_alter, if_pos (h e List.mem_cons_self)]
    rw [List.foldl_cons, ih fun e' he' => by rw [hkeys]; exact h e' (List.mem_cons_of_mem _ he'),
      hkeys]

/-- New keys go to the end in their order. -/
theorem keys_foldl_alter_of_new {β : Type w} {f : β → Option α → α} {entries : List (κ × β)}
    {m : FirstSeen κ α} (hnodup : (m.keys ++ entries.map (·.1)).Nodup) :
    (entries.foldl (fun m e => m.alter e.1 (f e.2)) m).keys = m.keys ++ entries.map (·.1) := by
  induction entries generalizing m with
  | nil => rw [List.map_nil, List.append_nil, List.foldl_nil]
  | cons e rest ih =>
    have hnew : e.1 ∉ m.keys := fun hmem =>
      (List.nodup_append.1 hnodup).2.2 _ hmem _ (List.mem_map_of_mem List.mem_cons_self) rfl
    have hkeys : (m.alter e.1 (f e.2)).keys = m.keys ++ [e.1] := by
      rw [keys_alter, if_neg hnew]
    have hall : m.keys ++ (e :: rest).map (·.1) = (m.keys ++ [e.1]) ++ rest.map (·.1) := by
      rw [List.map_cons, List.append_assoc, List.singleton_append]
    rw [hall] at hnodup ⊢
    rw [List.foldl_cons, ih (by rw [hkeys]; exact hnodup), hkeys]

theorem mem_entries {m : FirstSeen κ α} {k : κ} {a : α} :
    (k, a) ∈ m.entries ↔ m.get? k = some a :=
  (lookup_eq_some_iff m.distinct).symm

theorem get?_map {β : Type v} (f : κ → α → β) (m : FirstSeen κ α) (k : κ) :
    (m.map f).get? k = (m.get? k).map (f k) := by
  ext b
  rw [← mem_entries, map]
  simp only [List.mem_map, Prod.mk.injEq, Prod.exists, mem_entries, Option.map_eq_some_iff]
  constructor
  · rintro ⟨j, a, h, rfl, rfl⟩
    exact ⟨a, h, rfl⟩
  · rintro ⟨a, h, rfl⟩
    exact ⟨k, a, h, rfl, rfl⟩

/-- Keys in their order and the values of the keys determine a map. -/
theorem ext_get? {m n : FirstSeen κ α} (hkeys : m.keys = n.keys)
    (h : ∀ k, m.get? k = n.get? k) : m = n := by
  have hentries : ∀ m : FirstSeen κ α,
      m.entries.map (fun e => (e.1, some e.2)) = m.keys.map fun k => (k, m.get? k) := by
    intro m
    rw [keys, List.map_map]
    refine List.map_congr_left fun e he => ?_
    rw [Function.comp_apply, mem_entries.1 he]
  have heq : m.entries.map (fun e => (e.1, some e.2)) =
      n.entries.map fun e => (e.1, some e.2) := by
    rw [hentries, hentries, hkeys, funext h]
  refine ext_entries ((List.map_inj_right fun a b hab => ?_).1 heq)
  rw [Prod.mk.injEq, Option.some.injEq] at hab
  exact Prod.ext hab.1 hab.2

omit [DecidableEq κ] in
theorem nodup_keys (m : FirstSeen κ α) : m.keys.Nodup := m.distinct

omit [DecidableEq κ] in
theorem keys_map {β : Type v} (f : κ → α → β) (m : FirstSeen κ α) : (m.map f).keys = m.keys := by
  simp [map, keys, Function.comp_def]

end FirstSeen

end GraphExport
