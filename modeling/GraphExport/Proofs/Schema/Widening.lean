import Mathlib.Algebra.Ring.Nat
import GraphExport.Proofs.Schema.Discovery

/-!
# GraphExport.Proofs.Schema.Widening

A union is an upper bound: it keeps what both sides tell of a column, whatever columns they are.

* `Column.Within`: a column tells no more than another one does. `Column.within_union_left`,
  `Column.within_union_right`: both sides of a union are within it.
* `LabelSchema.Within`: the same for all columns of a schema.
* `Column.counter_observe`, `Column.counter_union`, `LabelSchema.counter_update`,
  `LabelSchema.counter_union`: counters of 64 bits follow the exact numbers.
* `LabelSchema.within_unionAll`, `LabelSchema.observed_unionAll`: the union of several schemas, one
  after the other, is above each of them and adds up their numbers.
-/

namespace GraphExport

namespace Column

/-- All that is told by the column is told by the other one: its type is as wide, all types are
there, and it admits lists if the column does. -/
structure Within (c c' : Column) : Prop where
  dataType : c.dataType ≤ c'.dataType
  types : ∀ t, t ≠ .none → c.types.contains t = true → c'.types.contains t = true
  multiValue : c.multiValue = true → c'.multiValue = true

variable {c c' c'' : Column}

theorem Within.refl (c : Column) : c.Within c := ⟨le_refl _, fun _ _ h => h, id⟩

theorem Within.trans (h : c.Within c') (h' : c'.Within c'') : c.Within c'' where
  dataType := h.dataType.trans h'.dataType
  types t hne ht := h'.types t hne (h.types t hne ht)
  multiValue hm := h'.multiValue (h.multiValue hm)

theorem within_recordType (c : Column) (t : DataType) : c.Within (c.recordType t) where
  dataType := by
    unfold recordType
    split
    · exact le_refl _
    · exact (DataType.widen_le_iff.1 (le_refl _)).1
  types u _ hu := contains_recordType.2 (.inl hu)
  multiValue h := (recordType_rest c t).1.trans h

theorem within_foldl_recordType (l : List DataType) (c : Column) :
    c.Within (l.foldl recordType c) := by
  induction l generalizing c with
  | nil => exact .refl c
  | cons t rest ih => exact (within_recordType c t).trans (ih _)

theorem contains_foldl_recordType {l : List DataType} {t : DataType} (ht : t ∈ l) (hne : t ≠ .none)
    (c : Column) : (l.foldl recordType c).types.contains t = true := by
  induction l generalizing c with
  | nil => cases ht
  | cons u rest ih =>
    rw [List.foldl_cons]
    rcases List.mem_cons.1 ht with rfl | ht
    · exact (within_foldl_recordType rest _).types t hne (contains_recordType.2 (.inr ⟨rfl, hne⟩))
    · exact ih ht _

theorem observations_foldl_recordType (l : List DataType) (c : Column) :
    (l.foldl recordType c).observations = c.observations := by
  induction l generalizing c with
  | nil => rfl
  | cons t rest ih => rw [List.foldl_cons, ih, (recordType_rest c t).2.2]

theorem within_union_left (c c' : Column) : c.Within (c.union c') where
  dataType := (within_foldl_recordType c'.types.toList c).dataType.trans
    (DataType.widen_le_iff.1 (le_refl _)).1
  types := (within_foldl_recordType c'.types.toList c).types
  multiValue h := by
    show ((c'.types.toList.foldl recordType c).multiValue || c'.multiValue) = true
    rw [(within_foldl_recordType c'.types.toList c).multiValue h, Bool.true_or]

theorem within_union_right (c c' : Column) : c'.Within (c.union c') where
  dataType := (DataType.widen_le_iff.1 (le_refl _)).2
  types _ hne ht := contains_foldl_recordType (TypeSet.mem_toList.2 ht) hne c
  multiValue h := by
    show ((c'.types.toList.foldl recordType c).multiValue || c'.multiValue) = true
    rw [h, Bool.or_true]

theorem observations_observe (c : Column) (v : Json) :
    (c.observe v).observations = c.observations + 1 :=
  congrArg (· + 1) (recordType_rest _ _).2.2

@[simp] theorem observations_union (c c' : Column) :
    (c.union c').observations = c.observations + c'.observations := by
  show (c'.types.toList.foldl recordType c).observations + c'.observations = _
  rw [observations_foldl_recordType]

theorem counter_observe (c : Column) (v : Json) : (c.observe v).counter = c.counter + 1 := by
  rw [counter, observations_observe, UInt64.ofNat_add]
  rfl

theorem counter_union (c c' : Column) : (c.union c').counter = c.counter + c'.counter := by
  rw [counter, observations_union, UInt64.ofNat_add]
  rfl

end Column

namespace LabelSchema

/-- Every column of the schema is within the other one's column of its name. -/
def Within (s s' : LabelSchema) : Prop :=
  ∀ name c, s.columns.get? name = some c → ∃ c', s'.columns.get? name = some c' ∧ c.Within c'

/-- The number of elements that carry a property. -/
def observed (s : LabelSchema) (name : String) : Nat :=
  ((s.columns.get? name).map (·.observations)).getD 0

/-- The union of several schemas, one after the other. -/
def unionAll (s : LabelSchema) (l : List LabelSchema) : LabelSchema := l.foldl union s

variable {s s' s'' : LabelSchema}

theorem Within.refl (s : LabelSchema) : s.Within s := fun _ c h => ⟨c, h, .refl c⟩

theorem Within.trans (h : s.Within s') (h' : s'.Within s'') : s.Within s'' := by
  intro name c hc
  obtain ⟨c', hc', hle⟩ := h name c hc
  obtain ⟨c'', hc'', hle'⟩ := h' name c' hc'
  exact ⟨c'', hc'', hle.trans hle'⟩

theorem within_union_left (s other : LabelSchema) : s.Within (s.union other) := by
  intro name c hc
  rw [get?_union, hc]
  cases other.columns.get? name with
  | none => exact ⟨c, rfl, .refl c⟩
  | some c' => exact ⟨_, rfl, Column.within_union_left c c'⟩

theorem within_union_right (s other : LabelSchema) : other.Within (s.union other) := by
  intro name c hc
  rw [get?_union, hc]
  exact ⟨_, rfl, Column.within_union_right _ c⟩

@[simp] theorem count_union (s other : LabelSchema) :
    (s.union other).count = s.count + other.count := rfl

theorem counter_update (s : LabelSchema) (properties : PropertyMap) (allowTokens : Bool) :
    (s.update properties allowTokens).counter = s.counter + 1 := UInt64.ofNat_add s.count 1

theorem counter_union (s other : LabelSchema) :
    (s.union other).counter = s.counter + other.counter := UInt64.ofNat_add s.count other.count

@[simp] theorem observed_union (s other : LabelSchema) (name : String) :
    (s.union other).observed name = s.observed name + other.observed name := by
  unfold observed
  rw [get?_union]
  cases hs : s.columns.get? name <;> cases ho : other.columns.get? name <;> simp

theorem count_unionAll (s : LabelSchema) (l : List LabelSchema) :
    (s.unionAll l).count = s.count + (l.map (·.count)).sum := by
  unfold unionAll
  induction l generalizing s with
  | nil => rfl
  | cons t rest ih =>
    rw [List.foldl_cons, ih, count_union, List.map_cons, List.sum_cons, Nat.add_assoc]

theorem observed_unionAll (s : LabelSchema) (l : List LabelSchema) (name : String) :
    (s.unionAll l).observed name = s.observed name + (l.map (·.observed name)).sum := by
  unfold unionAll
  induction l generalizing s with
  | nil => rfl
  | cons t rest ih =>
    rw [List.foldl_cons, ih, observed_union, List.map_cons, List.sum_cons, Nat.add_assoc]

theorem mem_names_unionAll {l : List LabelSchema} {name : String} :
    name ∈ (s.unionAll l).names ↔ name ∈ s.names ∨ ∃ t ∈ l, name ∈ t.names := by
  unfold unionAll
  induction l generalizing s with
  | nil => simp
  | cons t rest ih =>
    rw [List.foldl_cons, ih, mem_names_union]
    simp [or_assoc]

/-- The union of schemas is above the first and above each of the others. -/
theorem within_unionAll (s : LabelSchema) (l : List LabelSchema) :
    s.Within (s.unionAll l) ∧ ∀ t ∈ l, t.Within (s.unionAll l) := by
  unfold unionAll
  induction l generalizing s with
  | nil => exact ⟨.refl s, by simp⟩
  | cons t rest ih =>
    obtain ⟨hfirst, hrest⟩ := ih (s.union t)
    refine ⟨(s.within_union_left t).trans hfirst, fun t' ht' => ?_⟩
    rcases List.mem_cons.1 ht' with rfl | ht'
    · exact (s.within_union_right t').trans hfirst
    · exact hrest t' ht'

end LabelSchema

end GraphExport
