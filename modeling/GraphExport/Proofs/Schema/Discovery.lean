import Mathlib.Data.List.Basic
import Mathlib.Order.BoundedOrder.Basic
import Mathlib.Order.Lattice
import GraphExport.Proofs.Schema.Columns
import GraphExport.Schema.Collection

/-!
# GraphExport.Proofs.Schema.Discovery

What is known of a label does not depend on who saw which element, in which order, and in which
order that knowledge was brought together.

* `DataType` is a join semilattice under `widen`, with the type of null at the bottom.
* `Column.Summarizes`: a column tells of a list of values what there is to tell. `observe` adds a
  value to the list, `union` puts two lists together, and the order of the list does not matter.
* `LabelSchema.Surveys`: the same for a schema and a list of property maps.
* `Collection.Surveys`: the same for the schemas of all labels and a list of elements.
* `LabelSchema.Surveys.discovers`: what a schema holds that surveys a list of maps.
* `Discovery`: a way to record maps in schemas and to put the schemas together.
-/

namespace GraphExport

/-! ## Types -/

namespace DataType

theorem mem_all (t : DataType) : t ∈ all := by
  cases t <;> decide

theorem widen_self (a : DataType) : widen a a = a := if_pos rfl

theorem widen_comm (a b : DataType) : widen a b = widen b a := by
  have h : ∀ a ∈ all, ∀ b ∈ all, widen a b = widen b a := by decide
  exact h a (mem_all a) b (mem_all b)

theorem widen_assoc (a b c : DataType) : widen (widen a b) c = widen a (widen b c) := by
  have h : ∀ a ∈ all, ∀ b ∈ all, ∀ c ∈ all, widen (widen a b) c = widen a (widen b c) := by
    decide +kernel
  exact h a (mem_all a) b (mem_all b) c (mem_all c)

theorem none_widen (a : DataType) : widen .none a = a := by
  cases a <;> rfl

instance : Max DataType := ⟨widen⟩

/-- A type is below those that it widens to. -/
instance : SemilatticeSup DataType := SemilatticeSup.mk' widen_comm widen_assoc widen_self

instance : OrderBot DataType where
  bot := .none
  bot_le a := sup_eq_right.1 (none_widen a)

theorem widen_le_iff {a b c : DataType} : widen a b ≤ c ↔ a ≤ c ∧ b ≤ c := sup_le_iff

theorem foldl_widen_le_iff {l : List DataType} {a b : DataType} :
    l.foldl widen a ≤ b ↔ a ≤ b ∧ ∀ t ∈ l, t ≤ b := by
  induction l generalizing a with
  | nil => simp
  | cons t rest ih => rw [List.foldl_cons, ih, widen_le_iff, List.forall_mem_cons, and_assoc]

theorem rank_lt (t : DataType) : t.rank < 10 := by
  cases t <;> decide

theorem rank_inj {t u : DataType} (h : t.rank = u.rank) : t = u := by
  have hall : ∀ t ∈ all, ∀ u ∈ all, t.rank = u.rank → t = u := by decide
  exact hall t (mem_all t) u (mem_all u) h

theorem exists_rank {i : Nat} (h : i < 10) : ∃ t : DataType, t.rank = i := by
  have hall : ∀ i < 10, ∃ t ∈ all, t.rank = i := by decide
  obtain ⟨t, -, ht⟩ := hall i h
  exact ⟨t, ht⟩

end DataType

namespace TypeSet

@[simp] theorem contains_empty (t : DataType) : (∅ : TypeSet).contains t = false :=
  BitVec.getLsbD_zero

theorem contains_insert {s : TypeSet} {t u : DataType} :
    (s.insert t).contains u = true ↔ u = t ∨ s.contains u = true := by
  simp only [insert, contains, BitVec.getLsbD_or, BitVec.getLsbD_twoPow, Bool.or_eq_true,
    Bool.and_eq_true, decide_eq_true_eq]
  constructor
  · rintro (h | ⟨-, h⟩)
    · exact .inr h
    · exact .inl (DataType.rank_inj h.symm)
  · rintro (rfl | h)
    · exact .inr ⟨u.rank_lt, rfl⟩
    · exact .inl h

theorem mem_toList {s : TypeSet} {t : DataType} : t ∈ s.toList ↔ s.contains t = true := by
  simp [toList, DataType.mem_all]

theorem ext_contains {s s' : TypeSet} (h : ∀ t, s.contains t = true ↔ s'.contains t = true) :
    s = s' := by
  obtain ⟨bits⟩ := s
  obtain ⟨bits'⟩ := s'
  congr 1
  refine BitVec.eq_of_getLsbD_eq fun i hi => ?_
  obtain ⟨t, rfl⟩ := DataType.exists_rank hi
  exact Bool.eq_iff_iff.2 (h t)

/-- The narrowest type that all types of a set widen to. -/
def join (s : TypeSet) : DataType := s.toList.foldl DataType.widen .none

theorem join_le_iff {s : TypeSet} {b : DataType} :
    s.join ≤ b ↔ ∀ t, s.contains t = true → t ≤ b := by
  rw [join, DataType.foldl_widen_le_iff, and_iff_right (show DataType.none ≤ b from bot_le)]
  simp only [mem_toList]

end TypeSet

/-! ## Columns -/

namespace Column

/-- The column tells of these values: the types that they have, that of null apart, with their join,
whether there is a list among them, and how many they are. -/
structure Summarizes (c : Column) (values : List Json) : Prop where
  types : ∀ t, c.types.contains t = true ↔ t ≠ .none ∧ ∃ v ∈ values, DataType.ofValue v = t
  dataType : c.dataType = c.types.join
  multiValue : c.multiValue = true ↔ ∃ v ∈ values, v.isArray = true
  unmarked : c.markedNullable = false
  observations : c.observations = values.length

theorem summarizes_new : Summarizes {} [] where
  types t := by simp
  dataType := rfl
  multiValue := by simp
  unmarked := rfl
  observations := rfl

/-- The type of a column is the join of its types. -/
def Joined (c : Column) : Prop := c.dataType = c.types.join

theorem contains_recordType {c : Column} {t u : DataType} :
    (c.recordType t).types.contains u = true ↔
      c.types.contains u = true ∨ (u = t ∧ t ≠ .none) := by
  unfold recordType
  split
  · rename_i h
    simp [h]
  · rename_i h
    rw [TypeSet.contains_insert, or_comm, and_iff_left h]

theorem Joined.recordType {c : Column} (h : c.Joined) (t : DataType) : (c.recordType t).Joined := by
  unfold Column.recordType
  split
  · exact h
  · refine eq_of_forall_ge_iff fun b => ?_
    rw [DataType.widen_le_iff, show c.dataType = c.types.join from h, TypeSet.join_le_iff,
      TypeSet.join_le_iff]
    simp only [TypeSet.contains_insert, or_imp, forall_and, forall_eq]
    exact and_comm

theorem recordType_rest (c : Column) (t : DataType) :
    (c.recordType t).multiValue = c.multiValue ∧
      (c.recordType t).markedNullable = c.markedNullable ∧
        (c.recordType t).observations = c.observations := by
  unfold recordType
  split <;> exact ⟨rfl, rfl, rfl⟩

/-- Recording types one after the other touches nothing but the types and their join. -/
theorem foldl_recordType (l : List DataType) {c : Column} (h : c.Joined) :
    (l.foldl recordType c).Joined ∧
      (∀ u, (l.foldl recordType c).types.contains u = true ↔
        c.types.contains u = true ∨ (u ∈ l ∧ u ≠ .none)) ∧
      (l.foldl recordType c).multiValue = c.multiValue ∧
      (l.foldl recordType c).markedNullable = c.markedNullable ∧
      (l.foldl recordType c).observations = c.observations := by
  induction l generalizing c with
  | nil => exact ⟨h, fun u => by simp, rfl, rfl, rfl⟩
  | cons t rest ih =>
    obtain ⟨hjoined, hcontains, hmulti, hmarked, hcount⟩ := ih (h.recordType t)
    obtain ⟨hmulti', hmarked', hcount'⟩ := recordType_rest c t
    refine ⟨hjoined, fun u => ?_, hmulti.trans hmulti', hmarked.trans hmarked',
      hcount.trans hcount'⟩
    rw [List.foldl_cons, hcontains, contains_recordType, List.mem_cons, or_assoc]
    refine or_congr_right ?_
    constructor
    · rintro (⟨rfl, hne⟩ | ⟨hmem, hne⟩)
      · exact ⟨.inl rfl, hne⟩
      · exact ⟨.inr hmem, hne⟩
    · rintro ⟨rfl | hmem, hne⟩
      · exact .inl ⟨rfl, hne⟩
      · exact .inr ⟨hmem, hne⟩

namespace Summarizes

variable {c c' : Column} {values values' : List Json}

theorem observe (h : c.Summarizes values) (v : Json) :
    (c.observe v).Summarizes (values ++ [v]) where
  types t := by
    show ((Column.recordType _ _).types.contains t = true) ↔ _
    rw [contains_recordType, h.types]
    simp only [List.mem_append, List.mem_singleton, or_and_right, exists_or, exists_eq_left,
      and_or_left]
    refine or_congr_right ?_
    constructor
    · rintro ⟨rfl, hne⟩
      exact ⟨hne, rfl⟩
    · rintro ⟨hne, rfl⟩
      exact ⟨rfl, hne⟩
  dataType := by
    have hjoined : Joined { c with multiValue := c.multiValue || v.isArray } := h.dataType
    exact hjoined.recordType (.ofValue v)
  multiValue := by
    have hmulti : (c.observe v).multiValue = (c.multiValue || v.isArray) :=
      (recordType_rest _ _).1
    rw [hmulti, Bool.or_eq_true, h.multiValue]
    simp [or_and_right, exists_or]
  unmarked := (recordType_rest _ _).2.1.trans h.unmarked
  observations := by
    have hcount : (c.observe v).observations = c.observations + 1 :=
      congrArg (· + 1) (recordType_rest _ _).2.2
    rw [hcount, h.observations]
    simp

theorem union (h : c.Summarizes values) (h' : c'.Summarizes values') :
    (c.union c').Summarizes (values ++ values') := by
  obtain ⟨hjoined, hcontains, hmulti, hmarked, hcount⟩ :=
    foldl_recordType c'.types.toList (show c.Joined from h.dataType)
  have htypes : ∀ t, (c.union c').types.contains t = true ↔
      c.types.contains t = true ∨ c'.types.contains t = true := by
    intro t
    show (c'.types.toList.foldl recordType c).types.contains t = true ↔ _
    rw [hcontains, TypeSet.mem_toList, and_iff_left_of_imp fun ht => ((h'.types t).1 ht).1]
  refine ⟨fun t => ?_, ?_, ?_, ?_, ?_⟩
  · rw [htypes, h.types, h'.types]
    simp [or_and_right, exists_or, and_or_left]
  · -- The type of the other column adds nothing to the types of it that were recorded.
    refine eq_of_forall_ge_iff fun b => ?_
    show DataType.widen (c'.types.toList.foldl recordType c).dataType c'.dataType ≤ b ↔ _
    rw [DataType.widen_le_iff, show _ = TypeSet.join _ from hjoined, h'.dataType,
      TypeSet.join_le_iff, TypeSet.join_le_iff, TypeSet.join_le_iff]
    refine and_iff_left_of_imp fun hle t ht => hle t ?_
    exact (htypes t).2 (.inr ht)
  · show ((c'.types.toList.foldl recordType c).multiValue || c'.multiValue) = true ↔ _
    rw [hmulti, Bool.or_eq_true, h.multiValue, h'.multiValue]
    simp [or_and_right, exists_or]
  · show ((c'.types.toList.foldl recordType c).markedNullable || c'.markedNullable) = false
    rw [hmarked, h.unmarked, h'.unmarked]
    rfl
  · show (c'.types.toList.foldl recordType c).observations + c'.observations = _
    rw [hcount, h.observations, h'.observations, List.length_append]

theorem perm (h : c.Summarizes values) (hperm : values.Perm values') : c.Summarizes values' where
  types t := by simp only [h.types t, hperm.mem_iff]
  dataType := h.dataType
  multiValue := by simp only [h.multiValue, hperm.mem_iff]
  unmarked := h.unmarked
  observations := h.observations.trans hperm.length_eq

/-- The values leave no choice. -/
theorem unique (h : c.Summarizes values) (h' : c'.Summarizes values) : c = c' := by
  have htypes : c.types = c'.types :=
    TypeSet.ext_contains fun t => (h.types t).trans (h'.types t).symm
  have hdata : c.dataType = c'.dataType := by rw [h.dataType, h'.dataType, htypes]
  have hmulti : c.multiValue = c'.multiValue :=
    Bool.eq_iff_iff.2 (h.multiValue.trans h'.multiValue.symm)
  have hmarked := h.unmarked.trans h'.unmarked.symm
  have hcount := h.observations.trans h'.observations.symm
  cases c
  cases c'
  simp_all

end Summarizes

end Column

/-! ## Schemas -/

/-- The map has a value of the name that is not null. -/
def carries (name : String) (m : PropertyMap) : Bool := (m.get? name).any fun v => !v.isNull

namespace LabelSchema

/-- The values of a name that make a column, one for each map that has one. -/
def valuesOf (allowTokens : Bool) (name : String) (maps : List PropertyMap) : List Json :=
  maps.filterMap fun m => (m.get? name).filter (isRecorded allowTokens name)

/-- The schema counts the maps, and each name has the column that summarizes its values. -/
structure Surveys (s : LabelSchema) (allowTokens : Bool) (maps : List PropertyMap) : Prop where
  count : s.count = maps.length
  present : ∀ name, (s.columns.get? name).isSome ↔ valuesOf allowTokens name maps ≠ []
  column : ∀ name, ((s.columns.get? name).getD {}).Summarizes (valuesOf allowTokens name maps)

theorem surveys_new (label : Label) (allowTokens : Bool) :
    ({ label } : LabelSchema).Surveys allowTokens [] where
  count := rfl
  present name := by simp [valuesOf]
  column name := Column.summarizes_new

theorem get?_update (s : LabelSchema) (properties : PropertyMap) (allowTokens : Bool)
    (name : String) :
    (s.update properties allowTokens).columns.get? name =
      (((properties.get? name).filter (isRecorded allowTokens name)).map
        ((s.columns.get? name).getD {}).observe).or (s.columns.get? name) := by
  rw [← SortedMap.get?_filter]
  exact FirstSeen.get?_foldl_alter (fun (v : Json) (c : Option Column) => (c.getD {}).observe v)
    (properties.filter (isRecorded allowTokens)).increasing.nodup_keys s.columns name

theorem get?_union (s other : LabelSchema) (name : String) :
    (s.union other).columns.get? name =
      ((other.columns.get? name).map ((s.columns.get? name).getD {}).union).or
        (s.columns.get? name) :=
  FirstSeen.get?_foldl_alter (fun (c : Column) (old : Option Column) => (old.getD {}).union c)
    other.columns.distinct s.columns name

namespace Surveys

variable {s s' : LabelSchema} {allowTokens : Bool} {maps maps' : List PropertyMap}

theorem update (h : s.Surveys allowTokens maps) (m : PropertyMap) :
    (s.update m allowTokens).Surveys allowTokens (maps ++ [m]) := by
  have hvalues : ∀ name, valuesOf allowTokens name (maps ++ [m]) = valuesOf allowTokens name maps ++
      ((m.get? name).filter (isRecorded allowTokens name)).toList := by
    intro name
    simp only [valuesOf, List.filterMap_append, List.filterMap_cons, List.filterMap_nil]
    cases (m.get? name).filter (isRecorded allowTokens name) <;> rfl
  refine ⟨?_, fun name => ?_, fun name => ?_⟩
  · show s.count + 1 = _
    rw [h.count, List.length_append, List.length_singleton]
  · rw [get?_update, hvalues]
    cases hv : (m.get? name).filter (isRecorded allowTokens name) with
    | none => simpa using h.present name
    | some v => simp
  · rw [get?_update, hvalues]
    cases hv : (m.get? name).filter (isRecorded allowTokens name) with
    | none => simpa using h.column name
    | some v => exact (h.column name).observe v

theorem union (h : s.Surveys allowTokens maps) (h' : s'.Surveys allowTokens maps') :
    (s.union s').Surveys allowTokens (maps ++ maps') := by
  have hvalues : ∀ name, valuesOf allowTokens name (maps ++ maps') =
      valuesOf allowTokens name maps ++ valuesOf allowTokens name maps' :=
    fun name => List.filterMap_append
  have hnone : ∀ {name}, s'.columns.get? name = none → valuesOf allowTokens name maps' = [] := by
    intro name hc
    have hpresent' := h'.present name
    rw [hc] at hpresent'
    simpa using hpresent'
  refine ⟨?_, fun name => ?_, fun name => ?_⟩
  · show s.count + s'.count = _
    rw [h.count, h'.count, List.length_append]
  · have hpresent' := h'.present name
    rw [get?_union, hvalues]
    cases hc : s'.columns.get? name with
    | none =>
      rw [hnone hc, List.append_nil]
      exact h.present name
    | some c =>
      rw [hc] at hpresent'
      have hsome : valuesOf allowTokens name maps' ≠ [] := hpresent'.1 rfl
      exact iff_of_true rfl (List.append_ne_nil_of_right_ne_nil _ hsome)
  · have hcolumn' := h'.column name
    rw [get?_union, hvalues]
    cases hc : s'.columns.get? name with
    | none =>
      rw [hnone hc, List.append_nil]
      exact h.column name
    | some c =>
      rw [hc] at hcolumn'
      exact (h.column name).union hcolumn'

theorem perm (h : s.Surveys allowTokens maps) (hperm : maps.Perm maps') :
    s.Surveys allowTokens maps' := by
  have hvalues : ∀ name,
      (valuesOf allowTokens name maps).Perm (valuesOf allowTokens name maps') :=
    fun name => hperm.filterMap _
  refine ⟨h.count.trans hperm.length_eq, fun name => ?_, fun name =>
    (h.column name).perm (hvalues name)⟩
  rw [h.present name, ne_eq, ne_eq, ← List.length_eq_zero_iff, ← List.length_eq_zero_iff,
    (hvalues name).length_eq]

theorem get?_eq (h : s.Surveys allowTokens maps) (h' : s'.Surveys allowTokens maps)
    (name : String) : s.columns.get? name = s'.columns.get? name := by
  have hcolumn := (h.column name).unique (h'.column name)
  have hpresent := (h.present name).trans (h'.present name).symm
  cases hc : s.columns.get? name <;> cases hc' : s'.columns.get? name <;> simp_all

end Surveys

/-- Counters that have not wrapped around compare like the numbers that they show. -/
theorem counter_lt_iff {s : LabelSchema} {c : Column} (hle : c.observations ≤ s.count)
    (hfits : s.count < UInt64.size) : c.counter < s.counter ↔ c.observations < s.count := by
  rw [Column.counter, counter, UInt64.lt_iff_toNat_lt,
    UInt64.toNat_ofNat_of_lt' (Nat.lt_of_le_of_lt hle hfits), UInt64.toNat_ofNat_of_lt' hfits]

/-- What a schema is defined to hold, map by map. Whether a column may be missing is told by
counters of 64 bits. These are right for any list of maps that a machine with addresses of 64 bits
can hold. -/
structure Discovers (s : LabelSchema) (allowTokens : Bool) (maps : List PropertyMap) : Prop where
  count : s.count = maps.length
  present : ∀ name, name ∈ s.names ↔
    (allowTokens || !isTokenName name) = true ∧ ∃ m ∈ maps, carries name m = true
  observations : ∀ {name c}, s.columns.get? name = some c →
    c.observations = maps.countP (carries name)
  types : ∀ {name c}, s.columns.get? name = some c → ∀ t, c.types.contains t = true ↔
    t ≠ .none ∧ ∃ m ∈ maps, ∃ v, m.get? name = some v ∧ DataType.ofValue v = t
  dataType : ∀ {name c}, s.columns.get? name = some c → c.dataType = c.types.join
  multiValue : ∀ {name c}, s.columns.get? name = some c →
    (c.multiValue = true ↔ ∃ m ∈ maps, ∃ v, m.get? name = some v ∧ v.isArray = true)
  nullable : maps.length < UInt64.size → ∀ {name c}, s.columns.get? name = some c →
    (s.isNullable c = true ↔ ∃ m ∈ maps, carries name m = false)

theorem mem_valuesOf {allowTokens : Bool} {name : String} {maps : List PropertyMap} {v : Json} :
    v ∈ valuesOf allowTokens name maps ↔
      (allowTokens || !isTokenName name) = true ∧
        ∃ m ∈ maps, m.get? name = some v ∧ v.isNull = false := by
  simp only [valuesOf, List.mem_filterMap, Option.filter_eq_some_iff, isRecorded, Bool.and_eq_true,
    Bool.not_eq_true']
  constructor
  · rintro ⟨m, hm, hv, hnull, hallowed⟩
    exact ⟨hallowed, m, hm, hv, hnull⟩
  · rintro ⟨hallowed, m, hm, hv, hnull⟩
    exact ⟨m, hm, hv, hnull, hallowed⟩

theorem valuesOf_ne_nil_iff {allowTokens : Bool} {name : String} {maps : List PropertyMap} :
    valuesOf allowTokens name maps ≠ [] ↔
      (allowTokens || !isTokenName name) = true ∧ ∃ m ∈ maps, carries name m = true := by
  rw [ne_eq, List.eq_nil_iff_forall_not_mem, not_forall_not]
  simp only [mem_valuesOf, carries, Option.any_eq_true, Bool.not_eq_true', exists_and_left]
  refine and_congr_right fun _ => ?_
  constructor
  · rintro ⟨v, m, hm, hv⟩
    exact ⟨m, hm, v, hv⟩
  · rintro ⟨m, hm, v, hv⟩
    exact ⟨v, m, hm, hv⟩

theorem length_valuesOf {allowTokens : Bool} {name : String}
    (h : (allowTokens || !isTokenName name) = true) (maps : List PropertyMap) :
    (valuesOf allowTokens name maps).length = maps.countP (carries name) := by
  rw [valuesOf, List.length_filterMap_eq_countP]
  refine List.countP_congr fun m _ => ?_
  cases hv : m.get? name <;> simp [carries, isRecorded, h, hv, Option.filter_some]

theorem Surveys.discovers {s : LabelSchema} {allowTokens : Bool} {maps : List PropertyMap}
    (h : s.Surveys allowTokens maps) : s.Discovers allowTokens maps := by
  -- A column that is there summarizes its values, and its name is one that may have a column.
  have hcolumn : ∀ {name c}, s.columns.get? name = some c →
      c.Summarizes (valuesOf allowTokens name maps) ∧
        (allowTokens || !isTokenName name) = true := by
    intro name c hc
    have hsummary := h.column name
    have hpresent := h.present name
    rw [hc] at hsummary hpresent
    exact ⟨hsummary, (valuesOf_ne_nil_iff.1 (hpresent.1 rfl)).1⟩
  have hcount : ∀ {name c}, s.columns.get? name = some c →
      c.observations = maps.countP (carries name) := by
    intro name c hc
    obtain ⟨hsummary, hallowed⟩ := hcolumn hc
    rw [hsummary.observations, length_valuesOf hallowed]
  refine ⟨h.count, fun name => ?_, hcount, fun {name c} hc t => ?_,
    fun hc => (hcolumn hc).1.dataType, fun {name c} hc => ?_, fun hfits {name c} hc => ?_⟩
  · rw [← valuesOf_ne_nil_iff, ← h.present name]
    exact FirstSeen.isSome_get?.symm
  · obtain ⟨hsummary, hallowed⟩ := hcolumn hc
    rw [hsummary.types]
    simp only [mem_valuesOf, hallowed, true_and]
    refine and_congr_right fun hne => ?_
    constructor
    · rintro ⟨v, ⟨m, hm, hv, -⟩, rfl⟩
      exact ⟨m, hm, v, hv, rfl⟩
    · rintro ⟨m, hm, v, hv, rfl⟩
      refine ⟨v, ⟨m, hm, hv, ?_⟩, rfl⟩
      cases v <;> first | rfl | exact absurd rfl hne
  · obtain ⟨hsummary, hallowed⟩ := hcolumn hc
    rw [hsummary.multiValue]
    simp only [mem_valuesOf, hallowed, true_and]
    constructor
    · rintro ⟨v, ⟨m, hm, hv, -⟩, harray⟩
      exact ⟨m, hm, v, hv, harray⟩
    · rintro ⟨m, hm, v, hv, harray⟩
      refine ⟨v, ⟨m, hm, hv, ?_⟩, harray⟩
      cases v <;> first | rfl | cases harray
  · obtain ⟨hsummary, -⟩ := hcolumn hc
    have hle : c.observations ≤ s.count := by
      rw [hcount hc, h.count]
      exact List.countP_le_length
    rw [isNullable, hsummary.unmarked, Bool.false_or, decide_eq_true_eq,
      counter_lt_iff hle (h.count.trans_lt hfits), hcount hc, h.count]
    constructor
    · intro hlt
      by_contra hnone
      refine Nat.lt_irrefl maps.length ?_
      rwa [List.countP_eq_length.2 fun m hm => ?_] at hlt
      by_contra hnot
      exact hnone ⟨m, hm, by simpa using hnot⟩
    · rintro ⟨m, hm, hnot⟩
      refine Nat.lt_of_le_of_ne List.countP_le_length fun heq => ?_
      rw [List.countP_eq_length.1 heq m hm] at hnot
      cases hnot

end LabelSchema

/-! ## Collections -/

namespace Collection

/-- The maps of the elements of a label. -/
def mapsOf (label : Label) (elements : List (Label × PropertyMap)) : List PropertyMap :=
  (elements.filter fun e => e.1 = label).map (·.2)

/-- Each label that an element has is there with a schema of its own, which surveys the maps of the
label. -/
structure Surveys (c : Collection) (allowTokens : Bool)
    (elements : List (Label × PropertyMap)) : Prop where
  present : ∀ label, (c.get? label).isSome ↔ mapsOf label elements ≠ []
  label : ∀ {label s}, c.get? label = some s → s.label = label
  schema : ∀ {label s}, c.get? label = some s → s.Surveys allowTokens (mapsOf label elements)

theorem surveys_empty (allowTokens : Bool) : Surveys ∅ allowTokens [] where
  present label := by simp [mapsOf]
  label h := by cases h
  schema h := by cases h

theorem mapsOf_append (label : Label) (elements elements' : List (Label × PropertyMap)) :
    mapsOf label (elements ++ elements') = mapsOf label elements ++ mapsOf label elements' := by
  rw [mapsOf, List.filter_append, List.map_append]
  rfl

/-- A schema widens the one that is there, or takes the place. -/
def widened (s : LabelSchema) (old : Option LabelSchema) : LabelSchema :=
  (old.map (·.union s)).getD s

theorem add_eq_alter (c : Collection) (s : LabelSchema) :
    c.add s = c.alter s.label (widened s) := by
  rw [add]
  congr 1
  funext old
  cases old <;> rfl

theorem get?_union {c other : Collection}
    (h : ∀ {label s}, other.get? label = some s → s.label = label) (label : Label) :
    (c.union other).get? label =
      ((other.get? label).map fun s => widened s (c.get? label)).or (c.get? label) := by
  -- Every schema is added under the key that it has in the other collection.
  have hkeys : c.union other = other.entries.foldl
      (fun (m : Collection) e => m.alter e.1 (widened e.2)) c := by
    rw [union, SortedMap.values, List.foldl_map]
    refine List.foldl_ext _ _ _ fun m e he => ?_
    rw [add_eq_alter, h (SortedMap.mem_entries.1 he)]
  rw [hkeys]
  exact SortedMap.get?_foldl_alter widened other.increasing.nodup_keys c label

namespace Surveys

variable {c c' : Collection} {allowTokens : Bool} {elements elements' : List (Label × PropertyMap)}

theorem mapsOf_eq_nil (h : c.Surveys allowTokens elements) {label : Label}
    (hnone : c.get? label = none) : mapsOf label elements = [] := by
  simpa [hnone] using h.present label

theorem update (h : c.Surveys allowTokens elements) (l : Label) (m : PropertyMap) :
    (c.update l m allowTokens).Surveys allowTokens (elements ++ [(l, m)]) := by
  -- One more map for the label, and nothing new for the others.
  have hself : mapsOf l (elements ++ [(l, m)]) = mapsOf l elements ++ [m] := by
    rw [mapsOf_append]
    simp [mapsOf]
  have hother : ∀ label ≠ l, mapsOf label (elements ++ [(l, m)]) = mapsOf label elements := by
    intro label hne
    rw [mapsOf_append]
    simp [mapsOf, hne.symm]
  have hget : ∀ label, (c.update l m allowTokens).get? label = if label = l then
      some (((c.get? l).getD { label := l }).update m allowTokens) else c.get? label :=
    fun label => SortedMap.get?_alter c l label _
  have hold : ((c.get? l).getD { label := l }).label = l ∧
      ((c.get? l).getD { label := l }).Surveys allowTokens (mapsOf l elements) := by
    cases hc : c.get? l with
    | none =>
      rw [h.mapsOf_eq_nil hc]
      exact ⟨rfl, LabelSchema.surveys_new l allowTokens⟩
    | some s => exact ⟨h.label hc, h.schema hc⟩
  refine ⟨fun label => ?_, fun {label s} hs => ?_, fun {label s} hs => ?_⟩ <;>
    by_cases hl : label = l
  · rw [hget, if_pos hl, hl, hself]
    simp
  · rw [hget, if_neg hl, hother label hl]
    exact h.present label
  · rw [hget, if_pos hl] at hs
    cases hs
    exact hold.1.trans hl.symm
  · rw [hget, if_neg hl] at hs
    exact h.label hs
  · rw [hget, if_pos hl] at hs
    cases hs
    rw [hl, hself]
    exact hold.2.update m
  · rw [hget, if_neg hl] at hs
    rw [hother label hl]
    exact h.schema hs

theorem union (h : c.Surveys allowTokens elements) (h' : c'.Surveys allowTokens elements') :
    (c.union c').Surveys allowTokens (elements ++ elements') := by
  have hschema : ∀ {label s}, (c.union c').get? label = some s →
      s.label = label ∧ s.Surveys allowTokens (mapsOf label (elements ++ elements')) := by
    intro label s hs
    rw [get?_union h'.label] at hs
    rw [mapsOf_append]
    cases hc' : c'.get? label with
    | none =>
      rw [hc'] at hs
      rw [h'.mapsOf_eq_nil hc', List.append_nil]
      exact ⟨h.label hs, h.schema hs⟩
    | some s' =>
      cases hc : c.get? label with
      | none =>
        rw [hc', hc] at hs
        cases hs
        rw [h.mapsOf_eq_nil hc, List.nil_append]
        exact ⟨h'.label hc', h'.schema hc'⟩
      | some t =>
        rw [hc', hc] at hs
        cases hs
        exact ⟨h.label (s := t) hc, (h.schema hc).union (h'.schema hc')⟩
  refine ⟨fun label => ?_, fun hs => (hschema hs).1, fun hs => (hschema hs).2⟩
  rw [get?_union h'.label, Option.isSome_or, Option.isSome_map, Bool.or_eq_true, h.present,
    h'.present, mapsOf_append, ne_eq (_ ++ _), List.append_eq_nil_iff, not_and_or, or_comm]

end Surveys

end Collection

/-! ## Discovery -/

/-- A way to find the schema of a label: maps of properties are recorded in fresh schemas, and
schemas are joined. -/
inductive Discovery where
  | fresh
  | record (before : Discovery) (properties : PropertyMap)
  | join (first second : Discovery)

namespace Discovery

/-- The schema that is found. -/
def schema (label : Label) (allowTokens : Bool) : Discovery → LabelSchema
  | fresh => { label }
  | record before m => (before.schema label allowTokens).update m allowTokens
  | join first second => (first.schema label allowTokens).union (second.schema label allowTokens)

/-- The maps that were recorded anywhere. -/
def maps : Discovery → List PropertyMap
  | fresh => []
  | record before m => before.maps ++ [m]
  | join first second => first.maps ++ second.maps

/-- One schema that records all maps. -/
def central (maps : List PropertyMap) : Discovery := maps.foldl record fresh

theorem label_schema (label : Label) (allowTokens : Bool) (d : Discovery) :
    (d.schema label allowTokens).label = label := by
  induction d with
  | fresh => rfl
  | record before m ih => exact ih
  | join first second ih _ => exact ih

theorem surveys_schema (label : Label) (allowTokens : Bool) (d : Discovery) :
    (d.schema label allowTokens).Surveys allowTokens d.maps := by
  induction d with
  | fresh => exact LabelSchema.surveys_new label allowTokens
  | record before m ih => exact ih.update m
  | join first second ih ih' => exact ih.union ih'

theorem maps_foldl_record (l : List PropertyMap) (d : Discovery) :
    (l.foldl record d).maps = d.maps ++ l := by
  induction l generalizing d with
  | nil => simp
  | cons m rest ih => rw [List.foldl_cons, ih, maps, List.append_assoc, List.singleton_append]

theorem schema_foldl_record (label : Label) (allowTokens : Bool) (l : List PropertyMap)
    (d : Discovery) : (l.foldl record d).schema label allowTokens =
      l.foldl (fun s m => s.update m allowTokens) (d.schema label allowTokens) := by
  induction l generalizing d with
  | nil => rfl
  | cons m rest ih => exact ih _

/-- A schema that is put together in any way knows what one schema knows that records all the maps,
and that is what a schema is defined to hold. -/
theorem distributed_eq_central (label : Label) (allowTokens : Bool) (d : Discovery)
    {maps : List PropertyMap} (h : d.maps.Perm maps) :
    let s := d.schema label allowTokens
    let central := maps.foldl (fun s m => s.update m allowTokens) ({ label } : LabelSchema)
    s.label = central.label ∧ s.count = central.count ∧
      (∀ name, s.columns.get? name = central.columns.get? name) ∧
      (∀ c, s.isNullable c = central.isNullable c) ∧ s.Discovers allowTokens maps := by
  intro s central
  have hcentral : central = (Discovery.central maps).schema label allowTokens :=
    (schema_foldl_record label allowTokens maps fresh).symm
  have hsurvey : s.Surveys allowTokens maps := (surveys_schema label allowTokens d).perm h
  have hsurvey' : central.Surveys allowTokens maps := by
    have := surveys_schema label allowTokens (Discovery.central maps)
    rwa [Discovery.central, maps_foldl_record, ← Discovery.central, ← hcentral] at this
  have hcount : s.count = central.count := hsurvey.count.trans hsurvey'.count.symm
  have hlabel : s.label = central.label := by
    rw [hcentral, label_schema label allowTokens (Discovery.central maps)]
    exact label_schema label allowTokens d
  refine ⟨hlabel, hcount, hsurvey.get?_eq hsurvey', fun c => ?_, hsurvey.discovers⟩
  rw [LabelSchema.isNullable, LabelSchema.isNullable, LabelSchema.counter, hcount]
  rfl

/-- Three maps with a token, a list and a null in them, recorded in two of three schemas. -/
theorem distributed_eq_central_three_maps :
    let first : PropertyMap := .ofList [("a", .int 1), ("~id", .str "k")]
    let second : PropertyMap := .ofList [("a", .arr [.str "x"]), ("b", .null)]
    let third : PropertyMap := .ofList [("b", .bool true)]
    let d := join (record (record fresh first) second) (join fresh (record fresh third))
    let maps := [third, first, second]
    let s := d.schema (.single "t") false
    let central :=
      maps.foldl (fun s m => s.update m false) ({ label := .single "t" } : LabelSchema)
    d.maps.Perm maps ∧ s.names = ["a", "b"] ∧ central.names = ["b", "a"] ∧
      (s.columns.get? "a").map (fun c => (c.dataType, c.types.toList, c.multiValue)) =
        some (.string, [.integer, .string], true) ∧
      s.label = central.label ∧ s.count = central.count ∧
      (∀ name, s.columns.get? name = central.columns.get? name) ∧
      (∀ c, s.isNullable c = central.isNullable c) ∧ s.Discovers false maps := by
  intro first second third d maps
  have hperm : d.maps.Perm maps := @List.perm_append_comm _ [first, second] [third]
  refine ⟨hperm, ?_, ?_, ?_, ?_⟩
  · decide +kernel
  · decide +kernel
  · decide +kernel
  · exact distributed_eq_central (.single "t") false d hperm

end Discovery

end GraphExport
