import Mathlib.Data.List.Forall2
import GraphExport.Proofs.Schema.Widening

/-!
# GraphExport.Proofs.Schema.Seeded

Schemas that have their columns before the elements come. `columnsOf` is what such a schema starts
with, and two schemas with equal `columnsOf` have the same columns.

* `LabelSchema.Foresees`: the schema has a column for each property of a map, wide enough for the
  value. `LabelSchema.columnsOf_updateAll`: maps that are foreseen change no column.
* `LabelSchema.Surveys.foresees`: a schema foresees the maps that it was made from.
* `LabelSchema.union_new`, `LabelSchema.columnsOf_unionAll`: a union of schemas with the same
  columns has these columns.
* `LabelSchema.updateAll_columnsOf`: maps that are recorded again, in the columns that they have
  made, make the same schema.
* `Collection.get?_updateAll`: a collection records the maps of each label in a schema of its own.
-/

namespace GraphExport

/-! ## Columns -/

namespace Column

/-- All that is known of the column but its numbers. -/
def shape (c : Column) : Column :=
  { dataType := c.dataType, types := c.types, multiValue := c.multiValue }

/-- The value is nothing new to the column. -/
structure Admits (c : Column) (v : Json) : Prop where
  types : DataType.ofValue v ≠ .none → c.types.contains (.ofValue v) = true
  dataType : DataType.ofValue v ≤ c.dataType
  multiValue : v.isArray = true → c.multiValue = true

/-- The column is one that values have made: its type is the join of its types, and that of null is
not among them. -/
structure Proper (c : Column) : Prop where
  joined : c.Joined
  typed : ∀ t, c.types.contains t = true → t ≠ .none

variable {c c' : Column} {v : Json}

theorem shape_eq_iff : c.shape = c'.shape ↔
    c.dataType = c'.dataType ∧ c.types = c'.types ∧ c.multiValue = c'.multiValue := by
  simp [shape]

theorem Admits.of_shape (h : c.Admits v) (heq : c.shape = c'.shape) : c'.Admits v := by
  obtain ⟨hdata, htypes, hmulti⟩ := shape_eq_iff.1 heq
  exact ⟨htypes ▸ h.types, hdata ▸ h.dataType, hmulti ▸ h.multiValue⟩

theorem Proper.of_shape (h : c.Proper) (heq : c.shape = c'.shape) : c'.Proper := by
  obtain ⟨hdata, htypes, -⟩ := shape_eq_iff.1 heq
  refine ⟨?_, htypes ▸ h.typed⟩
  rw [Joined, ← hdata, ← htypes]
  exact h.joined

theorem proper_new : ({} : Column).Proper :=
  ⟨rfl, fun t ht => absurd ht (by simp [TypeSet.contains_empty])⟩

theorem Proper.observe (h : c.Proper) (v : Json) : (c.observe v).Proper := by
  have hjoined : Joined { c with multiValue := c.multiValue || v.isArray } := h.joined
  refine ⟨hjoined.recordType (.ofValue v), fun t ht => ?_⟩
  rcases contains_recordType.1 ht with hold | ⟨rfl, hne⟩
  · exact h.typed t hold
  · exact hne

theorem shape_recordType {t : DataType} (htypes : t ≠ .none → c.types.contains t = true)
    (hdata : t ≤ c.dataType) : (c.recordType t).shape = c.shape := by
  unfold recordType
  split
  · rfl
  · rename_i hne
    refine shape_eq_iff.2 ⟨sup_eq_left.2 hdata, TypeSet.ext_contains fun u => ?_, rfl⟩
    rw [TypeSet.contains_insert]
    refine or_iff_right_of_imp ?_
    rintro rfl
    exact htypes hne

theorem shape_observe (h : c.Admits v) : (c.observe v).shape = c.shape := by
  have hmulti : (c.multiValue || v.isArray) = c.multiValue := by
    cases hv : v.isArray with
    | false => exact Bool.or_false _
    | true => rw [h.multiValue hv, Bool.true_or]
  have hshape : (recordType { c with multiValue := c.multiValue || v.isArray } (.ofValue v)).shape =
      c.shape := by
    rw [hmulti]
    exact shape_recordType h.types h.dataType
  exact hshape

/-- A first union takes over what values have made. -/
theorem union_new (h : c.Proper) : ({} : Column).union c = c := by
  obtain ⟨hjoined, hcontains, hmulti, hmarked, hcount⟩ :=
    foldl_recordType c.types.toList (show Joined {} from rfl)
  have htypes : (c.types.toList.foldl recordType {}).types = c.types := by
    refine TypeSet.ext_contains fun t => ?_
    rw [hcontains, TypeSet.mem_toList, TypeSet.contains_empty]
    simpa using h.typed t
  have hdata : (c.types.toList.foldl recordType {}).dataType = c.dataType := by
    rw [show _ = TypeSet.join _ from hjoined, htypes, h.joined]
  simp [union, hdata, htypes, hmulti, hmarked, hcount, DataType.widen_self]

/-- A union with a column of the same shape only adds the numbers. -/
theorem shape_union (h : c.Proper) (heq : c.shape = c'.shape) : (c.union c').shape = c.shape := by
  obtain ⟨hdata, htypes, hmulti⟩ := shape_eq_iff.1 heq
  obtain ⟨hjoined, hcontains, hmulti', -, -⟩ := foldl_recordType c'.types.toList h.joined
  have htypes' : (c'.types.toList.foldl recordType c).types = c.types := by
    refine TypeSet.ext_contains fun t => ?_
    rw [hcontains, TypeSet.mem_toList, ← htypes]
    exact or_iff_left_of_imp And.left
  have hdata' : (c'.types.toList.foldl recordType c).dataType = c.dataType := by
    rw [show _ = TypeSet.join _ from hjoined, htypes', h.joined]
  refine shape_eq_iff.2 ⟨?_, htypes', ?_⟩
  · show DataType.widen (c'.types.toList.foldl recordType c).dataType c'.dataType = _
    rw [hdata', ← hdata, DataType.widen_self]
  · show ((c'.types.toList.foldl recordType c).multiValue || c'.multiValue) = _
    rw [hmulti', ← hmulti, Bool.or_self]

end Column

/-! ## Schemas -/

namespace LabelSchema

variable {s s' : LabelSchema} {allowTokens : Bool} {maps : List PropertyMap} {m : PropertyMap}

theorem get?_columnsOf (s : LabelSchema) (name : String) :
    s.columnsOf.columns.get? name = (s.columns.get? name).map Column.shape :=
  FirstSeen.get?_map _ _ _

theorem columnsOf_ext (hlabel : s.label = s'.label) (hnames : s.names = s'.names)
    (hget : ∀ name, (s.columns.get? name).map Column.shape =
      (s'.columns.get? name).map Column.shape) : s.columnsOf = s'.columnsOf := by
  have hcolumns : s.columnsOf.columns = s'.columnsOf.columns := by
    refine FirstSeen.ext_get? ?_ fun name => ?_
    · show s.columnsOf.names = s'.columnsOf.names
      rw [names_columnsOf, names_columnsOf, hnames]
    · rw [get?_columnsOf, get?_columnsOf, hget]
  exact congrArg₂ (fun label columns => ({ label, columns } : LabelSchema)) hlabel hcolumns

theorem names_of_columnsOf_eq (h : s.columnsOf = s'.columnsOf) : s.names = s'.names := by
  rw [← names_columnsOf s, h, names_columnsOf]

/-- Where the columns are the same, a column on one side has its like on the other. -/
theorem exists_of_columnsOf_eq (h : s.columnsOf = s'.columnsOf) {name : String} {c : Column}
    (hc : s.columns.get? name = some c) :
    ∃ c', s'.columns.get? name = some c' ∧ c.shape = c'.shape := by
  have hget := get?_columnsOf s' name
  rw [← h, get?_columnsOf, hc, Option.map_some, eq_comm, Option.map_eq_some_iff] at hget
  obtain ⟨c', hc', heq⟩ := hget
  exact ⟨c', hc', heq.symm⟩

@[simp] theorem columnsOf_columnsOf (s : LabelSchema) : s.columnsOf.columnsOf = s.columnsOf := by
  refine columnsOf_ext rfl (names_columnsOf s) fun name => ?_
  rw [get?_columnsOf, Option.map_map]
  rfl

theorem csvHeader_columnsOf (kind : OutputKind) (label : Label) (s : LabelSchema) :
    csvHeader kind label s.columnsOf = csvHeader kind label s := by
  simp only [csvHeader, columnsOf, FirstSeen.map, List.map_map, Function.comp_def, columnTitle]

theorem sameColumns_of_columnsOf_eq (h : s.columnsOf = s'.columnsOf) :
    s.sameColumns s' = true := by
  have hall : ∀ s : LabelSchema,
      s.columns.entries.map (fun e => (e.1, e.2.dataType, e.2.multiValue)) =
        s.columnsOf.columns.entries.map fun e => (e.1, e.2.dataType, e.2.multiValue) := by
    intro s
    simp only [columnsOf, FirstSeen.map, List.map_map, Function.comp_def]
  rw [sameColumns, decide_eq_true_eq, hall, h, ← hall]

/-- The schema has a column for each property of the map, and the values are nothing new there. -/
def Foresees (s : LabelSchema) (allowTokens : Bool) (m : PropertyMap) : Prop :=
  ∀ name v, m.get? name = some v → isRecorded allowTokens name v = true →
    ∃ c, s.columns.get? name = some c ∧ c.Admits v

theorem Foresees.of_columnsOf_eq (hm : s.Foresees allowTokens m) (h : s.columnsOf = s'.columnsOf) :
    s'.Foresees allowTokens m := by
  intro name v hv hrecorded
  obtain ⟨c, hc, hadmits⟩ := hm name v hv hrecorded
  obtain ⟨c', hc', heq⟩ := exists_of_columnsOf_eq h hc
  exact ⟨c', hc', hadmits.of_shape heq⟩

/-- A map that is foreseen changes no column. -/
theorem columnsOf_update (h : s.Foresees allowTokens m) :
    (s.update m allowTokens).columnsOf = s.columnsOf := by
  refine columnsOf_ext rfl ?_ fun name => ?_
  · refine FirstSeen.keys_foldl_alter_of_mem
      (f := fun (v : Json) (c : Option Column) => (c.getD {}).observe v) fun e he => ?_
    obtain ⟨name, v⟩ := e
    rw [SortedMap.mem_entries, SortedMap.get?_filter, Option.filter_eq_some_iff] at he
    obtain ⟨c, hc, -⟩ := h name v he.1 he.2
    rw [← FirstSeen.isSome_get?, hc]
    rfl
  · rw [get?_update]
    cases hv : (m.get? name).filter (isRecorded allowTokens name) with
    | none => rfl
    | some v =>
      obtain ⟨hget, hrecorded⟩ := Option.filter_eq_some_iff.1 hv
      obtain ⟨c, hc, hadmits⟩ := h name v hget hrecorded
      rw [hc]
      exact congrArg some (Column.shape_observe hadmits)

/-- The schema after some maps. -/
def updateAll (s : LabelSchema) (allowTokens : Bool) (maps : List PropertyMap) : LabelSchema :=
  maps.foldl (fun s m => s.update m allowTokens) s

theorem label_updateAll (s : LabelSchema) (allowTokens : Bool) (maps : List PropertyMap) :
    (s.updateAll allowTokens maps).label = s.label := by
  unfold updateAll
  induction maps generalizing s with
  | nil => rfl
  | cons m rest ih => exact ih _

/-- Maps that are foreseen change no column. -/
theorem columnsOf_updateAll (h : ∀ m ∈ maps, s.Foresees allowTokens m) :
    (s.updateAll allowTokens maps).columnsOf = s.columnsOf := by
  unfold updateAll
  induction maps generalizing s with
  | nil => rfl
  | cons m rest ih =>
    have hm := columnsOf_update (h m List.mem_cons_self)
    rw [List.foldl_cons, ih fun m' hm' =>
      (h m' (List.mem_cons_of_mem _ hm')).of_columnsOf_eq hm.symm, hm]

/-- The columns of the schema are ones that values have made. -/
def Proper (s : LabelSchema) : Prop := ∀ name c, s.columns.get? name = some c → c.Proper

theorem Proper.of_columnsOf_eq (hs : s.Proper) (h : s.columnsOf = s'.columnsOf) : s'.Proper := by
  intro name c' hc'
  obtain ⟨c, hc, heq⟩ := exists_of_columnsOf_eq h.symm hc'
  exact (hs name c hc).of_shape heq.symm

theorem Proper.update (hs : s.Proper) (m : PropertyMap) (allowTokens : Bool) :
    (s.update m allowTokens).Proper := by
  intro name c hc
  rw [get?_update] at hc
  cases hv : (m.get? name).filter (isRecorded allowTokens name) with
  | none =>
    rw [hv] at hc
    exact hs name c hc
  | some v =>
    rw [hv] at hc
    obtain rfl := Option.some.inj hc
    refine Column.Proper.observe ?_ v
    cases hold : s.columns.get? name with
    | none => exact Column.proper_new
    | some c => exact hs name c hold

theorem Proper.updateAll (hs : s.Proper) (allowTokens : Bool) (maps : List PropertyMap) :
    (s.updateAll allowTokens maps).Proper := by
  unfold LabelSchema.updateAll
  induction maps generalizing s with
  | nil => exact hs
  | cons m rest ih => exact ih (hs.update m allowTokens)

namespace Surveys

theorem summarizes (h : s.Surveys allowTokens maps) {name : String} {c : Column}
    (hc : s.columns.get? name = some c) : c.Summarizes (valuesOf allowTokens name maps) := by
  have := h.column name
  rwa [hc] at this

theorem proper (h : s.Surveys allowTokens maps) : s.Proper := by
  intro name c hc
  have hsummary := h.summarizes hc
  exact ⟨hsummary.dataType, fun t ht => ((hsummary.types t).1 ht).1⟩

/-- A schema foresees the maps that it was made from. -/
theorem foresees (h : s.Surveys allowTokens maps) (hm : m ∈ maps) : s.Foresees allowTokens m := by
  intro name v hv hrecorded
  have hvalue : v ∈ valuesOf allowTokens name maps :=
    List.mem_filterMap.2 ⟨m, hm, Option.filter_eq_some_iff.2 ⟨hv, hrecorded⟩⟩
  obtain ⟨c, hc⟩ := Option.isSome_iff_exists.1
    ((h.present name).2 (List.ne_nil_of_mem hvalue))
  have hsummary := h.summarizes hc
  have htype : DataType.ofValue v ≠ .none → c.types.contains (.ofValue v) = true :=
    fun hne => (hsummary.types _).2 ⟨hne, v, hvalue, rfl⟩
  refine ⟨c, hc, htype, ?_, fun harray => hsummary.multiValue.2 ⟨v, hvalue, harray⟩⟩
  by_cases hne : DataType.ofValue v = .none
  · rw [hne]
    exact bot_le
  · rw [hsummary.dataType]
    exact TypeSet.join_le_iff.1 (le_refl _) _ (htype hne)

end Surveys

theorem surveys_updateAll (label : Label) (allowTokens : Bool) (maps : List PropertyMap) :
    (({ label } : LabelSchema).updateAll allowTokens maps).Surveys allowTokens maps := by
  have hall : ∀ {before : List PropertyMap} {s : LabelSchema}, s.Surveys allowTokens before →
      (s.updateAll allowTokens maps).Surveys allowTokens (before ++ maps) := by
    unfold updateAll
    induction maps with
    | nil =>
      intro before s h
      simpa using h
    | cons m rest ih =>
      intro before s h
      have := ih (h.update m)
      rwa [List.append_assoc] at this
  exact hall (surveys_new label allowTokens)

/-! ## Unions -/

/-- A first union takes over a schema that values have made. -/
theorem union_new (h : s.Proper) : ({ label := s.label } : LabelSchema).union s = s := by
  have hcolumns : (({ label := s.label } : LabelSchema).union s).columns = s.columns := by
    refine FirstSeen.ext_get? ?_ fun name => ?_
    · refine (FirstSeen.keys_foldl_alter_of_new
        (f := fun (c : Column) (old : Option Column) => (old.getD {}).union c)
        (m := (∅ : FirstSeen String Column)) ?_).trans (List.nil_append _)
      exact s.columns.distinct
    · rw [get?_union]
      cases hc : s.columns.get? name with
      | none => rfl
      | some c => exact congrArg some (Column.union_new (h name c hc))
  have hcount : (({ label := s.label } : LabelSchema).union s).count = s.count := Nat.zero_add _
  exact congrArg₂ (fun columns count => ({ label := s.label, columns, count } : LabelSchema))
    hcolumns hcount

theorem columnsOf_union (h : s.Proper) (heq : s.columnsOf = s'.columnsOf) :
    (s.union s').columnsOf = s.columnsOf := by
  refine columnsOf_ext rfl ?_ fun name => ?_
  · refine FirstSeen.keys_foldl_alter_of_mem
      (f := fun (c : Column) (old : Option Column) => (old.getD {}).union c) fun e he => ?_
    show e.1 ∈ s.names
    rw [names_of_columnsOf_eq heq]
    exact List.mem_map_of_mem he
  · rw [get?_union]
    cases hc' : s'.columns.get? name with
    | none => rfl
    | some c' =>
      obtain ⟨c, hc, hshape⟩ := exists_of_columnsOf_eq heq.symm hc'
      rw [hc]
      exact congrArg some (Column.shape_union (h name c hc) hshape.symm)

/-- A union of schemas with the same columns has these columns. -/
theorem columnsOf_unionAll (h : s.Proper) {l : List LabelSchema} (hne : l ≠ [])
    (hall : ∀ t ∈ l, t.columnsOf = s.columnsOf) :
    (({ label := s.label } : LabelSchema).unionAll l).columnsOf = s.columnsOf := by
  have hrest : ∀ {l : List LabelSchema} {t : LabelSchema}, t.columnsOf = s.columnsOf →
      (∀ t ∈ l, t.columnsOf = s.columnsOf) → (t.unionAll l).columnsOf = s.columnsOf := by
    unfold unionAll
    intro l
    induction l with
    | nil => exact fun ht _ => ht
    | cons u rest ih =>
      intro t ht hall
      refine ih ?_ fun t' ht' => hall t' (List.mem_cons_of_mem _ ht')
      rw [columnsOf_union (h.of_columnsOf_eq ht.symm)
        (ht.trans (hall u List.mem_cons_self).symm), ht]
  cases l with
  | nil => exact absurd rfl hne
  | cons t rest =>
    have ht := hall t List.mem_cons_self
    have hlabel : s.label = t.label := (congrArg label ht).symm
    have hfirst := union_new (h.of_columnsOf_eq ht.symm)
    rw [← hlabel] at hfirst
    rw [unionAll, List.foldl_cons, hfirst]
    exact hrest ht fun t' ht' => hall t' (List.mem_cons_of_mem _ ht')

/-! ## Numbers -/

/-- A schema that was read in says that the property may be missing. -/
def marked (s : LabelSchema) (name : String) : Bool :=
  ((s.columns.get? name).map (·.markedNullable)).getD false

theorem count_updateAll (s : LabelSchema) (allowTokens : Bool) (maps : List PropertyMap) :
    (s.updateAll allowTokens maps).count = s.count + maps.length := by
  unfold updateAll
  induction maps generalizing s with
  | nil => rfl
  | cons m rest ih =>
    have hcount : (s.update m allowTokens).count = s.count + 1 := rfl
    rw [List.foldl_cons, ih, hcount, List.length_cons]
    omega

theorem numbers_update (s : LabelSchema) (m : PropertyMap) (allowTokens : Bool) (name : String) :
    (s.update m allowTokens).observed name =
        s.observed name + ((m.get? name).filter (isRecorded allowTokens name)).toList.length ∧
      (s.update m allowTokens).marked name = s.marked name := by
  unfold observed marked
  rw [get?_update]
  cases (m.get? name).filter (isRecorded allowTokens name) with
  | none => exact ⟨rfl, rfl⟩
  | some v =>
    have hmarked : ∀ c : Column, (c.observe v).markedNullable = c.markedNullable :=
      fun c => (Column.recordType_rest _ _).2.1
    cases s.columns.get? name <;> simp [Column.observations_observe, hmarked]

/-- The numbers of a column are those that it had and those of the maps. -/
theorem numbers_updateAll (s : LabelSchema) (allowTokens : Bool) (maps : List PropertyMap)
    (name : String) :
    (s.updateAll allowTokens maps).observed name =
        s.observed name + (valuesOf allowTokens name maps).length ∧
      (s.updateAll allowTokens maps).marked name = s.marked name := by
  unfold updateAll
  induction maps generalizing s with
  | nil => exact ⟨rfl, rfl⟩
  | cons m rest ih =>
    obtain ⟨hobserved, hmarked⟩ := ih (s.update m allowTokens)
    obtain ⟨hobserved', hmarked'⟩ := numbers_update s m allowTokens name
    refine ⟨?_, hmarked.trans hmarked'⟩
    rw [List.foldl_cons, hobserved, hobserved', valuesOf, valuesOf, List.filterMap_cons]
    cases (m.get? name).filter (isRecorded allowTokens name) <;> simp; omega

/-- The columns alone have no numbers. -/
theorem numbers_columnsOf (s : LabelSchema) (name : String) :
    s.columnsOf.observed name = 0 ∧ s.columnsOf.marked name = false := by
  unfold observed marked
  rw [get?_columnsOf]
  cases s.columns.get? name <;> exact ⟨rfl, rfl⟩

/-- A schema is known by its columns and its numbers. -/
theorem ext_numbers (hcolumns : s.columnsOf = s'.columnsOf) (hcount : s.count = s'.count)
    (hobserved : ∀ name, s.observed name = s'.observed name)
    (hmarked : ∀ name, s.marked name = s'.marked name) : s = s' := by
  have hget : s.columns = s'.columns := by
    refine FirstSeen.ext_get? (names_of_columnsOf_eq hcolumns) fun name => ?_
    cases hc : s.columns.get? name with
    | none =>
      cases hc' : s'.columns.get? name with
      | none => rfl
      | some c' =>
        obtain ⟨c, hc'', -⟩ := exists_of_columnsOf_eq hcolumns.symm hc'
        rw [hc] at hc''
        cases hc''
    | some c =>
      obtain ⟨c', hc', hshape⟩ := exists_of_columnsOf_eq hcolumns hc
      have hobserved := hobserved name
      have hmarked := hmarked name
      simp only [observed, marked, hc, hc', Option.map_some, Option.getD_some] at hobserved hmarked
      obtain ⟨hdata, htypes, hmulti⟩ := Column.shape_eq_iff.1 hshape
      rw [hc']
      cases c
      cases c'
      simp_all
  have hlabel : s.label = s'.label := congrArg (·.label) hcolumns
  cases s
  cases s'
  simp_all

/-- Maps that are recorded again, in the columns that they have made, make the same schema. -/
theorem updateAll_columnsOf (label : Label) (allowTokens : Bool) (maps : List PropertyMap) :
    (({ label } : LabelSchema).updateAll allowTokens maps).columnsOf.updateAll allowTokens maps =
      ({ label } : LabelSchema).updateAll allowTokens maps := by
  have hsurvey := surveys_updateAll label allowTokens maps
  have hnumbers := numbers_updateAll ({ label } : LabelSchema) allowTokens maps
  refine ext_numbers ?_ ?_ (fun name => ?_) fun name => ?_
  · rw [columnsOf_updateAll fun m hm => (hsurvey.foresees hm).of_columnsOf_eq
      (columnsOf_columnsOf _).symm, columnsOf_columnsOf]
  · rw [count_updateAll, count_updateAll]
    rfl
  · rw [(numbers_updateAll _ allowTokens maps name).1, (hnumbers name).1,
      (numbers_columnsOf _ name).1]
    rfl
  · rw [(numbers_updateAll _ allowTokens maps name).2, (hnumbers name).2,
      (numbers_columnsOf _ name).2]
    rfl

end LabelSchema

/-! ## Collections -/

namespace Collection

/-- The schemas of all labels after some elements. -/
def updateAll (c : Collection) (allowTokens : Bool) (rows : List (Label × PropertyMap)) :
    Collection :=
  rows.foldl (fun c row => c.update row.1 row.2 allowTokens) c

variable {c : Collection} {allowTokens : Bool}

theorem mapsOf_cons (label : Label) (row : Label × PropertyMap)
    (rows : List (Label × PropertyMap)) :
    mapsOf label (row :: rows) =
      if row.1 = label then row.2 :: mapsOf label rows else mapsOf label rows := by
  unfold mapsOf
  rw [List.filter_cons]
  split
  · rename_i h
    rw [if_pos (by simpa using h), List.map_cons]
  · rename_i h
    rw [if_neg (by simpa using h)]

/-- One more row adds to the maps of its label. -/
theorem mapsOf_concat (label : Label) (rows : List (Label × PropertyMap))
    (row : Label × PropertyMap) :
    mapsOf label (rows ++ [row]) =
      mapsOf label rows ++ if row.1 = label then [row.2] else [] := by
  rw [mapsOf_append]
  exact congrArg (mapsOf label rows ++ ·) (mapsOf_cons label row [])

/-- The schema of a label records the maps of the label, in their order. -/
theorem get?_updateAll (c : Collection) (allowTokens : Bool) (rows : List (Label × PropertyMap))
    (label : Label) : (c.updateAll allowTokens rows).get? label =
      if mapsOf label rows = [] then c.get? label
      else some (((c.get? label).getD { label }).updateAll allowTokens (mapsOf label rows)) := by
  unfold updateAll
  induction rows generalizing c with
  | nil => rfl
  | cons row rest ih =>
    have hget : (c.update row.1 row.2 allowTokens).get? label = if label = row.1 then
        some (((c.get? row.1).getD { label := row.1 }).update row.2 allowTokens)
          else c.get? label := SortedMap.get?_alter c row.1 label _
    rw [List.foldl_cons, ih, hget, mapsOf_cons]
    by_cases hl : row.1 = label
    · subst hl
      simp only [if_true, Option.getD_some, reduceCtorEq, if_false]
      split
      · rename_i hnil
        rw [hnil]
        rfl
      · rfl
    · rw [if_neg hl, if_neg (Ne.symm hl)]

theorem Surveys.updateAll {elements : List (Label × PropertyMap)}
    (h : c.Surveys allowTokens elements) (rows : List (Label × PropertyMap)) :
    (c.updateAll allowTokens rows).Surveys allowTokens (elements ++ rows) := by
  unfold Collection.updateAll
  induction rows generalizing c elements with
  | nil => simpa using h
  | cons row rest ih =>
    have := ih (h.update row.1 row.2)
    rwa [List.append_assoc] at this

theorem mem_mapsOf {label : Label} {m : PropertyMap} {rows : List (Label × PropertyMap)} :
    m ∈ mapsOf label rows ↔ (label, m) ∈ rows := by
  simp [mapsOf]

/-- The schemas of several workers, put together. -/
theorem surveys_foldl_union {l : List Collection} {parts : List (List (Label × PropertyMap))}
    (h : List.Forall₂ (fun d rows => d.Surveys allowTokens rows) l parts)
    {elements : List (Label × PropertyMap)} (hc : c.Surveys allowTokens elements) :
    (l.foldl union c).Surveys allowTokens (elements ++ parts.flatten) := by
  induction h generalizing c elements with
  | nil => simpa using hc
  | cons hd _ ih =>
    have := ih (hc.union hd)
    rwa [List.append_assoc] at this

/-- The union with no schemas is the collection itself. -/
theorem empty_union {c : Collection} (h : ∀ {label s}, c.get? label = some s → s.label = label) :
    (∅ : Collection).union c = c := by
  refine SortedMap.ext_get? fun label => ?_
  rw [get?_union h, SortedMap.get?_empty, Option.or_none]
  exact Option.map_id'

end Collection

end GraphExport
