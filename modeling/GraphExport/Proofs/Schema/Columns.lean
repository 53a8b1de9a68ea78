import GraphExport.Output.Line
import GraphExport.Proofs.Data.Maps

/-!
# GraphExport.Proofs.Schema.Columns

The names of the columns of a schema, through all that happens to the schema.

* `LabelSchema.names_prefix_update`: columns keep their places while elements are recorded.
* `LabelSchema.mem_names_update`, `LabelSchema.mem_names_union`: which columns there are.
-/

namespace GraphExport

namespace LabelSchema

theorem nodup_names (s : LabelSchema) : s.names.Nodup := s.columns.nodup_keys

@[simp] theorem names_columnsOf (s : LabelSchema) : s.columnsOf.names = s.names :=
  s.columns.keys_map _

@[simp] theorem label_columnsOf (s : LabelSchema) : s.columnsOf.label = s.label := rfl

@[simp] theorem label_update (s : LabelSchema) (properties : PropertyMap) (allowTokens : Bool) :
    (s.update properties allowTokens).label = s.label := rfl

@[simp] theorem label_union (s other : LabelSchema) : (s.union other).label = s.label := rfl

@[simp] theorem names_new (label : Label) (count : Nat) :
    ({ label, count } : LabelSchema).names = [] := rfl

/-- Columns keep their places while elements are recorded. -/
theorem names_prefix_update (s : LabelSchema) (properties : PropertyMap) (allowTokens : Bool) :
    s.names <+: (s.update properties allowTokens).names :=
  FirstSeen.keys_prefix_foldl_alter (fun (v : Json) (c : Option Column) => (c.getD {}).observe v)
    (properties.filter (isRecorded allowTokens)).entries s.columns

/-- The element adds the columns of the properties that make one. -/
theorem mem_names_update {s : LabelSchema} {properties : PropertyMap} {allowTokens : Bool}
    {name : String} :
    name ∈ (s.update properties allowTokens).names ↔
      name ∈ s.names ∨
        ∃ v, properties.get? name = some v ∧ isRecorded allowTokens name v = true := by
  refine (FirstSeen.mem_keys_foldl_alter
    (f := fun (v : Json) (c : Option Column) => (c.getD {}).observe v)).trans ?_
  refine or_congr Iff.rfl ?_
  simp only [List.mem_map, Prod.exists, exists_and_right, exists_eq_right, SortedMap.mem_entries,
    SortedMap.get?_filter, Option.filter_eq_some_iff]

theorem mem_names_union {s other : LabelSchema} {name : String} :
    name ∈ (s.union other).names ↔ name ∈ s.names ∨ name ∈ other.names :=
  FirstSeen.mem_keys_foldl_alter
    (f := fun (c : Column) (old : Option Column) => (old.getD {}).union c)

end LabelSchema

theorem length_csvHeader (kind : OutputKind) (label : Label) (s : LabelSchema) :
    (csvHeader kind label s).length = (structuralColumns kind label).length + s.names.length := by
  simp [csvHeader, LabelSchema.names, FirstSeen.keys]

end GraphExport
