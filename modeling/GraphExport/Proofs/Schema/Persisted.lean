import GraphExport.Proofs.Label.ReadBack
import GraphExport.Proofs.Schema.Labelled
import GraphExport.Proofs.Schema.Seeded

/-!
# GraphExport.Proofs.Schema.Persisted

The schema of a graph read back from its JSON form. The form keeps the columns with their types and
what they show as nullable, and drops what was counted; what is read back shows the same and has
the same form again.

* `LabelSchema.persisted`: what the form keeps of a schema. `LabelSchema.toJson_persisted`: the form
  of that is the same again.
* `LabelSchema.decode_toJson`, `Collection.decode_toJson`, `GraphSchema.decode_toJson`: it is what
  is read back.
* `GraphSchema.Made`: the graph schemas that there can be, among them those read from files.
* `GraphSchema.made_reads_back`: all of them are read back as what they show.
-/

namespace GraphExport

/-! ## Types -/

theorem TypeSet.contains_ofList {l : List DataType} {t : DataType} :
    (TypeSet.ofList l).contains t = true ↔ t ∈ l := by
  have hall : ∀ s : TypeSet, (l.foldl TypeSet.insert s).contains t = true ↔
      t ∈ l ∨ s.contains t = true := by
    induction l with
    | nil => simp
    | cons u l ih =>
      intro s
      rw [List.foldl_cons, ih, contains_insert, List.mem_cons, or_left_comm, or_assoc]
  rw [ofList, hall, contains_empty]
  simp

theorem TypeSet.ofList_toList (s : TypeSet) : TypeSet.ofList s.toList = s :=
  ext_contains fun t => by rw [contains_ofList, mem_toList]

/-- The bindings of a map, put in one by one, make the map. -/
theorem FirstSeen.foldl_alter_entries {κ α : Type} [DecidableEq κ] (m : FirstSeen κ α) :
    m.entries.foldl (fun n e => n.alter e.1 fun _ => e.2) ∅ = m := by
  refine FirstSeen.ext_get? ?_ fun k => ?_
  · exact (FirstSeen.keys_foldl_alter_of_new (f := fun (a : α) (_ : Option α) => a)
      (m := (∅ : FirstSeen κ α)) m.nodup_keys).trans (List.nil_append _)
  · rw [FirstSeen.get?_foldl_alter (fun (a : α) (_ : Option α) => a) m.distinct]
    show ((m.get? k).map fun a => a).or none = m.get? k
    rw [Option.or_none, Option.map_id']

namespace LabelSchema

theorem decodeType_name (t : DataType) (depth : Nat) :
    decodeType depth (.ofJson (.str t.name)) = some t := by
  cases t <;> rfl

theorem decodeTypes_names (types : TypeSet) (depth : Nat) :
    Decode.list decodeType (depth + 1) (.ofJson (.strings (types.toList.map DataType.name))) =
      some types.toList := by
  rw [Json.strings, List.map_map,
    Decode.list_ofJson (Json.str ∘ DataType.name) id fun t _ => decodeType_name t depth,
    List.map_id]

/-! ## One label -/

/-- What is kept of a column: its types and whether it shows as nullable. -/
def persistedColumn (s : LabelSchema) (c : Column) : Column where
  dataType := c.dataType
  types := c.types
  multiValue := c.multiValue
  markedNullable := s.isNullable c

/-- What is kept of a schema. Nothing counts as observed in it. -/
def persisted (s : LabelSchema) : LabelSchema where
  label := s.label
  columns := s.columns.map fun _ c => s.persistedColumn c

/-- What a schema shows: its columns in their order, and of each the types, whether it has lists and
whether it is nullable. -/
def shown (s : LabelSchema) : List (String × DataType × TypeSet × Bool × Bool) :=
  s.columns.entries.map fun e =>
    (e.1, e.2.dataType, e.2.types, e.2.multiValue, s.isNullable e.2)

theorem entries_persisted (s : LabelSchema) : s.persisted.columns.entries =
    s.columns.entries.map fun e => (e.1, s.persistedColumn e.2) := rfl

theorem isNullable_persistedColumn (s : LabelSchema) (c : Column) :
    s.persisted.isNullable (s.persistedColumn c) = s.isNullable c :=
  Bool.or_false _

theorem shown_persisted (s : LabelSchema) : s.persisted.shown = s.shown := by
  rw [shown, entries_persisted, List.map_map]
  refine List.map_congr_left fun e _ => ?_
  rw [Function.comp_apply, isNullable_persistedColumn]
  rfl

theorem toJson_persisted (s : LabelSchema) : s.persisted.toJson = s.toJson := by
  have hcolumn : ∀ name c, s.persisted.columnJson name (s.persistedColumn c) =
      s.columnJson name c := by
    intro name c
    rw [columnJson, isNullable_persistedColumn]
    rfl
  rw [toJson, entries_persisted, List.map_map]
  simp only [Function.comp_def, hcolumn]
  rfl

theorem decodeColumn_columnJson (s : LabelSchema) (name : String) (c : Column) (depth : Nat) :
    decodeColumn (depth + 2) (.ofJson (s.columnJson name c)) =
      some (name, s.persistedColumn c) := by
  have hslots : Decode.slots
      [["property"], ["dataType"], ["isMultiValue"], ["isNullable"], ["allTypes"]] (depth + 2)
      (.ofJson (s.columnJson name c)) = some (depth + 1, [some (.ofJson (.str name)),
        some (.ofJson (.str c.dataType.name)), some (.ofJson (.bool c.multiValue)),
        some (.ofJson (.bool (s.isNullable c))),
        some (.ofJson (.strings (c.types.toList.map DataType.name)))]) := rfl
  have hbool : ∀ b, Decode.bool (depth + 1) (.ofJson (.bool b)) = some b := fun _ => rfl
  have hname : Decode.string (depth + 1) (.ofJson (.str name)) = some name := rfl
  simp only [decodeColumn, hslots, Option.bind_eq_bind, Option.bind_some, Decode.required, hname,
    hbool, decodeType_name, decodeTypes_names, TypeSet.ofList_toList]
  rfl

theorem ofColumns_entries (label : Label) (columns : FirstSeen String Column) :
    ofColumns label columns.entries = { label, columns } := by
  rw [ofColumns, FirstSeen.foldl_alter_entries]

theorem decode_toJson {s : LabelSchema} (h : s.label.readBack = s.label) (depth : Nat) :
    decode (depth + 4) (.ofJson s.toJson) = some s.persisted := by
  have hslots : Decode.slots [["label"], ["properties"]] (depth + 4) (.ofJson s.toJson) =
      some (depth + 3, [some (.ofJson s.label.toJson),
        some (.ofJson (.arr (s.columns.entries.map fun e => s.columnJson e.1 e.2)))]) := rfl
  have hlabel := Label.decode_toJson s.label (depth + 1)
  have hcolumns : Decode.list decodeColumn (depth + 3)
      (.ofJson (.arr (s.columns.entries.map fun e => s.columnJson e.1 e.2))) =
        some s.persisted.columns.entries :=
    Decode.list_ofJson (fun e : String × Column => s.columnJson e.1 e.2)
      (fun e => (e.1, s.persistedColumn e.2)) fun e _ => decodeColumn_columnJson s e.1 e.2 depth
  rw [h] at hlabel
  simp only [decode, hslots, Option.bind_eq_bind, Option.bind_some, Decode.required,
    Decode.withDefault, hlabel, hcolumns, ofColumns_entries]
  rfl

end LabelSchema

/-! ## All labels of a kind -/

namespace Collection

def persisted (c : Collection) : Collection := c.mapValues fun _ s => s.persisted

/-- What the schemas show, in the order of their labels. -/
def shown (c : Collection) : List (Label × List (String × DataType × TypeSet × Bool × Bool)) :=
  c.entries.map fun e => (e.1, e.2.shown)

theorem shown_persisted (c : Collection) : c.persisted.shown = c.shown := by
  rw [shown, persisted, SortedMap.mapValues, List.map_map]
  exact List.map_congr_left fun e _ => by rw [Function.comp_apply, LabelSchema.shown_persisted]

theorem values_persisted (c : Collection) :
    c.persisted.values = c.values.map LabelSchema.persisted := by
  simp [persisted, SortedMap.mapValues, SortedMap.values]

theorem toJson_persisted (c : Collection) : c.persisted.toJson = c.toJson := by
  rw [toJson, values_persisted, List.map_map]
  exact congrArg Json.arr (List.map_congr_left fun s _ => s.toJson_persisted)

theorem Labelled.persisted {c : Collection} (h : c.Labelled) : c.persisted.Labelled := by
  intro label s hs
  rw [Collection.persisted, SortedMap.get?_mapValues, Option.map_eq_some_iff] at hs
  obtain ⟨t, ht, rfl⟩ := hs
  exact h label t ht

theorem decode_toJson {c : Collection} (h : c.Labelled)
    (hlabels : ∀ label ∈ c.keys, label.readBack = label) (depth : Nat) :
    decode (depth + 5) (.ofJson c.toJson) = some c.persisted := by
  have hall : ∀ s ∈ c.values, LabelSchema.decode (depth + 4) (.ofJson s.toJson) =
      some s.persisted := by
    intro s hs
    obtain ⟨label, hget⟩ := SortedMap.mem_values.1 hs
    refine LabelSchema.decode_toJson ?_ depth
    rw [h label s hget]
    exact hlabels label (List.mem_map_of_mem (SortedMap.mem_entries.2 hget))
  rw [decode, toJson, Decode.list_ofJson _ _ hall, ← values_persisted]
  exact congrArg some (empty_union fun hs => h.persisted _ _ hs)

/-- A part of a schema that was read, or is missing, has its schemas under their labels. -/
theorem labelled_of_part {c : Collection} {depth : Nat} {part : Option Written}
    (h : Decode.withDefault decode ∅ depth part = some c) : c.Labelled := by
  cases part with
  | none =>
    cases h
    exact labelled_empty
  | some w =>
    obtain ⟨l, -, rfl⟩ := Option.map_eq_some_iff.1 h
    exact labelled_empty.foldl_add l

end Collection

/-! ## A whole graph -/

namespace GraphSchema

def persisted (g : GraphSchema) : GraphSchema := g.map Collection.persisted

theorem get_persisted (g : GraphSchema) (kind : OutputKind) :
    g.persisted.get kind = (g.get kind).persisted := by
  cases kind <;> rfl

theorem toJson_persisted (g : GraphSchema) : g.persisted.toJson = g.toJson := by
  have hempty : g.results.persisted.isEmpty = g.results.isEmpty := List.isEmpty_map
  simp only [toJson, persisted, PerKind.map, Collection.toJson_persisted, hempty]

theorem decode_toJson {g : GraphSchema} (h : g.Labelled)
    (hlabels : ∀ kind, ∀ label ∈ (g.get kind).keys, label.readBack = label) (depth : Nat) :
    decode (depth + 6) (.ofJson g.toJson) = some g.persisted := by
  have hnodes := Collection.decode_toJson (h .nodes) (hlabels .nodes) depth
  have hedges := Collection.decode_toJson (h .edges) (hlabels .edges) depth
  have hresults := Collection.decode_toJson (h .results) (hlabels .results) depth
  simp only [PerKind.get] at hnodes hedges hresults
  cases hempty : g.results.isEmpty with
  | true =>
    -- Results that are not there are read as none.
    have hslots : Decode.slots [["nodes"], ["edges"], ["results"]] (depth + 6) (.ofJson g.toJson) =
        some (depth + 5, [some (.ofJson g.nodes.toJson), some (.ofJson g.edges.toJson), none]) := by
      rw [toJson, hempty]
      rfl
    have hnil : g.results = ∅ := SortedMap.ext_entries (List.isEmpty_iff.1 hempty)
    have hnone : g.results.persisted = ∅ := by
      rw [hnil]
      rfl
    simp only [decode, hslots, Option.bind_eq_bind, Option.bind_some, Decode.withDefault, hnodes,
      hedges, persisted, PerKind.map, hnone]
  | false =>
    have hslots : Decode.slots [["nodes"], ["edges"], ["results"]] (depth + 6) (.ofJson g.toJson) =
        some (depth + 5, [some (.ofJson g.nodes.toJson), some (.ofJson g.edges.toJson),
          some (.ofJson g.results.toJson)]) := by
      rw [toJson, hempty]
      rfl
    simp only [decode, hslots, Option.bind_eq_bind, Option.bind_some, Decode.withDefault, hnodes,
      hedges, hresults, persisted, PerKind.map]

/-- The graph schemas that there can be: made step by step, or read. -/
inductive Made : GraphSchema → Prop where
  | empty : Made GraphSchema.empty
  | update {g : GraphSchema} (h : Made g) (kind : OutputKind) (label : Label)
      (properties : PropertyMap) (allowTokens : Bool) :
      Made (g.modify kind (·.update label properties allowTokens))
  | add {g : GraphSchema} (h : Made g) (kind : OutputKind) (s : LabelSchema) :
      Made (g.modify kind (·.add s))
  | union {g other : GraphSchema} (h : Made g) (hother : Made other) (kind origin : OutputKind) :
      Made (g.modify kind (·.union (other.get origin)))
  | read {g : GraphSchema} {w : Written} {depth : Nat} (h : decode depth w = some g) : Made g

theorem labelled_of_decode {g : GraphSchema} {w : Written} {depth : Nat}
    (h : decode depth w = some g) : g.Labelled := by
  simp only [decode, Option.bind_eq_bind, Option.bind_eq_some_iff] at h
  obtain ⟨⟨d, slots⟩, -, h⟩ := h
  split at h
  · simp only [Option.bind_eq_some_iff, Option.some.injEq] at h
    obtain ⟨nodes, hnodes, edges, hedges, results, hresults, rfl⟩ := h
    intro kind
    cases kind with
    | nodes => exact Collection.labelled_of_part hnodes
    | edges => exact Collection.labelled_of_part hedges
    | results => exact Collection.labelled_of_part hresults
  · cases h

theorem Made.labelled {g : GraphSchema} (h : g.Made) : g.Labelled := by
  induction h with
  | empty =>
    intro kind
    cases kind <;> exact Collection.labelled_empty
  | update _ kind label properties allowTokens ih =>
    exact ih.modify fun c hc => hc.update label properties allowTokens
  | add _ kind s ih => exact ih.modify fun c hc => hc.add s
  | union _ _ kind origin ih _ => exact ih.modify fun c hc => hc.union _
  | read h => exact labelled_of_decode h

/-- A graph schema is read back from its JSON form: the same labels in the same order show the same
columns, and the form of what is read is the same again. -/
theorem made_reads_back {g : GraphSchema} (h : g.Made)
    (hlabels : ∀ kind, ∀ label ∈ (g.get kind).keys,
      label.hasEndpoints = true → label.own.tags.length ≤ 1) :
    ∃ back, Decode.fromJson? decode g.toJson = some back ∧
      (∀ kind, (back.get kind).shown = (g.get kind).shown) ∧ back.toJson = g.toJson := by
  have hback : ∀ kind, ∀ label ∈ (g.get kind).keys, label.readBack = label := fun kind label hl =>
    label.readBack_eq_iff.2 (hlabels kind label hl)
  refine ⟨g.persisted, decode_toJson h.labelled hback 121, fun kind => ?_, g.toJson_persisted⟩
  rw [get_persisted, Collection.shown_persisted]

/-- A schema that was read and then widened by an element that lacks the property. -/
theorem made_reads_back_widened :
    let label := Label.withEndpoints "knows" ["person"] ["person"]
    let first : GraphSchema := GraphSchema.empty.modify .edges
      (·.update label (.ofList [("since", .int 2020)]) false)
    let widened : GraphSchema := first.persisted.modify .edges (·.update label ∅ false)
    Decode.fromJson? decode first.toJson = some first.persisted ∧
      ∃ back, Decode.fromJson? decode widened.toJson = some back ∧
        (∀ kind, (back.get kind).shown = (widened.get kind).shown) ∧
          back.toJson = widened.toJson := by
  intro label first widened
  have hfirst : first.Made := .update .empty _ _ _ _
  have hread : Decode.fromJson? decode first.toJson = some first.persisted := by
    refine decode_toJson hfirst.labelled (fun kind => ?_) 121
    cases kind <;> decide
  have hwidened : widened.Made := .update (.read hread) _ _ _ _
  refine ⟨hread, made_reads_back hwidened fun kind => ?_⟩
  cases kind <;> decide

end GraphSchema

end GraphExport
