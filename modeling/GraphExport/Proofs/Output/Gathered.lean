import Mathlib.Algebra.Order.BigOperators.Group.List
import Mathlib.Algebra.Order.Group.Nat
import GraphExport.Proofs.Output.Columns

/-!
# GraphExport.Proofs.Output.Gathered

The numbers that come of the fragments of several workers, whatever files they have, also where one
id stands for two of them.

* `LabelSchema.Additive`: a number of a schema that a union adds up. `Fragments.total`: the sum of
  such a number over the files of a label. `Fragments.total_add`: a file adds its share.
* `LabelSchema.Attested`: a schema with elements, whose columns have values.
* `Masters.numbers_schemas`: the schemas that come of the fragments list the sums.
* `Fragments.Tells`: the fragments are those of some rows. `Pool.Wrote.tells_close`: so it is for a
  pool that has written the rows.
* `Masters.lists_schemas`: the rows that several workers have written are listed together.
-/

namespace GraphExport

/-- A number that is listed only where it is not zero. -/
def listed (n : Nat) : Option Nat := if n = 0 then none else some n

theorem listed_of_pos {n : Nat} (h : 0 < n) : listed n = some n := if_neg (Nat.ne_of_gt h)

theorem getD_listed (n : Nat) : (listed n).getD 0 = n := by
  unfold listed
  split
  · rename_i h
    exact h.symm
  · rfl

/-- A sum over bindings with distinct keys in which one key alone has a share. -/
theorem sum_map_ite_key {κ α : Type} [DecidableEq κ] {l : List (κ × α)}
    (h : (l.map (·.1)).Nodup) (k : κ) (f : α → Nat) :
    (l.map fun e => if e.1 = k then f e.2 else 0).sum = ((l.lookup k).map f).getD 0 := by
  induction l with
  | nil => rfl
  | cons e rest ih =>
    obtain ⟨j, a⟩ := e
    rw [List.map_cons, List.nodup_cons] at h
    rw [List.map_cons, List.sum_cons, ih h.2, lookup_cons_eq]
    by_cases hk : k = j
    · subst hk
      have hrest : rest.lookup k = none := by
        cases hlookup : rest.lookup k with
        | none => rfl
        | some b =>
          exact absurd (List.mem_map_of_mem (f := (·.1)) ((lookup_eq_some_iff h.2).1 hlookup)) h.1
      simp [hrest]
    · simp [hk, Ne.symm hk]

namespace LabelSchema

/-- A number of a schema that a union adds up. -/
structure Additive (μ : LabelSchema → Nat) : Prop where
  new : ∀ label, μ { label } = 0
  union : ∀ s other, μ (s.union other) = μ s + μ other

theorem additive_count : Additive (·.count) := ⟨fun _ => rfl, count_union⟩

theorem additive_observed (name : String) : Additive (·.observed name) :=
  ⟨fun _ => rfl, fun s other => observed_union s other name⟩

theorem Additive.unionAll {μ : LabelSchema → Nat} (hμ : Additive μ) (s : LabelSchema)
    (l : List LabelSchema) : μ (s.unionAll l) = μ s + (l.map μ).sum := by
  unfold LabelSchema.unionAll
  induction l generalizing s with
  | nil => rfl
  | cons t rest ih =>
    rw [List.foldl_cons, ih, hμ.union, List.map_cons, List.sum_cons, Nat.add_assoc]

/-- There are elements, and every column has values. -/
structure Attested (s : LabelSchema) : Prop where
  count : 0 < s.count
  column : ∀ name ∈ s.names, 0 < s.observed name

namespace Attested

variable {s s' : LabelSchema}

theorem union (h : s.Attested) (h' : s'.Attested) : (s.union s').Attested where
  count := Nat.add_pos_left h.count _
  column name hname := by
    rw [observed_union]
    rcases mem_names_union.1 hname with hname | hname
    · exact Nat.add_pos_left (h.column name hname) _
    · exact Nat.add_pos_right _ (h'.column name hname)

theorem unionAll (label : Label) {l : List LabelSchema} (hne : l ≠ []) (h : ∀ s ∈ l, s.Attested) :
    (({ label } : LabelSchema).unionAll l).Attested where
  count := by
    obtain ⟨s, hs⟩ := List.exists_mem_of_ne_nil l hne
    rw [count_unionAll]
    have hle := List.le_sum_of_mem (List.mem_map_of_mem (f := (·.count)) hs)
    exact Nat.add_pos_right _ (Nat.lt_of_lt_of_le (h s hs).count hle)
  column name hname := by
    rcases mem_names_unionAll.1 hname with hname | ⟨s, hs, hname⟩
    · cases hname
    · rw [observed_unionAll]
      have hle := List.le_sum_of_mem (List.mem_map_of_mem (f := (·.observed name)) hs)
      exact Nat.add_pos_right _ (Nat.lt_of_lt_of_le ((h s hs).column name hname) hle)

/-- A column is there if and only if it has values. -/
theorem observations (h : s.Attested) (name : String) :
    (s.columns.get? name).map (·.observations) = listed (s.observed name) := by
  cases hc : s.columns.get? name with
  | none =>
    rw [observed, hc]
    rfl
  | some c =>
    have hname : name ∈ s.names := FirstSeen.isSome_get?.1 (by rw [hc]; rfl)
    have hpos := h.column name hname
    rw [listed_of_pos hpos, observed, hc]
    rfl

end Attested

section Surveys

variable {s : LabelSchema} {allowTokens : Bool} {maps : List PropertyMap}

theorem Surveys.observed (h : s.Surveys allowTokens maps) (name : String) :
    s.observed name = (valuesOf allowTokens name maps).length := by
  rw [← (h.column name).observations, LabelSchema.observed]
  cases s.columns.get? name <;> rfl

/-- A schema that surveys some maps is made of nothing else. -/
theorem Surveys.attested (h : s.Surveys allowTokens maps) (hne : maps ≠ []) : s.Attested where
  count := by
    rw [h.count]
    exact List.length_pos_of_ne_nil hne
  column name hname := by
    rw [h.observed]
    exact List.length_pos_of_ne_nil ((h.present name).1 (FirstSeen.isSome_get?.2 hname))

end Surveys

end LabelSchema

namespace Fragments

/-- The sum of a number over the files of a label. -/
def total (μ : LabelSchema → Nat) (f : Fragments) (label : Label) : Nat :=
  ((f.filesOf label).values.map fun file => μ file.schema).sum

/-- What a file adds to the sum of a label. -/
def share (μ : LabelSchema → Nat) (label : Label) (file : FileSchema) : Nat :=
  if file.schema.label = label then μ file.schema else 0

section Total

variable {μ : LabelSchema → Nat} {f : Fragments}

theorem total_empty (μ : LabelSchema → Nat) (label : Label) :
    (∅ : Fragments).total μ label = 0 := rfl

/-- A file adds its share, also where it is joined to one that is there. -/
theorem total_add (hμ : LabelSchema.Additive μ) (f : Fragments) (id : String) (file : FileSchema)
    (label : Label) : (f.add id file).total μ label = f.total μ label + share μ label file := by
  rw [total, total, share, filesOf, Fragments.add, SortedMap.get?_alter]
  by_cases hlabel : label = file.schema.label
  · subst hlabel
    rw [if_pos rfl, if_pos rfl, Option.getD_some, filesOf, SortedMap.alter]
    generalize (f.get? file.schema.label).getD ∅ = files
    rw [((SortedMap.values_insert_perm files id _).map _).sum_nat, List.map_cons, List.sum_cons]
    cases hold : files.get? id with
    | none =>
      rw [SortedMap.erase_of_none hold]
      exact Nat.add_comm _ _
    | some old =>
      rw [((SortedMap.values_perm_of_get? hold).map _).sum_nat, List.map_cons, List.sum_cons]
      dsimp only
      rw [hμ.union]
      omega
  · rw [if_neg hlabel, if_neg (Ne.symm hlabel), Nat.add_zero, filesOf]

theorem total_foldl_add (hμ : LabelSchema.Additive μ) (l : List (String × FileSchema))
    (f : Fragments) (label : Label) : (l.foldl (fun f e => f.add e.1 e.2) f).total μ label =
      f.total μ label + (l.map fun e => share μ label e.2).sum := by
  induction l generalizing f with
  | nil => rfl
  | cons e rest ih =>
    rw [List.foldl_cons, ih, total_add hμ, List.map_cons, List.sum_cons, Nat.add_assoc]

/-- The shares of all files make up the sum of a label. -/
theorem Filed.sum_share (h : f.Filed) (μ : LabelSchema → Nat) (label : Label) :
    (f.files.map fun e => share μ label e.2).sum = f.total μ label := by
  have hentry : ∀ e ∈ f.entries, (e.2.entries.map fun e => share μ label e.2).sum =
      if e.1 = label then (e.2.values.map fun file => μ file.schema).sum else 0 := by
    intro e he
    have hshare : ∀ x ∈ e.2.entries, share μ label x.2 =
        if e.1 = label then μ x.2.schema else 0 := fun x hx => by
      rw [share, h e he x.2 (List.mem_map_of_mem hx)]
    rw [List.map_congr_left hshare]
    split
    · rw [SortedMap.values, List.map_map]
      rfl
    · exact List.sum_eq_zero fun n hn => by
        obtain ⟨_, -, rfl⟩ := List.mem_map.1 hn
        rfl
  rw [files, SortedMap.values, List.flatMap_map, List.map_flatMap, List.flatMap_def,
    List.sum_flatten, List.map_map]
  dsimp only [Function.comp_def]
  rw [List.map_congr_left hentry, sum_map_ite_key f.increasing.nodup_keys label
    fun files => (files.values.map fun file => μ file.schema).sum, total, filesOf]
  show ((f.get? label).map _).getD 0 = _
  cases f.get? label <;> rfl

/-- Fragments add up. -/
theorem total_foldl_extend (hμ : LabelSchema.Additive μ) {fragments : List Fragments}
    (hfiled : ∀ f ∈ fragments, f.Filed) (label : Label) :
    (fragments.foldl extend ∅).total μ label = (fragments.map fun f => f.total μ label).sum := by
  rw [foldl_extend, total_foldl_add hμ, total_empty, Nat.zero_add, List.map_flatMap,
    List.flatMap_def, List.sum_flatten, List.map_map]
  exact congrArg List.sum (List.map_congr_left fun f hf => (hfiled f hf).sum_share μ label)

end Total

/-- Each label has a file, and the schemas of the files are attested. -/
def Attested (f : Fragments) : Prop :=
  ∀ label files, f.get? label = some files →
    files.values ≠ [] ∧ ∀ file ∈ files.values, file.schema.Attested

namespace Attested

variable {f : Fragments}

theorem empty : Attested ∅ := fun _ _ h => nomatch h

theorem add (h : f.Attested) (id : String) {file : FileSchema} (hfile : file.schema.Attested) :
    (f.add id file).Attested := by
  intro label files hfiles
  rw [Fragments.add, SortedMap.get?_alter] at hfiles
  split at hfiles
  case isFalse => exact h label files hfiles
  case isTrue hlabel =>
    obtain rfl := Option.some.inj hfiles
    have hold : ∀ old ∈ ((f.get? file.schema.label).getD ∅).values, old.schema.Attested := by
      intro old hold
      cases hget : f.get? file.schema.label with
      | none =>
        rw [hget] at hold
        cases hold
      | some files =>
        rw [hget] at hold
        exact (h _ files hget).2 old hold
    have hperm := SortedMap.values_insert_perm ((f.get? file.schema.label).getD ∅) id
    refine ⟨fun hnil => ?_, fun new hnew => ?_⟩
    · rw [SortedMap.alter] at hnil
      exact List.not_perm_nil_cons _ _ (hnil ▸ hperm _)
    · obtain ⟨id', hid'⟩ := SortedMap.mem_values.1 hnew
      rw [SortedMap.get?_alter] at hid'
      split at hid'
      · obtain rfl := Option.some.inj hid'
        split
        · rename_i old hget
          exact (hold old (SortedMap.mem_values.2 ⟨id, hget⟩)).union hfile
        · exact hfile
      · exact hold new (SortedMap.mem_values.2 ⟨id', hid'⟩)

theorem foldl_add (h : f.Attested) {l : List (String × FileSchema)}
    (hl : ∀ e ∈ l, e.2.schema.Attested) : (l.foldl (fun f e => f.add e.1 e.2) f).Attested := by
  induction l generalizing f with
  | nil => exact h
  | cons e rest ih =>
    exact ih (h.add e.1 (hl e List.mem_cons_self)) fun e' he' => hl e' (List.mem_cons_of_mem _ he')

theorem of_mem_files (h : f.Attested) {e : String × FileSchema} (he : e ∈ f.files) :
    e.2.schema.Attested := by
  obtain ⟨files, hfiles, he⟩ := List.mem_flatMap.1 he
  obtain ⟨label, hlabel⟩ := SortedMap.mem_values.1 hfiles
  exact (h label files hlabel).2 e.2 (List.mem_map_of_mem he)

theorem foldl_extend {fragments : List Fragments} (h : ∀ f ∈ fragments, f.Attested) :
    (fragments.foldl extend ∅).Attested := by
  rw [Fragments.foldl_extend]
  refine empty.foldl_add fun e he => ?_
  obtain ⟨f, hf, he⟩ := List.mem_flatMap.1 he
  exact (h f hf).of_mem_files he

end Attested

end Fragments

/-- The schemas that come of fragments list the sums over their files. -/
theorem Masters.numbers_schemas {fragments : List Fragments} (hfiled : ∀ f ∈ fragments, f.Filed)
    (hattested : ∀ f ∈ fragments, f.Attested) (label : Label) :
    let s? := (ofFragments fragments).schemas.get? label
    s?.map (·.count) = listed (fragments.map fun f => f.total (·.count) label).sum ∧
      ∀ name, (s?.bind fun s => (s.columns.get? name).map (·.observations)) =
        listed (fragments.map fun f => f.total (·.observed name) label).sum := by
  intro s?
  have hs? : s? = ((fragments.foldl Fragments.extend ∅).get? label).map fun files =>
      (master label files).schema := by
    simp only [s?, get?_schemas, get?_ofFragments, Option.map_map, Function.comp_def]
  have hcount := Fragments.total_foldl_extend LabelSchema.additive_count hfiled label
  have hobserved := fun name =>
    Fragments.total_foldl_extend (LabelSchema.additive_observed name) hfiled label
  rw [hs?, ← hcount]
  simp only [← hobserved]
  cases hget : (fragments.foldl Fragments.extend ∅).get? label with
  | none =>
    have hnone : ∀ μ, (fragments.foldl Fragments.extend ∅).total μ label = 0 := fun μ => by
      rw [Fragments.total, Fragments.filesOf, hget]
      rfl
    simp only [hnone]
    exact ⟨rfl, fun _ => rfl⟩
  | some files =>
    obtain ⟨hne, hall⟩ := Fragments.Attested.foldl_extend hattested label files hget
    have hmaster : (master label files).schema.Attested := by
      rw [schema_master]
      refine .unionAll label (by simpa using hne) fun s hs => ?_
      obtain ⟨file, hfile, rfl⟩ := List.mem_map.1 hs
      exact hall file hfile
    have htotal : ∀ {μ}, LabelSchema.Additive μ → μ (master label files).schema =
        (fragments.foldl Fragments.extend ∅).total μ label := fun hμ => by
      rw [schema_master, hμ.unionAll, hμ.new, Nat.zero_add, List.map_map, Fragments.total,
        Fragments.filesOf, hget]
      rfl
    refine ⟨?_, fun name => ?_⟩
    · rw [← htotal LabelSchema.additive_count, listed_of_pos hmaster.count]
      rfl
    · rw [← htotal (LabelSchema.additive_observed name), ← hmaster.observations name]
      rfl

/-! ## Rows -/

/-- The schemas list the numbers of some rows, and for each name the number of its values that are
recorded. -/
structure Collection.Lists (c : Collection) (rows : List (Label × PropertyMap)) : Prop where
  count : ∀ label, (c.get? label).map (·.count) = listed (mapsOf label rows).length
  column : ∀ label name,
    ((c.get? label).bind fun s => (s.columns.get? name).map (·.observations)) =
      listed (LabelSchema.valuesOf false name (mapsOf label rows)).length

theorem Collection.Lists.perm {c : Collection} {rows rows' : List (Label × PropertyMap)}
    (h : c.Lists rows) (hperm : rows.Perm rows') : c.Lists rows' := by
  have hmaps : ∀ label, (mapsOf label rows).Perm (mapsOf label rows') := fun label =>
    (hperm.filter _).map _
  exact ⟨fun label => by rw [h.count, (hmaps label).length_eq], fun label name => by
    rw [h.column]
    exact congrArg listed ((hmaps label).filterMap _).length_eq⟩

/-- The fragments hold files of some rows: what they add for a label are the numbers of its rows. -/
structure Fragments.Tells (f : Fragments) (rows : List (Label × PropertyMap)) : Prop where
  filed : f.Filed
  attested : f.Attested
  count : ∀ label, f.total (·.count) label = (Collection.mapsOf label rows).length
  observed : ∀ label name, f.total (·.observed name) label =
    (LabelSchema.valuesOf false name (Collection.mapsOf label rows)).length

/-- The schemas that come of the fragments of several workers list the rows of all of them. -/
theorem Masters.lists_schemas {fragments : List Fragments}
    {parts : List (List (Label × PropertyMap))} (h : List.Forall₂ Fragments.Tells fragments parts) :
    (ofFragments fragments).schemas.Lists parts.flatten := by
  have hall : ∀ f ∈ fragments, f.Filed ∧ f.Attested :=
    ((List.forall₂_and_left fragments parts).1 (h.imp fun f rows hf =>
      ⟨(⟨hf.filed, hf.attested⟩ : f.Filed ∧ f.Attested), hf⟩)).1
  -- Whatever is added for the fragments is added for the rows.
  have hsum : ∀ {μ : Fragments → Nat} {ν : List (Label × PropertyMap) → Nat},
      (∀ {f rows}, Fragments.Tells f rows → μ f = ν rows) →
        (fragments.map μ).sum = (parts.map ν).sum := by
    intro μ ν hμ
    have hmap : List.Forall₂ (· = ·) (fragments.map μ) (parts.map ν) :=
      List.forall₂_map_left_iff.2 (List.forall₂_map_right_iff.2 (h.imp fun _ _ hf => hμ hf))
    rw [List.forall₂_eq_eq_eq] at hmap
    rw [hmap]
  have hmaps : ∀ label, Collection.mapsOf label parts.flatten =
      (parts.map (Collection.mapsOf label)).flatten := fun label => by
    rw [Collection.mapsOf, List.filter_flatten, List.map_flatten, List.map_map]
    rfl
  have hnumbers := numbers_schemas (fun f hf => (hall f hf).1) fun f hf => (hall f hf).2
  refine ⟨fun label => ?_, fun label name => ?_⟩
  · rw [(hnumbers label).1, hsum fun hf => hf.count label, hmaps, List.length_flatten, List.map_map]
    rfl
  · rw [(hnumbers label).2 name, hsum fun hf => hf.observed label name, hmaps,
      LabelSchema.valuesOf, List.filterMap_flatten, List.length_flatten, List.map_map, List.map_map]
    rfl

namespace Pool

variable {p : Pool} {kind : OutputKind} {rows : List (Label × PropertyMap)}

/-- The fragments of a pool add for each label a number of its schema. -/
theorem total_close (hlabel : ∀ label s, p.schema? kind label = some s → s.label = label)
    {μ : LabelSchema → Nat} (hμ : LabelSchema.Additive μ) (d : Disk) (label : Label) :
    ((p.close d).1.get kind).total μ label = ((p.schema? kind label).map μ).getD 0 := by
  -- The label of a file is the key of its writer.
  have hshare : ∀ e ∈ (p.writers.get kind).entries,
      Fragments.share μ label e.2.fileSchema = if e.1 = label then μ e.2.schema else 0 := by
    intro e he
    have hkey := hlabel e.1 e.2.schema
      (congrArg (Option.map LabelWriter.schema) (SortedMap.mem_entries.1 he))
    rw [Fragments.share, LabelWriter.fileSchema, hkey]
  rw [get_close, Fragments.total_foldl_add hμ, Fragments.total_empty, Nat.zero_add,
    List.map_map, SortedMap.values, List.map_map]
  dsimp only [Function.comp_def]
  rw [List.map_congr_left hshare, sum_map_ite_key (p.writers.get kind).increasing.nodup_keys label
    fun w => μ w.schema, Pool.schema?, Option.map_map]
  rfl

/-- The fragments of a pool that has written some rows, without columns from the start, tell of
these rows. -/
theorem Wrote.tells_close (h : p.Wrote kind ∅ rows) (d : Disk) :
    ((p.close d).1.get kind).Tells rows := by
  have hsurveys : (Collection.updateAll ∅ false rows).Surveys false rows := by
    have := (Collection.surveys_empty false).updateAll rows
    rwa [List.nil_append] at this
  have hget : ∀ label, p.schema? kind label = (Collection.updateAll ∅ false rows).get? label :=
    fun label => by rw [h.schema, Collection.written_empty]
  have hlabel : ∀ label s, p.schema? kind label = some s → s.label = label := fun label s hs =>
    hsurveys.label (by rw [← hget, hs])
  refine ⟨?_, fun label files hfiles => ?_, fun label => ?_, fun label name => ?_⟩
  · rw [get_close]
    exact Fragments.filed_foldl_add _
  · rw [get_close] at hfiles
    refine Fragments.Attested.empty.foldl_add (fun e he => ?_) label files hfiles
    obtain ⟨w, hw, rfl⟩ := List.mem_map.1 he
    obtain ⟨l, hl⟩ := SortedMap.mem_values.1 hw
    have hs : (Collection.updateAll ∅ false rows).get? l = some w.schema := by
      rw [← hget]
      exact congrArg (Option.map LabelWriter.schema) hl
    exact (hsurveys.schema hs).attested ((hsurveys.present l).1 (by rw [hs]; rfl))
  · rw [total_close hlabel LabelSchema.additive_count, hget]
    cases hs : (Collection.updateAll ∅ false rows).get? label with
    | none => rw [hsurveys.mapsOf_eq_nil hs]; rfl
    | some s => exact (hsurveys.schema hs).count
  · rw [total_close hlabel (LabelSchema.additive_observed name), hget]
    cases hs : (Collection.updateAll ∅ false rows).get? label with
    | none => rw [hsurveys.mapsOf_eq_nil hs]; rfl
    | some s => exact (hsurveys.schema hs).observed name

end Pool

end GraphExport
