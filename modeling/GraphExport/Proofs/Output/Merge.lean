import Mathlib.Data.List.Nodup
import GraphExport.Proofs.Output.Masters

/-!
# GraphExport.Proofs.Output.Merge

Bringing fragments together. Workers end in any order, and a union of schemas lists its columns in
the order of its sides; the files of a label are put in the order of their ids before their schemas
are joined.

* `Fragments.Filed`: what registering files can make. `Fragments.Apart`: no id stands for two files.
* `Fragments.Lists.eq_of_perm`: the fragments that hold the files of a list are known by its files.
* `Fragments.Lists.entries_eq`: the files of a label, in the order of their ids.
* `Masters.merge_independent`: the masters depend on the files alone, and what they hold.
-/

namespace GraphExport

namespace Fragments

/-! ## What is registered -/

/-- Every file is filed under the label of its schema. -/
def Filed (f : Fragments) : Prop :=
  ∀ e ∈ f.entries, ∀ file ∈ e.2.values, file.schema.label = e.1

instance (f : Fragments) : Decidable f.Filed :=
  inferInstanceAs (Decidable (∀ e ∈ f.entries, ∀ file ∈ e.2.values, file.schema.label = e.1))

/-- No id is registered for the same label in both. -/
def Apart (f g : Fragments) : Prop :=
  ∀ e ∈ f.files, ∀ e' ∈ g.files, e.2.schema.label = e'.2.schema.label → e.1 ≠ e'.1

instance (f g : Fragments) : Decidable (f.Apart g) :=
  inferInstanceAs (Decidable
    (∀ e ∈ f.files, ∀ e' ∈ g.files, e.2.schema.label = e'.2.schema.label → e.1 ≠ e'.1))

theorem filed_iff {f : Fragments} : f.Filed ↔
    ∀ label id file, (f.filesOf label).get? id = some file → file.schema.label = label := by
  constructor
  · intro h label id file hget
    rw [filesOf] at hget
    cases hfiles : f.get? label with
    | none => rw [hfiles] at hget; cases hget
    | some files =>
      rw [hfiles] at hget
      exact h (label, files) (SortedMap.mem_entries.2 hfiles) file
        (SortedMap.mem_values.2 ⟨id, hget⟩)
  · rintro h ⟨label, files⟩ hmem file hfile
    obtain ⟨id, hid⟩ := SortedMap.mem_values.1 hfile
    exact h label id file (by rw [filesOf, SortedMap.mem_entries.1 hmem]; exact hid)

/-- Registering a file files it under the label of its schema, also where it is joined to one that
is there. -/
theorem Filed.add {f : Fragments} (h : f.Filed) (id : String) (file : FileSchema) :
    (f.add id file).Filed := by
  rw [filed_iff] at h ⊢
  intro label id' file' hget
  rw [filesOf, Fragments.add, SortedMap.get?_alter] at hget
  split at hget
  case isFalse => exact h label id' file' hget
  case isTrue hlabel =>
    rw [Option.getD_some, SortedMap.get?_alter] at hget
    split at hget
    case isFalse => exact hlabel ▸ h _ id' file' hget
    case isTrue =>
      split at hget
      · rename_i old hold
        obtain rfl := Option.some.inj hget
        exact hlabel ▸ h _ id old hold
      · obtain rfl := Option.some.inj hget
        exact hlabel.symm

/-- Fragments to which files are registered, one after the other, are filed. -/
theorem filed_foldl_add (l : List (String × FileSchema)) :
    Filed (l.foldl (fun f e => f.add e.1 e.2) ∅) := by
  refine List.foldlRecOn (motive := Filed) l _ ?_ fun f hf e _ => hf.add e.1 e.2
  rintro e ⟨⟩

/-- Fragments that are filed have one file at a place. -/
theorem Filed.nodup_place {f : Fragments} (h : f.Filed) : (f.files.map place).Nodup := by
  have hplace : ∀ e ∈ f.entries, ∀ x ∈ e.2.entries, place x = (e.1, x.1) := fun e he x hx =>
    Prod.ext (h e he x.2 (List.mem_map_of_mem (f := (·.2)) hx)) rfl
  rw [files, SortedMap.values, List.flatMap_map, List.map_flatMap, List.nodup_iff_pairwise_ne,
    List.pairwise_flatMap]
  constructor
  · intro e he
    have hkeys := e.2.increasing.nodup_keys
    rw [List.nodup_iff_pairwise_ne, List.pairwise_map] at hkeys
    exact List.pairwise_map.2 (hkeys.imp fun hne heq => hne (congrArg Prod.snd heq))
  · have hkeys := f.increasing.nodup_keys
    rw [List.nodup_iff_pairwise_ne, List.pairwise_map] at hkeys
    refine hkeys.imp_of_mem fun {a b} ha hb hne x hx y hy heq => hne ?_
    obtain ⟨e, he, rfl⟩ := List.mem_map.1 hx
    obtain ⟨e', he', rfl⟩ := List.mem_map.1 hy
    rw [hplace a ha e he, hplace b hb e' he'] at heq
    exact (Prod.mk.inj heq).1

theorem nodup_place_flatMap {fragments : List Fragments} (hfiled : ∀ f ∈ fragments, f.Filed)
    (hapart : fragments.Pairwise Apart) : ((fragments.flatMap files).map place).Nodup := by
  rw [List.map_flatMap, List.nodup_iff_pairwise_ne, List.pairwise_flatMap]
  refine ⟨fun f hf => List.nodup_iff_pairwise_ne.1 (hfiled f hf).nodup_place,
    hapart.imp fun {f g} hfg x hx y hy heq => ?_⟩
  obtain ⟨e, he, rfl⟩ := List.mem_map.1 hx
  obtain ⟨e', he', rfl⟩ := List.mem_map.1 hy
  exact hfg e he e' he' (congrArg Prod.fst heq) (congrArg Prod.snd heq)

/-! ## Fragments by their files -/

/-- The files of a label among several. -/
def withLabel (label : Label) (l : List (String × FileSchema)) : List (String × FileSchema) :=
  l.filter fun e => e.2.schema.label = label

/-- The order of files by their ids. -/
def byId (a b : String × FileSchema) : Bool := (compare a.1 b.1).isLE

theorem byId_total (a b : String × FileSchema) : (byId a b || byId b a) = true := by
  have hswap : compare a.1 b.1 = (compare b.1 a.1).swap := Std.OrientedCmp.eq_swap
  rw [byId, byId, hswap]
  cases compare b.1 a.1 <;> rfl

section Lists

variable {f f' : Fragments} {l l' : List (String × FileSchema)}

/-- Fragments that hold the files of a list are known by its files. -/
theorem Lists.eq_of_perm (h : f.Lists l) (h' : f'.Lists l') (hperm : l.Perm l') : f = f' := by
  have hfiles : ∀ label, (f.get? label).getD ∅ = (f'.get? label).getD ∅ := fun label =>
    SortedMap.ext_get? fun id => Option.ext fun file => by rw [h.get, h'.get, hperm.mem_iff]
  refine SortedMap.ext_get? fun label => ?_
  have heq := hfiles label
  cases hf : f.get? label with
  | none =>
    cases hf' : f'.get? label with
    | none => rfl
    | some files =>
      obtain ⟨id, file, hfile⟩ := h'.used label files hf'
      rw [hf, hf', Option.getD_none, Option.getD_some] at heq
      rw [← heq] at hfile
      cases hfile
  | some files =>
    cases hf' : f'.get? label with
    | none =>
      obtain ⟨id, file, hfile⟩ := h.used label files hf
      rw [hf, hf', Option.getD_none, Option.getD_some] at heq
      rw [heq] at hfile
      cases hfile
    | some files' =>
      rw [hf, hf', Option.getD_some, Option.getD_some] at heq
      rw [heq]

theorem Lists.mem_withLabel (h : f.Lists l) {label : Label} {files : SortedMap String FileSchema}
    (hfiles : f.get? label = some files) {e : String × FileSchema} :
    e ∈ files.entries ↔ e ∈ withLabel label l := by
  have hget := h.get label e.1 e.2
  rw [hfiles, Option.getD_some] at hget
  rw [SortedMap.mem_entries, hget, withLabel, List.mem_filter, decide_eq_true_eq]

/-- The files of a label, in the order of their ids. -/
theorem Lists.entries_eq (h : f.Lists l) (hplaces : (l.map place).Nodup) {label : Label}
    {files : SortedMap String FileSchema} (hfiles : f.get? label = some files) :
    files.entries = (withLabel label l).mergeSort byId := by
  have hkeys := files.increasing.nodup_keys
  have hnodup : files.entries.Nodup := List.Nodup.of_map _ hkeys
  have hnodup' : (withLabel label l).Nodup := (List.Nodup.of_map _ hplaces).filter _
  have hperm : files.entries.Perm ((withLabel label l).mergeSort byId) :=
    ((List.perm_ext_iff_of_nodup hnodup hnodup').2 fun e => h.mem_withLabel hfiles).trans
      (List.mergeSort_perm _ _).symm
  have hsorted : files.entries.Pairwise fun a b => byId a b = true :=
    files.increasing.imp fun {a b} hlt => by rw [byId, hlt]; rfl
  have hsorted' : ((withLabel label l).mergeSort byId).Pairwise fun a b => byId a b = true :=
    List.pairwise_mergeSort (fun a b c => Std.TransCmp.isLE_trans) byId_total _
  refine List.Perm.eq_of_pairwise (fun a b ha hb hab hba => ?_) hsorted hsorted' hperm
  -- Two entries with one id are one entry.
  have hid : a.1 = b.1 := Std.LawfulEqOrd.eq_of_compare (Std.OrientedCmp.isLE_antisymm hab hba)
  refine Prod.ext hid (Option.some.inj ?_)
  rw [← SortedMap.mem_entries.1 ha, ← SortedMap.mem_entries.1 (hperm.mem_iff.2 hb), hid]

end Lists

end Fragments

/-! ## Masters -/

/-- The master is that of these files of a label. -/
structure Master.Gathers (m : Master) (label : Label) (l : List (String × FileSchema)) : Prop where
  /-- All files are there, once each and in the order of their ids. -/
  files : m.files.entries = l.mergeSort Fragments.byId
  /-- The schema is their union in that order. -/
  schema : m.schema =
    ({ label } : LabelSchema).unionAll ((l.mergeSort Fragments.byId).map (·.2.schema))
  count : m.schema.count = (l.map (·.2.schema.count)).sum
  observed : ∀ name, m.schema.observed name = (l.map (·.2.schema.observed name)).sum
  names : ∀ name, name ∈ m.schema.names ↔ ∃ e ∈ l, name ∈ e.2.schema.names
  wide : ∀ e ∈ l, e.2.schema.Within m.schema

theorem Masters.gathers_master {label : Label} {files : SortedMap String FileSchema}
    {l : List (String × FileSchema)} (h : files.entries = l.mergeSort Fragments.byId) :
    (master label files).Gathers label l := by
  have hperm : files.entries.Perm l := h ▸ List.mergeSort_perm _ _
  have hschema : (master label files).schema =
      ({ label } : LabelSchema).unionAll (files.entries.map (·.2.schema)) := by
    rw [schema_master, SortedMap.values, List.map_map]
    rfl
  refine ⟨h, by rw [hschema, h], ?_, fun name => ?_, fun name => ?_, fun e he => ?_⟩
  · rw [hschema, LabelSchema.count_unionAll, List.map_map]
    exact (Nat.zero_add _).trans (hperm.map _).sum_nat
  · rw [hschema, LabelSchema.observed_unionAll, List.map_map]
    exact (Nat.zero_add _).trans (hperm.map _).sum_nat
  · rw [hschema, LabelSchema.mem_names_unionAll]
    simp only [LabelSchema.names_new, List.not_mem_nil, false_or, List.mem_map,
      exists_exists_and_eq_and, hperm.mem_iff]
  · rw [hschema]
    exact (LabelSchema.within_unionAll _ _).2 _
      (List.mem_map_of_mem (f := (·.2.schema)) (hperm.mem_iff.2 he))

/-- Where no id stands for two files of a label, the masters do not depend on the order of the
fragments, nor on how the files are spread over fragments. A label has a master if a file holds it,
and that is the master of all its files. -/
theorem Masters.merge_independent {fragments : List Fragments}
    (hfiled : ∀ f ∈ fragments, f.Filed) (hapart : fragments.Pairwise Fragments.Apart) :
    (∀ fragments' : List Fragments, fragments'.Perm fragments →
      ofFragments fragments' = ofFragments fragments) ∧
    (∀ fragments' : List Fragments,
      (fragments'.flatMap Fragments.files).Perm (fragments.flatMap Fragments.files) →
        ofFragments fragments' = ofFragments fragments) ∧
    ∀ label, match (ofFragments fragments).get? label with
      | none => Fragments.withLabel label (fragments.flatMap Fragments.files) = []
      | some m => Fragments.withLabel label (fragments.flatMap Fragments.files) ≠ [] ∧
          m.Gathers label (Fragments.withLabel label (fragments.flatMap Fragments.files)) := by
  have hplaces := Fragments.nodup_place_flatMap hfiled hapart
  have hlists := lists_extend hplaces
  have hregroup : ∀ fragments' : List Fragments,
      (fragments'.flatMap Fragments.files).Perm (fragments.flatMap Fragments.files) →
        ofFragments fragments' = ofFragments fragments := by
    intro fragments' hperm
    have hlists' := lists_extend ((hperm.map Fragments.place).nodup_iff.2 hplaces)
    rw [ofFragments, ofFragments, hlists'.eq_of_perm hlists hperm]
  refine ⟨fun fragments' hperm => hregroup _ (hperm.flatMap_right _), hregroup, fun label => ?_⟩
  rw [get?_ofFragments]
  cases hfiles : (fragments.foldl Fragments.extend ∅).get? label with
  | none =>
    rw [Option.map_none]
    refine List.filter_eq_nil_iff.2 fun e he hlabel => ?_
    have hget := (hlists.get label e.1 e.2).2 ⟨he, of_decide_eq_true hlabel⟩
    rw [hfiles] at hget
    cases hget
  | some files =>
    rw [Option.map_some]
    refine ⟨fun hnil => ?_, gathers_master (hlists.entries_eq hplaces hfiles)⟩
    obtain ⟨id, file, hfile⟩ := hlists.used label files hfiles
    have hmem := (hlists.mem_withLabel hfiles).1 (SortedMap.mem_entries.2 hfile)
    rw [hnil] at hmem
    cases hmem

/-- The fragments of a worker that has written one person to a file. -/
def personFile (id : String) (properties : List (String × Json)) : Fragments :=
  Fragments.add ∅ id
    ⟨.ofNames [id], .csv, ({ label := .single "person" } : LabelSchema).update
      (.ofList properties) false⟩

/-- The columns of the first file come first, whichever worker ends first. -/
theorem Masters.merge_independent_two_workers :
    let late := personFile "person-2.csv" [("name", .str "marko"), ("age", .str "?")]
    let early := personFile "person-1.csv" [("age", .int 27), ("city", .str "x")]
    ofFragments [late, early] = ofFragments [early, late] ∧
      ((ofFragments [early, late]).get? (.single "person")).map (fun m =>
        (m.files.keys, m.schema.count, m.schema.columns.entries.map fun e =>
          (e.1, e.2.dataType, e.2.observations))) =
        some (["person-1.csv", "person-2.csv"], 2,
          [("age", .string, 2), ("city", .string, 1), ("name", .string, 1)]) := by
  intro late early
  refine ⟨?_, by decide +kernel⟩
  exact (merge_independent (by decide +kernel) (by decide +kernel)).1 _ (.swap _ _ _)

end GraphExport
