import GraphExport.Proofs.Output.Rewrite
import GraphExport.Proofs.Schema.Widening

/-!
# GraphExport.Proofs.Output.Masters

From the files that workers leave to the files of the job in line with the master schemas.

* `Fragments.Lists`: fragments that hold the files of a list, each under its label.
  `Fragments.lists_foldl`: registering files at different places gives such fragments.
* `Masters.mem_jobs`: every file is brought in line with the schema that the job returns for its
  label, and that schema has all the columns of the file.
* `reconcileAll_ok`: files at different places are brought in line independently of each other.
-/

namespace GraphExport

namespace Fragments

/-- The fragments hold the files of a list, each under its label and id. -/
structure Lists (f : Fragments) (l : List (String × FileSchema)) : Prop where
  get : ∀ label id file, ((f.get? label).getD ∅).get? id = some file ↔
    (id, file) ∈ l ∧ file.schema.label = label
  used : ∀ label files, f.get? label = some files → ∃ id file, files.get? id = some file

theorem lists_empty : Lists ∅ [] :=
  ⟨fun label id file => by simp, fun label files h => by simp at h⟩

/-- Where a file is filed: the label that it holds, and its id. -/
def place (e : String × FileSchema) : Label × String := (e.2.schema.label, e.1)

theorem nodup_place {l : List (String × FileSchema)} (h : (l.map (·.1)).Nodup) :
    (l.map place).Nodup := by
  rw [List.nodup_iff_pairwise_ne, List.pairwise_map] at h ⊢
  exact h.imp fun hne heq => hne (congrArg Prod.snd heq)

theorem Lists.add {f : Fragments} {l : List (String × FileSchema)} (h : f.Lists l) {id : String}
    {file : FileSchema} (hplace : place (id, file) ∉ l.map place) :
    (f.add id file).Lists (l ++ [(id, file)]) := by
  have hfree : ∀ old : FileSchema, (id, old) ∈ l → old.schema.label ≠ file.schema.label := by
    intro old hmem heq
    exact hplace (List.mem_map.2 ⟨(id, old), hmem, by rw [place, place, heq]⟩)
  have hnone : ((f.get? file.schema.label).getD ∅).get? id = none := by
    cases hget : ((f.get? file.schema.label).getD ∅).get? id with
    | none => rfl
    | some old =>
      obtain ⟨hmem, hlabel⟩ := (h.get _ _ _).1 hget
      exact absurd hlabel (hfree old hmem)
  have hnew : (f.add id file).get? file.schema.label =
      some (((f.get? file.schema.label).getD ∅).insert id file) := by
    rw [Fragments.add, SortedMap.get?_alter, if_pos rfl, SortedMap.alter, hnone]
  refine ⟨fun label id' file' => ?_, fun label files hfiles => ?_⟩
  · by_cases hlabel : label = file.schema.label
    · subst hlabel
      rw [hnew, Option.getD_some, SortedMap.get?_insert]
      by_cases hid' : id' = id
      · subst hid'
        rw [if_pos rfl]
        constructor
        · intro heq
          obtain rfl := Option.some.inj heq
          exact ⟨by simp, rfl⟩
        · rintro ⟨hmem, hl⟩
          rcases List.mem_append.1 hmem with hmem | hmem
          · exact absurd hl (hfree file' hmem)
          · simp only [List.mem_singleton, Prod.mk.injEq, true_and] at hmem
            rw [hmem]
      · rw [if_neg hid', h.get]
        simp [hid']
    · rw [Fragments.add, SortedMap.get?_alter, if_neg hlabel, h.get]
      constructor
      · rintro ⟨hmem, hl⟩
        exact ⟨List.mem_append_left _ hmem, hl⟩
      · rintro ⟨hmem, hl⟩
        rcases List.mem_append.1 hmem with hmem | hmem
        · exact ⟨hmem, hl⟩
        · simp only [List.mem_singleton, Prod.mk.injEq] at hmem
          exact absurd (by rw [← hl, hmem.2]) hlabel
  · by_cases hlabel : label = file.schema.label
    · subst hlabel
      rw [hnew] at hfiles
      obtain rfl := Option.some.inj hfiles
      exact ⟨id, file, SortedMap.get?_insert_self _ _ _⟩
    · rw [Fragments.add, SortedMap.get?_alter, if_neg hlabel] at hfiles
      exact h.used label files hfiles

theorem Lists.foldl {f : Fragments} {l more : List (String × FileSchema)} (h : f.Lists l)
    (hplaces : ((l ++ more).map place).Nodup) :
    (more.foldl (fun f e => f.add e.1 e.2) f).Lists (l ++ more) := by
  induction more generalizing f l with
  | nil => simpa using h
  | cons e rest ih =>
    have hplace : place e ∉ l.map place := by
      rw [List.map_append, List.nodup_append] at hplaces
      intro hmem
      exact hplaces.2.2 (place e) hmem (place e) (by simp) rfl
    rw [List.append_cons] at hplaces ⊢
    exact ih (h.add hplace) hplaces

/-- Files that are registered at different places are held each for itself. -/
theorem lists_foldl {l : List (String × FileSchema)} (hplaces : (l.map place).Nodup) :
    Lists (l.foldl (fun f e => f.add e.1 e.2) ∅) l := by
  rw [← List.nil_append l] at hplaces
  exact lists_empty.foldl hplaces

theorem Lists.mem_files {f : Fragments} {l : List (String × FileSchema)} (h : f.Lists l)
    {e : String × FileSchema} : e ∈ f.files ↔ e ∈ l := by
  obtain ⟨id, file⟩ := e
  simp only [files, List.mem_flatMap, SortedMap.mem_values, SortedMap.mem_entries]
  constructor
  · rintro ⟨files, ⟨label, hlabel⟩, hid⟩
    exact ((h.get label id file).1 (by rw [hlabel]; exact hid)).1
  · intro hmem
    have hget := (h.get file.schema.label id file).2 ⟨hmem, rfl⟩
    cases hfiles : f.get? file.schema.label with
    | none => rw [hfiles] at hget; cases hget
    | some files => exact ⟨files, ⟨_, hfiles⟩, by rw [hfiles] at hget; exact hget⟩

theorem Lists.nodup_files {f : Fragments} {l : List (String × FileSchema)} (h : f.Lists l)
    (hids : (l.map (·.1)).Nodup) : (f.files.map (·.1)).Nodup := by
  have hsame : ∀ {id file file'}, (id, file) ∈ l → (id, file') ∈ l → file = file' := by
    intro id file file' hmem hmem'
    have h₁ := (lookup_eq_some_iff hids).2 hmem
    have h₂ := (lookup_eq_some_iff hids).2 hmem'
    exact Option.some.inj (h₁.symm.trans h₂)
  have hget : ∀ {label files id file}, (label, files) ∈ f.entries → (id, file) ∈ files.entries →
      (id, file) ∈ l ∧ file.schema.label = label := by
    intro label files id file hlabel hid
    rw [SortedMap.mem_entries] at hlabel hid
    exact (h.get label id file).1 (by rw [hlabel]; exact hid)
  rw [files, SortedMap.values, List.flatMap_map, List.map_flatMap, List.nodup_iff_pairwise_ne,
    List.pairwise_flatMap]
  refine ⟨fun e _ => List.nodup_iff_pairwise_ne.1 e.2.increasing.nodup_keys, ?_⟩
  -- Files of different labels have different ids, since the label is a part of the file.
  refine List.Pairwise.imp_of_mem ?_
    (List.pairwise_map.1 (List.nodup_iff_pairwise_ne.1 f.increasing.nodup_keys))
  rintro ⟨label, files⟩ ⟨label', files'⟩ hmem hmem' hne id hid _ hid' rfl
  obtain ⟨⟨_, file⟩, hfile, rfl⟩ := List.mem_map.1 hid
  obtain ⟨⟨_, file'⟩, hfile', heq⟩ := List.mem_map.1 hid'
  simp only at heq
  subst heq
  obtain ⟨h₁, hl₁⟩ := hget hmem hfile
  obtain ⟨h₂, hl₂⟩ := hget hmem' hfile'
  exact hne (by rw [← hl₁, ← hl₂, hsame h₁ h₂])

theorem foldl_extend (fragments : List Fragments) (f : Fragments) :
    fragments.foldl extend f =
      (fragments.flatMap files).foldl (fun f e => f.add e.1 e.2) f := by
  induction fragments generalizing f with
  | nil => rfl
  | cons g rest ih => rw [List.foldl_cons, ih, List.flatMap_cons, List.foldl_append, extend]

end Fragments

namespace Masters

theorem schema_master (label : Label) (files : SortedMap String FileSchema) :
    (master label files).schema =
      ({ label } : LabelSchema).unionAll (files.values.map (·.schema)) :=
  List.foldl_map.symm

theorem mem_names_master {label : Label} {files : SortedMap String FileSchema} {name : String} :
    name ∈ (master label files).schema.names ↔
      ∃ id file, files.get? id = some file ∧ name ∈ file.schema.names := by
  simp only [schema_master, LabelSchema.mem_names_unionAll, LabelSchema.names_new,
    List.not_mem_nil, false_or, List.mem_map, SortedMap.mem_values]
  constructor
  · rintro ⟨_, ⟨file, ⟨id, hid⟩, rfl⟩, hname⟩
    exact ⟨id, file, hid, hname⟩
  · rintro ⟨id, file, hid, hname⟩
    exact ⟨_, ⟨file, ⟨id, hid⟩, rfl⟩, hname⟩

section OfFragments

variable {fragments : List Fragments} {l : List (String × FileSchema)}

theorem get?_ofFragments (fragments : List Fragments) (label : Label) :
    (ofFragments fragments).get? label =
      ((fragments.foldl Fragments.extend ∅).get? label).map (master label) :=
  SortedMap.get?_mapValues _ _ _

theorem get?_schemas (m : Masters) (label : Label) :
    m.schemas.get? label = (m.get? label).map (·.schema) :=
  SortedMap.get?_mapValues _ _ _

theorem lists_extend
    (hplaces : ((fragments.flatMap Fragments.files).map Fragments.place).Nodup) :
    (fragments.foldl Fragments.extend ∅).Lists (fragments.flatMap Fragments.files) := by
  rw [Fragments.foldl_extend]
  exact Fragments.lists_foldl hplaces

theorem mem_jobs (hl : (fragments.foldl Fragments.extend ∅).Lists l) {label : Label}
    {canonical : LabelSchema} {file : FileSchema} :
    (label, canonical, file) ∈ (ofFragments fragments).jobs ↔
      (∃ id, (id, file) ∈ l) ∧ file.schema.label = label ∧
        (ofFragments fragments).schemas.get? label = some canonical := by
  simp only [jobs, List.mem_flatMap, Prod.exists, SortedMap.mem_entries, List.mem_map,
    Prod.mk.injEq, SortedMap.mem_values, get?_schemas, get?_ofFragments, Option.map_eq_some_iff]
  constructor
  · rintro ⟨label, _, ⟨files, hfiles, rfl⟩, file, ⟨id, hid⟩, rfl, rfl, rfl⟩
    have := (hl.get label id file).1 (by rw [hfiles]; exact hid)
    exact ⟨⟨id, this.1⟩, this.2, _, ⟨files, hfiles, rfl⟩, rfl⟩
  · rintro ⟨⟨id, hmem⟩, rfl, _, ⟨files, hfiles, rfl⟩, rfl⟩
    have := (hl.get file.schema.label id file).2 ⟨hmem, rfl⟩
    rw [hfiles] at this
    exact ⟨_, _, ⟨files, hfiles, rfl⟩, file, ⟨id, this⟩, rfl, rfl, rfl⟩

/-- A label is in the schema that is returned if and only if some file holds it. -/
theorem isSome_schemas (hl : (fragments.foldl Fragments.extend ∅).Lists l) {label : Label} :
    ((ofFragments fragments).schemas.get? label).isSome ↔
      ∃ id file, (id, file) ∈ l ∧ file.schema.label = label := by
  simp only [get?_schemas, get?_ofFragments, Option.isSome_map]
  constructor
  · intro h
    obtain ⟨files, hfiles⟩ := Option.isSome_iff_exists.1 h
    obtain ⟨id, file, hid⟩ := hl.used label files hfiles
    exact ⟨id, file, (hl.get label id file).1 (by rw [hfiles]; exact hid)⟩
  · rintro ⟨id, file, hmem⟩
    have := (hl.get label id file).2 hmem
    cases hfiles : (fragments.foldl Fragments.extend ∅).get? label with
    | none => rw [hfiles] at this; cases this
    | some files => rfl

/-- The schema that is returned for a label has the columns of the files of the label. -/
theorem mem_names_schemas (hl : (fragments.foldl Fragments.extend ∅).Lists l) {label : Label}
    {canonical : LabelSchema} (h : (ofFragments fragments).schemas.get? label = some canonical)
    {name : String} :
    name ∈ canonical.names ↔
      ∃ id file, (id, file) ∈ l ∧ file.schema.label = label ∧ name ∈ file.schema.names := by
  simp only [get?_schemas, get?_ofFragments, Option.map_eq_some_iff] at h
  obtain ⟨_, ⟨files, hfiles, rfl⟩, rfl⟩ := h
  rw [mem_names_master]
  have hget := fun id file => hl.get label id file
  rw [hfiles] at hget
  simp only [Option.getD_some] at hget
  simp only [hget, and_assoc]

/-- The schema that is returned for a label is the union over the files of the label. -/
theorem exists_unionAll (hl : (fragments.foldl Fragments.extend ∅).Lists l) {label : Label}
    {canonical : LabelSchema} (h : (ofFragments fragments).schemas.get? label = some canonical) :
    ∃ schemas : List LabelSchema, schemas ≠ [] ∧
      canonical = ({ label } : LabelSchema).unionAll schemas ∧
      ∀ s ∈ schemas, ∃ id file, (id, file) ∈ l ∧ file.schema.label = label ∧ s = file.schema := by
  simp only [get?_schemas, get?_ofFragments, Option.map_eq_some_iff] at h
  obtain ⟨_, ⟨files, hfiles, rfl⟩, rfl⟩ := h
  refine ⟨files.values.map (·.schema), ?_, schema_master label files, fun s hs => ?_⟩
  · obtain ⟨id, file, hid⟩ := hl.used label files hfiles
    have hmem : file ∈ files.values := SortedMap.mem_values.2 ⟨id, hid⟩
    exact List.ne_nil_of_mem (List.mem_map_of_mem hmem)
  · obtain ⟨file, hfile, rfl⟩ := List.mem_map.1 hs
    obtain ⟨id, hid⟩ := SortedMap.mem_values.1 hfile
    obtain ⟨hmem, hlabel⟩ := (hl.get label id file).1 (by rw [hfiles]; exact hid)
    exact ⟨id, file, hmem, hlabel, rfl⟩

/-- The schema of a label that one file holds is that of the file. -/
theorem get?_schemas_of_single (hl : (fragments.foldl Fragments.extend ∅).Lists l) {id : String}
    {file : FileSchema} (hmem : (id, file) ∈ l)
    (honly : ∀ e ∈ l, e.2.schema.label = file.schema.label → e = (id, file)) :
    (ofFragments fragments).schemas.get? file.schema.label =
      some (({ label := file.schema.label } : LabelSchema).union file.schema) := by
  have hget := hl.get file.schema.label
  cases hfiles : (fragments.foldl Fragments.extend ∅).get? file.schema.label with
  | none =>
    have := (hget id file).2 ⟨hmem, rfl⟩
    rw [hfiles] at this
    cases this
  | some files =>
    rw [hfiles] at hget
    simp only [Option.getD_some] at hget
    have hrest : (files.erase id).values = [] := by
      rw [List.eq_nil_iff_forall_not_mem]
      intro other hother
      obtain ⟨id', hid'⟩ := SortedMap.mem_values.1 hother
      rw [SortedMap.get?_erase] at hid'
      split at hid'
      · cases hid'
      · rename_i hne
        obtain ⟨hmem', hlabel'⟩ := (hget id' other).1 hid'
        exact hne (congrArg Prod.fst (honly _ hmem' hlabel'))
    have hvalues : files.values = [file] := by
      have := SortedMap.values_perm_of_get? ((hget id file).2 ⟨hmem, rfl⟩)
      rw [hrest] at this
      exact List.perm_singleton.1 this
    rw [get?_schemas, get?_ofFragments, hfiles]
    simp [master, hvalues]

theorem nodup_jobs (hl : (fragments.foldl Fragments.extend ∅).Lists l)
    (hids : (l.map (·.1)).Nodup) (hid : ∀ e ∈ l, e.1 = e.2.path.text) :
    ((ofFragments fragments).jobs.map (·.2.2.path)).Nodup := by
  have hjobs : (ofFragments fragments).jobs.map (·.2.2.path) =
      (fragments.foldl Fragments.extend ∅).files.map (·.2.path) := by
    simp only [jobs, ofFragments, SortedMap.mapValues, Fragments.files, SortedMap.values,
      List.flatMap_map, List.map_flatMap, master, List.map_map, Function.comp_def]
  rw [hjobs]
  have hnodup := hl.nodup_files hids
  rw [List.nodup_iff_pairwise_ne, List.pairwise_map] at hnodup ⊢
  refine hnodup.imp_of_mem fun {a b} ha hb hne heq => hne ?_
  rw [hid a (hl.mem_files.1 ha), hid b (hl.mem_files.1 hb), heq]

end OfFragments

end Masters

/-! ## One file after the other -/

theorem reconcile_ok_iff {kind : OutputKind} {m : Masters} {t t' : FileTree}
    {schemas : Collection} : reconcile .csv kind m t = (.ok schemas, t') ↔
      reconcileAll kind m.jobs t = (.ok (), t') ∧ schemas = m.schemas := by
  simp only [reconcile]
  split
  · rename_i hall
    rw [hall]
    simp [eq_comm, and_comm]
  · rename_i hall
    rw [hall]
    simp

/-- Whatever the format, the schemas are those of the masters. -/
theorem schemas_reconcile {format : Format} {kind : OutputKind} {m : Masters} {t t' : FileTree}
    {schemas : Collection} (h : reconcile format kind m t = (.ok schemas, t')) :
    schemas = m.schemas := by
  cases format with
  | json => exact (Except.ok.inj (Prod.mk.inj h).1).symm
  | csv => exact (reconcile_ok_iff.1 h).2

/-- Files at different places are brought in line independently of each other. -/
theorem reconcileAll_ok {kind : OutputKind} {jobs : List (Label × LabelSchema × FileSchema)}
    (hpaths : (jobs.map (·.2.2.path)).Nodup)
    (htemporary : ∀ a ∈ jobs, ∀ b ∈ jobs, a.2.2.path ≠ b.2.2.path.temporary) {t t' : FileTree}
    (h : reconcileAll kind jobs t = (.ok (), t')) :
    (∀ label canonical file, (label, canonical, file) ∈ jobs →
      ∃ content, t.get? file.path = some (.file content) ∧ t'.get? file.path =
        some (.file ((realigned? kind label canonical file.schema content).getD content))) ∧
    ∀ q, q ∉ jobs.map (·.2.2.path) → t'.get? q = t.get? q ∨
      ((∃ a ∈ jobs, q = a.2.2.path.temporary) ∧ t'.get? q = none) := by
  induction jobs generalizing t with
  | nil =>
    cases h
    exact ⟨fun label canonical file hmem => absurd hmem List.not_mem_nil, fun q _ => .inl rfl⟩
  | cons job rest ih =>
    obtain ⟨label₀, canonical₀, file₀⟩ := job
    unfold reconcileAll at h
    split at h
    · rename_i changed t₁ hfirst
      rw [List.map_cons, List.nodup_cons] at hpaths
      obtain ⟨content, hcontent, hnew, helse⟩ := reconcileFile_ok hfirst
      obtain ⟨hjobs, hframe⟩ := ih hpaths.2 (fun a ha b hb =>
        htemporary a (List.mem_cons_of_mem _ ha) b (List.mem_cons_of_mem _ hb)) h
      refine ⟨fun label canonical file hmem => ?_, fun q hq => ?_⟩
      · rcases List.mem_cons.1 hmem with heq | hmem
        · cases heq
          refine ⟨content, hcontent, ?_⟩
          rcases hframe file₀.path hpaths.1 with hsame | ⟨⟨a, ha, heq⟩, -⟩
          · rw [hsame, hnew]
          · exact absurd heq (htemporary _ List.mem_cons_self a (List.mem_cons_of_mem _ ha))
        · have hne : file.path ≠ file₀.path := by
            rintro heq
            exact hpaths.1 (by rw [← heq]; exact List.mem_map_of_mem (f := (·.2.2.path)) hmem)
          obtain ⟨old, hold, hlast⟩ := hjobs label canonical file hmem
          refine ⟨old, ?_, hlast⟩
          rcases helse file.path hne with hsame | ⟨heq, -⟩
          · rw [← hsame, hold]
          · exact absurd heq
              (htemporary _ (List.mem_cons_of_mem _ hmem) _ List.mem_cons_self)
      · rw [List.map_cons, List.mem_cons, not_or] at hq
        rcases hframe q hq.2 with hsame | ⟨⟨a, ha, heq⟩, hnone⟩
        · rcases helse q hq.1 with hfirst | ⟨heq, hnone⟩
          · exact .inl (hsame.trans hfirst)
          · exact .inr ⟨⟨_, List.mem_cons_self, heq⟩, hsame.trans hnone⟩
        · exact .inr ⟨⟨a, List.mem_cons_of_mem _ ha, heq⟩, hnone⟩
    · cases h

end GraphExport
