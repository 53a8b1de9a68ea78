import Mathlib.Data.List.Induction
import GraphExport.Proofs.Output.Ledger
import GraphExport.Proofs.Output.Merge
import GraphExport.Proofs.Schema.Seeded

/-!
# GraphExport.Proofs.Output.Columns

The columns of the files of one pool, whatever their format.

* `Collection.written`: the schemas of files after some rows, where a file may start with columns of
  its own.
* `Pool.schema?_writeElement`: a write adds one row to the schema of its kind and label.
* `Pool.Wrote.writeElement`: so the schemas of a pool are those of the rows that it has written.
* `Pool.Wrote.schemas_close`: and so are the schemas that come of its fragments alone.
-/

namespace GraphExport

namespace Collection

/-- What the schema of a new file is, where files start with the columns of the seed. -/
def firstOf (seed : Collection) (label : Label) : LabelSchema :=
  ((seed.get? label).map LabelSchema.columnsOf).getD { label }

/-- The schemas of the files of some rows. -/
def written (seed : Collection) (rows : List (Label × PropertyMap)) : Collection :=
  rows.foldl (fun c row => c.alter row.1 fun s =>
    (s.getD (seed.firstOf row.1)).update row.2 false) ∅

variable {seed : Collection} {rows : List (Label × PropertyMap)} {label : Label} {s : LabelSchema}

theorem get?_written_append (seed : Collection) (rows : List (Label × PropertyMap))
    (row : Label × PropertyMap) (label : Label) :
    (seed.written (rows ++ [row])).get? label = if label = row.1 then
      some ((((seed.written rows).get? row.1).getD (seed.firstOf row.1)).update row.2 false)
        else (seed.written rows).get? label := by
  rw [written, List.foldl_append, List.foldl_cons, List.foldl_nil, SortedMap.get?_alter]
  rfl

/-- The schema of a file is made of the rows of its label, in their order. -/
theorem get?_written (seed : Collection) (rows : List (Label × PropertyMap)) (label : Label) :
    (seed.written rows).get? label = if mapsOf label rows = [] then none
      else some ((seed.firstOf label).updateAll false (mapsOf label rows)) := by
  induction rows using List.reverseRecOn with
  | nil => rfl
  | append_singleton rows row ih =>
    rw [get?_written_append, mapsOf_concat]
    by_cases hlabel : label = row.1
    · subst hlabel
      have hone : (seed.firstOf row.1).updateAll false (mapsOf row.1 rows ++ [row.2]) =
          ((seed.firstOf row.1).updateAll false (mapsOf row.1 rows)).update row.2 false := by
        simp only [LabelSchema.updateAll, List.foldl_append, List.foldl_cons, List.foldl_nil]
      rw [if_pos rfl, if_pos rfl, ih, if_neg (List.append_ne_nil_of_right_ne_nil _ (by simp)), hone]
      split
      · rename_i hrows
        rw [hrows]
        rfl
      · rfl
    · rw [if_neg hlabel, if_neg (Ne.symm hlabel), ih, List.append_nil]

/-- Files that start without columns have the columns of their rows. -/
theorem written_empty (rows : List (Label × PropertyMap)) :
    written ∅ rows = updateAll ∅ false rows := by
  refine SortedMap.ext_get? fun label => ?_
  rw [get?_written, get?_updateAll]
  rfl

theorem label_firstOf (hseed : seed.Labelled) (label : Label) :
    (seed.firstOf label).label = label := by
  unfold firstOf
  cases hs : seed.get? label with
  | none => rfl
  | some s => exact hseed label s hs

end Collection

/-- An open writer that writes an element adds its properties to the schema of the file. -/
theorem LabelWriter.writeElement_schema {w w' : LabelWriter} (hopen : w.isOpen = true) {e : Element}
    {m : PropertyMap} {line : String} (he : e.properties = .ok m)
    (h : w.writeElement e = .ok (w', line)) : w' = w.row (w.schema.update m false) := by
  obtain ⟨schema, hentry, rfl⟩ := Item.writeTo_ok (i := .element e) hopen h
  obtain ⟨⟨m', hm', rfl⟩, -⟩ := Item.entry_element_ok hentry
  rw [he] at hm'
  rw [Except.ok.inj hm']

namespace Pool

/-- The schema of the file of a kind and label. -/
def schema? (p : Pool) (kind : OutputKind) (label : Label) : Option LabelSchema :=
  (p.writer? kind label).map (·.schema)

section

variable {p p' : Pool} {kind : OutputKind} {label : Label} {w : LabelWriter} {d d' : Disk}

theorem schema?_setWriter (p : Pool) (w : LabelWriter) (kind : OutputKind) (label : Label) :
    (p.setWriter w).schema? kind label =
      if kind = w.kind ∧ label = w.label then some w.schema else p.schema? kind label := by
  rw [schema?, writer?_setWriter]
  split <;> rfl

/-- Handles change hands, and the schemas stay as they are. -/
theorem Taken.schema? (htaken : p.Taken d p' d') (h : p.Keyed) (kind : OutputKind)
    (label : Label) : p'.schema? kind label = p.schema? kind label := by
  cases htaken with
  | free => rfl
  | @evicted victim _ _ hvictim =>
    obtain ⟨hwriter, -⟩ := h.of_leastRecent? hvictim
    have hevict : (p.evict victim).schema? kind label =
        (p.setWriter victim.suspend).schema? kind label := rfl
    rw [hevict, schema?_setWriter]
    split
    · rename_i hkey
      rw [Pool.schema?, hkey.1, hkey.2]
      exact (congrArg (Option.map LabelWriter.schema) hwriter).symm
    · rfl

/-- A request gives the writer of a file, which is a new one if need be, and changes no other. -/
theorem Requested.schema? (hreq : p.Requested kind label d (.ok w) p' d') (h : p.Keyed) :
    w.schema = (p.schema? kind label).getD ((p.seeds.get kind).firstOf label) ∧
      p'.seeds = p.seeds ∧ ∀ k l, p'.schema? k l =
        if k = kind ∧ l = label then some w.schema else p.schema? k l := by
  have htick : p.tick.Keyed := h
  obtain ⟨-, -, hkind, hlabel⟩ := hreq.writer? h
  cases hreq with
  | @ready v hw hopen =>
    obtain ⟨rfl, rfl⟩ := h hw
    refine ⟨by rw [Pool.schema?, hw]; rfl, rfl, fun k l => ?_⟩
    rw [schema?_setWriter]
    rfl
  | @served p₁ d₁ _ v hneeds htaken hfetch =>
    obtain ⟨-, -, -, hseeds, -⟩ := htaken.settings
    have hschema : v.schema = (p.schema? kind label).getD ((p.seeds.get kind).firstOf label) := by
      unfold fetch at hfetch
      split at hfetch
      · rename_i old hold
        obtain rfl := LabelWriter.reopen_ok (Prod.mk.inj hfetch).1
        rw [Pool.schema?, hold]
        rfl
      · rename_i hnone
        obtain ⟨hfile, -⟩ := LabelWriter.create_start hfetch
        rw [Pool.schema?, hnone]
        exact congrArg FileSchema.schema hfile
    refine ⟨hschema, hseeds, fun k l => ?_⟩
    rw [schema?_setWriter]
    simp only at hkind hlabel
    rw [hkind, hlabel]
    split
    · rfl
    · exact htaken.schema? htick k l

/-- A write adds one row to the schema of its kind and label. -/
theorem schema?_writeElement (hkeyed : p.Keyed) {e : Element} {m : PropertyMap}
    (he : e.properties = .ok m) (h : p.writeElement kind label e d = (.ok (), p', d')) :
    p'.Keyed ∧ p'.seeds = p.seeds ∧ ∀ k l, p'.schema? k l = if k = kind ∧ l = label then
      some (((p.schema? kind label).getD ((p.seeds.get kind).firstOf label)).update m false)
        else p.schema? k l := by
  rcases writeWith_cases h with ⟨f, -, hf⟩ | ⟨w, p₁, d₁, hget, hwritten⟩
  · cases hf
  · have hreq := requested hget
    obtain ⟨hschema, hseeds, hothers⟩ := hreq.schema? hkeyed
    obtain ⟨-, hopen, hkind, hlabel⟩ := hreq.writer? hkeyed
    cases hwritten with
    | @done w' line hline =>
      obtain rfl := LabelWriter.writeElement_schema hopen he hline
      refine ⟨(hreq.keyed hkeyed).setWriter _, hseeds, fun k l => ?_⟩
      rw [schema?_setWriter, ← hschema]
      simp only [LabelWriter.row, hkind, hlabel]
      split
      · rfl
      · rename_i hkey
        rw [hothers, if_neg hkey]

end

/-- The files of the kind are those of the rows. -/
structure Wrote (kind : OutputKind) (seed : Collection) (rows : List (Label × PropertyMap))
    (p : Pool) : Prop where
  keyed : p.Keyed
  seeds : p.seeds.get kind = seed
  schema : ∀ label, p.schema? kind label = (seed.written rows).get? label

variable {p p' : Pool} {kind : OutputKind} {label : Label} {d d' : Disk} {seed : Collection}
  {rows : List (Label × PropertyMap)}

theorem Wrote.writeElement (h : p.Wrote kind seed rows) {e : Element} {m : PropertyMap}
    (he : e.properties = .ok m) (hwrite : p.writeElement kind label e d = (.ok (), p', d')) :
    p'.Wrote kind seed (rows ++ [(label, m)]) := by
  obtain ⟨hkeyed, hseeds, hschema⟩ := schema?_writeElement h.keyed he hwrite
  refine ⟨hkeyed, by rw [hseeds, h.seeds], fun l => ?_⟩
  rw [hschema, Collection.get?_written_append, h.seeds, h.schema, h.schema]
  simp only [true_and]

/-- The fragments of a pool hold the files of its writers. -/
theorem get_close (p : Pool) (kind : OutputKind) (d : Disk) : (p.close d).1.get kind =
    ((p.writers.get kind).values.map fun w => (w.path.text, w.fileSchema)).foldl
      (fun f e => f.add e.1 e.2) ∅ := by
  rw [List.foldl_map]
  cases kind <;> rfl

section Close

variable (hlabel : ∀ label s, p.schema? kind label = some s → s.label = label) (d : Disk)

include hlabel

theorem nodup_place_writers :
    (((p.writers.get kind).values.map fun w => (w.path.text, w.fileSchema)).map
      Fragments.place).Nodup := by
  refine List.Nodup.of_map Prod.fst ?_
  -- The label of a file is the key of its writer.
  have hkeys : (((p.writers.get kind).values.map fun w => (w.path.text, w.fileSchema)).map
      Fragments.place).map Prod.fst = (p.writers.get kind).entries.map (·.1) := by
    rw [SortedMap.values, List.map_map, List.map_map, List.map_map]
    refine List.map_congr_left fun e he => hlabel e.1 e.2.schema ?_
    exact congrArg (Option.map LabelWriter.schema) (SortedMap.mem_entries.1 he)
  rw [hkeys]
  exact (p.writers.get kind).increasing.nodup_keys

/-- In the fragments of a pool alone each label has its one file. -/
theorem get?_schemas_close (label : Label) :
    (Masters.ofFragments [(p.close d).1.get kind]).schemas.get? label =
      (p.schema? kind label).map fun s => ({ label } : LabelSchema).union s := by
  have hfragments := p.get_close kind d
  have hfiled : ((p.close d).1.get kind).Filed := hfragments ▸ Fragments.filed_foldl_add _
  have hlists : ([(p.close d).1.get kind].foldl Fragments.extend ∅).Lists
      ([(p.close d).1.get kind].flatMap Fragments.files) := Masters.lists_extend
    (Fragments.nodup_place_flatMap (by simpa using hfiled) (List.pairwise_singleton _ _))
  have hmem : ∀ {id file}, (id, file) ∈ [(p.close d).1.get kind].flatMap Fragments.files ↔
      ∃ l w, p.writer? kind l = some w ∧ id = w.path.text ∧ file = w.fileSchema := by
    intro id file
    rw [List.flatMap_singleton, hfragments,
      (Fragments.lists_foldl (nodup_place_writers hlabel)).mem_files, List.mem_map]
    constructor
    · rintro ⟨w, hw, heq⟩
      obtain ⟨l, hl⟩ := SortedMap.mem_values.1 hw
      exact ⟨l, w, hl, (Prod.mk.inj heq).1.symm, (Prod.mk.inj heq).2.symm⟩
    · rintro ⟨l, w, hl, rfl, rfl⟩
      exact ⟨w, SortedMap.mem_values.2 ⟨l, hl⟩, rfl⟩
  have hwriter : ∀ {l w}, p.writer? kind l = some w → w.fileSchema.schema.label = l := by
    intro l w hw
    exact hlabel l w.schema (congrArg (Option.map LabelWriter.schema) hw)
  cases hw : p.writer? kind label with
  | none =>
    have hnone : ¬ ((Masters.ofFragments [(p.close d).1.get kind]).schemas.get? label).isSome := by
      rw [Masters.isSome_schemas hlists]
      rintro ⟨id, file, hfile, hl⟩
      obtain ⟨l, w, hl', -, rfl⟩ := hmem.1 hfile
      rw [hwriter hl'] at hl
      rw [hl, hw] at hl'
      cases hl'
    rw [Pool.schema?, hw]
    simpa using hnone
  | some w =>
    have hsingle := Masters.get?_schemas_of_single hlists (hmem.2 ⟨label, w, hw, rfl, rfl⟩) ?_
    · rw [hwriter hw] at hsingle
      rw [hsingle, Pool.schema?, hw]
      rfl
    · rintro ⟨id, file⟩ he hl
      obtain ⟨l, w', hl', rfl, rfl⟩ := hmem.1 he
      rw [hwriter hl', hwriter hw] at hl
      rw [hl, hw] at hl'
      rw [Option.some.inj hl']

end Close

/-- The schemas that come of the fragments of a pool alone are those of the rows. -/
theorem Wrote.schemas_close (h : p.Wrote kind seed rows) (hlabelled : seed.Labelled)
    (hproper : ∀ label s, seed.get? label = some s → s.Proper) (d : Disk) :
    (Masters.ofFragments [(p.close d).1.get kind]).schemas = seed.written rows := by
  have hfirst : ∀ label, (seed.firstOf label).Proper := by
    intro label
    unfold Collection.firstOf
    cases hs : seed.get? label with
    | none => exact fun name c hc => nomatch hc
    | some s => exact (hproper label s hs).of_columnsOf_eq (LabelSchema.columnsOf_columnsOf s).symm
  have hwritten : ∀ label s, p.schema? kind label = some s → s.label = label ∧ s.Proper := by
    intro label s hs
    rw [h.schema, Collection.get?_written] at hs
    split at hs
    · cases hs
    · obtain rfl := Option.some.inj hs
      rw [LabelSchema.label_updateAll]
      exact ⟨Collection.label_firstOf hlabelled label, (hfirst label).updateAll _ _⟩
  refine SortedMap.ext_get? fun label => ?_
  rw [get?_schemas_close (fun label s hs => (hwritten label s hs).1), ← h.schema]
  cases hs : p.schema? kind label with
  | none => rfl
  | some s =>
    obtain ⟨rfl, hs'⟩ := hwritten label s hs
    exact congrArg some (LabelSchema.union_new hs')

end Pool

end GraphExport
