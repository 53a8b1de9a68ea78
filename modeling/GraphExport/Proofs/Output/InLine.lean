import GraphExport.Job.FullExport
import GraphExport.Proofs.Output.Ledger
import GraphExport.Proofs.Source.Feed

/-!
# GraphExport.Proofs.Output.InLine

Bringing the files of one pool in line. Each label has one file, so the master of a label is that
file's schema, and every file is brought in line by itself.

* `Ledger.Filed.lists_all`: the files that the rewrite is told of are those of the ledger.
* `Ledger.Filed.schemas`: the schemas that are returned. `Ledger.Filed.mem_jobs`: each file is
  brought in line with the schema of its label.
* `Ledger.Filed.reconciled`: the texts of the files after the rewrite, in both formats.
* `reconcileKind_none`: a kind without files is left alone.
-/

namespace GraphExport

/-- The text of a file once it is in line with the master of its label. -/
def Content.aligned (format : Format) (kind : OutputKind) (label : Label) (canonical : LabelSchema)
    (c : Content) : String :=
  match format with
  | .json => c.text
  | .csv => (realigned? kind label canonical c.schema c.text).getD c.text

namespace Ledger

variable {L base : Ledger} {log : PoolLog} {kind : OutputKind} {format : Format}

theorem Filed.lists_all (h : L.Filed base log) (kind : OutputKind) :
    ([L.fragments.get kind].foldl Fragments.extend ∅).Lists (L.fragments.get kind).files := by
  have hnodup := (h.lists_fragments kind).nodup_files (h.nodup_ids kind)
  rw [Fragments.foldl_extend, List.flatMap_singleton]
  exact Fragments.lists_foldl (Fragments.nodup_place hnodup)

theorem Filed.mem_files (h : L.Filed base log) {id : String} {f : FileSchema} :
    (id, f) ∈ (L.fragments.get kind).files ↔
      ∃ label, L.file? kind label = some f ∧ f.path.text = id := by
  rw [(h.lists_fragments kind).mem_files, mem_withIds]

/-- The schema of a label is that of its file. -/
theorem Filed.schemas (h : L.Filed base log) (label : Label) :
    (Masters.ofFragments [L.fragments.get kind]).schemas.get? label =
      (L.file? kind label).map fun f => ({ label } : LabelSchema).union f.schema := by
  have hlists := h.lists_all kind
  cases hf : L.file? kind label with
  | none =>
    rw [Option.map_none, ← Option.not_isSome_iff_eq_none, Masters.isSome_schemas hlists]
    rintro ⟨id, f, hmem, hlabel⟩
    obtain ⟨l, hl, -⟩ := h.mem_files.1 hmem
    rw [← h.label_schema hl, hlabel, hf] at hl
    cases hl
  | some f =>
    have hlabel := h.label_schema hf
    have hsingle := Masters.get?_schemas_of_single hlists (h.mem_files.2 ⟨label, hf, rfl⟩)
      fun e he hsame => by
        obtain ⟨l, hg, hid⟩ := h.mem_files.1 he
        have hl : l = label := by rw [← h.label_schema hg, hsame, hlabel]
        rw [hl, hf] at hg
        obtain rfl := Option.some.inj hg
        exact Prod.ext hid.symm rfl
    rw [hlabel] at hsingle
    exact hsingle

/-- The files that the rewrite is told of are those of the ledger, each with the schema of its
label. -/
theorem Filed.mem_jobs (h : L.Filed base log) {label : Label} {canonical : LabelSchema}
    {f : FileSchema} : (label, canonical, f) ∈ (Masters.ofFragments [L.fragments.get kind]).jobs ↔
      L.file? kind label = some f ∧ canonical = ({ label } : LabelSchema).union f.schema := by
  rw [Masters.mem_jobs (h.lists_all kind), h.schemas]
  constructor
  · rintro ⟨⟨id, hmem⟩, hlabel, hcanonical⟩
    obtain ⟨l, hf, -⟩ := h.mem_files.1 hmem
    rw [← h.label_schema hf, hlabel] at hf
    rw [hf, Option.map_some, Option.some.injEq] at hcanonical
    exact ⟨hf, hcanonical.symm⟩
  · rintro ⟨hf, rfl⟩
    exact ⟨⟨_, h.mem_files.2 ⟨label, hf, rfl⟩⟩, h.label_schema hf, by rw [hf]; rfl⟩

/-- Every file is brought in line, and all others stay, but for one whose name is that of a
temporary file. -/
theorem Filed.reconciled (h : L.Filed base log) {schemas : Collection} {t' : FileTree}
    (hreconcile : reconcile base.format kind (.ofFragments [L.fragments.get kind]) L.tree =
      (.ok schemas, t')) :
    (∀ label f text, L.file? kind label = some f → L.tree.get? f.path = some (.file text) →
      t'.read? f.path = some (Content.aligned base.format kind label
        (({ label } : LabelSchema).union f.schema) ⟨f.schema, text⟩)) ∧
    ∀ q, (∀ label f, L.file? kind label = some f → f.path ≠ q) →
      t'.read? q = L.tree.read? q ∨ t'.read? q = none := by
  cases hformat : base.format with
  | json =>
    rw [hformat] at hreconcile
    cases hreconcile
    exact ⟨fun label f text hf htext => FileTree.read?_eq_some.2 htext, fun q _ => .inl rfl⟩
  | csv =>
    rw [hformat] at hreconcile
    have hall := (reconcile_ok_iff.1 hreconcile).1
    have hlists := h.lists_all kind
    have hids : ((L.fragments.get kind).files.map (·.1)).Nodup :=
      (h.lists_fragments kind).nodup_files (h.nodup_ids kind)
    have hnames : ∀ {label f}, L.file? kind label = some f → ∃ n, f.path =
        (base.dir.child kind.name).child (LabelWriter.fileNameOf label n .csv) := by
      intro label f hf
      obtain ⟨n, -, hn⟩ := h.named hf
      exact ⟨n, by rw [hn, hformat]⟩
    obtain ⟨htexts, hothers⟩ := reconcileAll_ok
      (Masters.nodup_jobs hlists hids fun e he => by
        obtain ⟨l, -, hid⟩ := h.mem_files.1 (show (e.1, e.2) ∈ _ from he)
        exact hid.symm)
      (fun a ha b hb heq => by
        obtain ⟨m, hm⟩ := hnames (h.mem_jobs.1 (show (a.1, a.2.1, a.2.2) ∈ _ from ha)).1
        obtain ⟨n, hn⟩ := hnames (h.mem_jobs.1 (show (b.1, b.2.1, b.2.2) ∈ _ from hb)).1
        rw [hm, hn, Path.temporary_child] at heq
        exact LabelWriter.fileNameOf_ne_temporary _ _ _ _ (Path.child_inj heq).2) hall
    refine ⟨fun label f text hf htext => ?_, fun q hq => ?_⟩
    · obtain ⟨content, hcontent, haligned⟩ := htexts _ _ _ (h.mem_jobs.2 ⟨hf, rfl⟩)
      rw [htext] at hcontent
      obtain rfl := Entry.file.inj (Option.some.inj hcontent)
      exact FileTree.read?_eq_some.2 haligned
    · rcases hothers q (fun hmem => by
        obtain ⟨⟨label, canonical, f⟩, hjob, hpath⟩ := List.mem_map.1 hmem
        exact hq label f (h.mem_jobs.1 hjob).1 hpath) with heq | ⟨-, hnone⟩
      · exact .inl (FileTree.read?_congr heq)
      · exact .inr (by rw [FileTree.read?, hnone])

theorem fragments_of_none (hnone : ∀ label, L.file? kind label = none) :
    L.fragments.get kind = ∅ := by
  have hfiles : L.files.get kind = ∅ :=
    SortedMap.ext_get? fun label => (hnone label).trans (SortedMap.get?_empty label).symm
  rw [get_fragments, hfiles]
  rfl

end Ledger

/-- A kind without files is left alone. -/
theorem reconcileKind_none (format : Format) (kind : OutputKind) (context : String) (t : FileTree) :
    Job.reconcileKind format kind context [∅] t = (.ok ∅, t) := by
  cases format <;> rfl

end GraphExport
