import GraphExport.Proofs.Job.Deeds
import GraphExport.Proofs.Output.DataRows

/-!
# GraphExport.Proofs.Job.Took

What is there after deeds that all went well: a file for each kind and label that has rows, with
these rows, and an entry in the statistics that counts them.

* `Deed.rows`: the rows that deeds write for a kind and label.
* `Desk.Took`: what deeds have done to the files and to the statistics. `Desk.took_new` before the
  first, `Desk.Took.take` for one deed, `Desk.took_takeAll` for all.
-/

namespace GraphExport

/-! ## Rows -/

namespace Deed

/-- What deeds do to the files, as acts of a pool that go well. -/
def log (deeds : List Deed) : PoolLog :=
  deeds.filterMap fun
    | .seed kind schemas => some (.seed kind schemas, .ok ())
    | .row kind label i _ => some (.write kind label i, .ok ())
    | _ => none

/-- The rows that are written for a kind and label, with their properties. -/
def rows (kind : OutputKind) (label : Label) (deeds : List Deed) : List (Item × PropertyMap) :=
  deeds.filterMap fun
    | .row k l i properties => if k = kind ∧ l = label then some (i, properties) else none
    | _ => none

theorem rows_append (kind : OutputKind) (label : Label) (deeds more : List Deed) :
    rows kind label (deeds ++ more) = rows kind label deeds ++ rows kind label more :=
  List.filterMap_append

theorem rows_seeds (kind : OutputKind) (label : Label) (seeds : List (OutputKind × Collection)) :
    rows kind label (seeds.map fun c => .seed c.1 c.2) = [] := by
  rw [rows, List.filterMap_map]
  exact List.filterMap_eq_nil_iff.2 fun _ _ => rfl

theorem items_log (kind : OutputKind) (label : Label) (deeds : List Deed) :
    (log deeds).items kind label = (rows kind label deeds).map (·.1) := by
  induction deeds with
  | nil => rfl
  | cons d rest ih =>
    have hlog : log (d :: rest) = log [d] ++ log rest := by
      rw [log, log, log, ← List.filterMap_append]
      rfl
    have hrows : rows kind label (d :: rest) = rows kind label [d] ++ rows kind label rest :=
      rows_append kind label [d] rest
    have hitems : (log [d]).items kind label = (rows kind label [d]).map (·.1) := by
      cases d with
      | row k l i properties =>
        by_cases hkey : k = kind ∧ l = label <;> simp [log, rows, PoolLog.items, hkey]
      | _ => rfl
    rw [hlog, hrows, List.map_append, ← ih, ← hitems]
    exact List.filterMap_append

end Deed

theorem Ledger.isSome_file?_get {L L' : Ledger} {kind : OutputKind} {label : Label} {f : FileSchema}
    (h : L.get kind label = (.ok f, L')) (k : OutputKind) (l : Label) :
    (L'.file? k l).isSome ↔ (L.file? k l).isSome ∨ k = kind ∧ l = label := by
  unfold Ledger.get at h
  split at h
  · rename_i g hg
    cases h
    constructor
    · exact .inl
    · rintro (hold | ⟨rfl, rfl⟩)
      · exact hold
      · rw [hg]
        rfl
  · split at h
    · split at h
      · cases h
        rw [file?_setFile]
        split
        · rename_i hkey
          simp [hkey]
        · rename_i hkey
          simp [hkey, file?, on]
      · cases h
    · cases h

/-- A write makes its file and no other. -/
theorem Ledger.isSome_file?_write {L L' : Ledger} {kind : OutputKind} {label : Label} {i : Item}
    (h : L.act (.write kind label i) = (.ok (), L')) (k : OutputKind) (l : Label) :
    (L'.file? k l).isSome ↔ (L.file? k l).isSome ∨ k = kind ∧ l = label := by
  simp only [act] at h
  split at h
  · cases h
  · rename_i f L₁ hget
    have hsome := (isSome_file?_get hget kind label).2 (.inr ⟨rfl, rfl⟩)
    rw [← isSome_file?_get hget]
    split at h
    · cases h
    · cases h
      change ((L₁.setFile kind label _).file? k l).isSome ↔ _
      rw [file?_setFile]
      split
      · rename_i hkey
        simp [hkey, hsome]
      · rfl

/-! ## What deeds have done -/

namespace Desk

variable {base : Ledger} {deeds : List Deed} {k k' : Desk}

/-- A desk where nothing was done before has done some deeds. -/
structure Took (base : Ledger) (deeds : List Deed) (k : Desk) : Prop where
  filed : k.ledger.Filed base (Deed.log deeds)
  files : ∀ kind label, (k.ledger.file? kind label).isSome ↔ Deed.rows kind label deeds ≠ []
  counted : ∀ kind label, (k.stats.labels.get kind).get? label =
    (Deed.rows kind label deeds).foldl (fun s r => some ((s.getD {}).record r.2)) none

/-- Nothing was done to a new pool. -/
theorem took_new (dir : Path) (format : Format) (kinds : List OutputKind) (d : Disk)
    {stats : Stats} (hstats : stats.labels = .fill ∅) :
    (⟨Pool.ledger { dir, format, kinds } d, stats⟩ : Desk).Took
      (Pool.ledger { dir, format, kinds } d) [] where
  filed := Pool.filed_new dir format kinds d
  files kind label := by cases kind <;> simp [Deed.rows, Ledger.file?] <;> rfl
  counted kind label := by rw [hstats]; cases kind <;> rfl

/-- A deed that writes no row. -/
theorem Took.keep (h : k.Took base deeds) {d : Deed}
    (hfiled : k'.ledger.Filed base (Deed.log deeds ++ Deed.log [d]))
    (hrows : ∀ kind label, Deed.rows kind label [d] = [])
    (hfiles : k'.ledger.files = k.ledger.files) (hstats : k'.stats.labels = k.stats.labels) :
    k'.Took base (deeds ++ [d]) := by
  refine ⟨?_, fun kind label => ?_, fun kind label => ?_⟩
  · rwa [Deed.log, List.filterMap_append]
  · rw [Deed.rows_append, hrows, List.append_nil, ← h.files, Ledger.file?, hfiles, Ledger.file?]
  · rw [Deed.rows_append, hrows, List.append_nil, ← h.counted, hstats]

/-- What one deed adds. -/
theorem Took.take (h : k.Took base deeds) {d : Deed} (htake : take d k = (.ok (), k')) :
    k'.Took base (deeds ++ [d]) := by
  cases d with
  | seed kind schemas =>
    cases htake
    exact h.keep (h.filed.act (a := .seed kind schemas) rfl) (fun _ _ => rfl) rfl rfl
  | skip =>
    cases htake
    exact h.keep (by rw [show Deed.log [.skip] = [] from rfl, List.append_nil]; exact h.filed)
      (fun _ _ => rfl) rfl rfl
  | abandon =>
    cases htake
    exact h.keep (by rw [show Deed.log [.abandon] = [] from rfl, List.append_nil]; exact h.filed)
      (fun _ _ => rfl) rfl rfl
  | row kind label i properties =>
    simp only [Desk.take] at htake
    split at htake
    · cases htake
    · rename_i L hact
      cases htake
      have hrow : ∀ k l, Deed.rows k l [.row kind label i properties] =
          if k = kind ∧ l = label then [(i, properties)] else [] := by
        intro k l
        by_cases hkey : kind = k ∧ label = l
        · simp [Deed.rows, hkey]
        · rw [if_neg fun hkey' => hkey ⟨hkey'.1.symm, hkey'.2.symm⟩]
          simp [Deed.rows, hkey]
      refine ⟨?_, fun k' l => ?_, fun k' l => ?_⟩
      · rw [Deed.log, List.filterMap_append]
        exact h.filed.act hact
      · rw [Ledger.isSome_file?_write hact, h.files, Deed.rows_append, hrow]
        by_cases hkey : k' = kind ∧ l = label <;> simp [hkey]
      · rw [Deed.rows_append, hrow, List.foldl_append, ← h.counted, Stats.record]
        dsimp only
        by_cases hkind : k' = kind
        · subst hkind
          rw [PerKind.modify, PerKind.get_set_self, SortedMap.get?_alter]
          by_cases hlabel : l = label <;> simp [hlabel]
        · rw [PerKind.modify, PerKind.get_set_of_ne _ _ hkind]
          simp [hkind]

theorem took_takeAll {start : Desk} (hstart : start.Took base [])
    (htake : takeAll deeds start = (.ok (), k)) : k.Took base deeds :=
  feed_ok_keeps (P := fun deeds k => k.Took base deeds)
    (fun _ _ _ _ h htake => h.take htake) deeds hstart htake

theorem Took.countOf (h : k.Took base deeds) (kind : OutputKind) (label : Label) :
    k.stats.countOf kind label = (Deed.rows kind label deeds).length := by
  have hcount : ∀ (rows : List (Item × PropertyMap)) (s : Option LabelStats),
      ((rows.foldl (fun s r => some ((s.getD {}).record r.2)) s).map (·.count)).getD 0 =
        (s.map (·.count)).getD 0 + rows.length := by
    intro rows
    induction rows with
    | nil => intro s; rfl
    | cons r rest ih =>
      intro s
      rw [List.foldl_cons, ih, List.length_cons, Nat.add_comm rest.length 1, ← Nat.add_assoc]
      cases s <;> rfl
  rw [Stats.countOf, h.counted, hcount]
  exact Nat.zero_add _

/-- The one file of a kind and label that has rows, and how many. -/
theorem Took.file (h : k.Took base deeds) {kind : OutputKind} (hkind : kind ≠ .results)
    {label : Label} (hrows : Deed.rows kind label deeds ≠ []) :
    ∃ f text, (k.ledger.fragments.get kind).filesOf label = SortedMap.insert ∅ f.path.text f ∧
      k.ledger.tree.read? f.path = some text ∧
      f.format.dataRows text = (Deed.rows kind label deeds).length ∧
      f.schema.count = (Deed.rows kind label deeds).length := by
  obtain ⟨f, hf⟩ := Option.isSome_iff_exists.1 ((h.files kind label).2 hrows)
  obtain ⟨text, htext, hdata⟩ := h.filed.dataRows hkind hf
  have hcount := h.filed.count_schema hf
  rw [Deed.items_log, List.length_map] at hdata hcount
  refine ⟨f, text, ?_, htext, hdata, hcount⟩
  rw [h.filed.filesOf_fragments, hf]

/-- A kind and label without rows have no file. -/
theorem Took.no_file (h : k.Took base deeds) {kind : OutputKind} {label : Label}
    (hrows : Deed.rows kind label deeds = []) :
    (k.ledger.fragments.get kind).filesOf label = ∅ := by
  have hnone : k.ledger.file? kind label = none := by
    rw [← Option.not_isSome_iff_eq_none, h.files, not_not]
    exact hrows
  rw [h.filed.filesOf_fragments, hnone]

end Desk

end GraphExport
