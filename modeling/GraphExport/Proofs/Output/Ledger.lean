import Mathlib.Data.List.Basic
import GraphExport.Proofs.Output.Masters
import GraphExport.Proofs.Output.Names
import GraphExport.Proofs.Output.Request
import GraphExport.Proofs.Schema.Labelled

/-!
# GraphExport.Proofs.Output.Ledger

The files of a pool as they would be if there were no handles: every file can be written to at any
time.

* `Ledger.act`: what the acts of a pool do to its files.
* `Ledger.Filed`: a file holds the rows that were written for its kind and label, in order, and
  nothing else was written. `Ledger.Filed.act`: every act keeps it so.
* `Ledger.Filed.fragments`: the fragments of a pool that is closed name one file for each kind and
  label.
-/

namespace GraphExport

/-! ## Contents -/

/-- The columns of a file and its text. -/
structure Content where
  schema : LabelSchema
  text : String

namespace Content

/-- A new file. -/
def start (format : Format) (kind : OutputKind) (label : Label) (seed : Option LabelSchema) :
    Content :=
  let schema := (seed.map LabelSchema.columnsOf).getD { label }
  { schema
    text := match format with
      | .csv => Csv.line (csvHeader kind label schema)
      | .json => "" }

/-- A file with one more row. -/
def put (format : Format) (kind : OutputKind) (label : Label) (c : Content) (i : Item) :
    Except Failure Content :=
  (i.entry format kind label c.schema).map fun e => ⟨e.1, c.text ++ e.2⟩

/-- A file with more rows. -/
def putAll (format : Format) (kind : OutputKind) (label : Label) (c : Content) (items : List Item) :
    Except Failure Content :=
  items.foldlM (put format kind label) c

end Content

namespace Content

section

variable {format : Format} {kind : OutputKind} {label : Label} {c c' : Content}

theorem put_ok {i : Item} (h : c.put format kind label i = .ok c') :
    c'.schema.label = c.schema.label ∧ c'.schema.count = c.schema.count + 1 := by
  obtain ⟨e, hentry, rfl⟩ := map_eq_ok h
  exact Item.entry_ok hentry

theorem putAll_append (items : List Item) (i : Item)
    (h : c.putAll format kind label items = .ok c') :
    c.putAll format kind label (items ++ [i]) = c'.put format kind label i := by
  have hone : ∀ x : Except Failure Content, (x >>= fun c => .ok c) = x := by
    intro x
    cases x <;> rfl
  rw [putAll, List.foldlM_append, show items.foldlM (put format kind label) c = .ok c' from h]
  exact hone _

/-- Each row counts for one. -/
theorem putAll_ok {items : List Item} (h : c.putAll format kind label items = .ok c') :
    c'.schema.label = c.schema.label ∧ c'.schema.count = c.schema.count + items.length := by
  induction items generalizing c with
  | nil =>
    cases h
    exact ⟨rfl, rfl⟩
  | cons i rest ih =>
    obtain ⟨c₁, hput, hrest⟩ := bind_eq_ok (show put format kind label c i >>=
      (fun c => rest.foldlM (put format kind label) c) = .ok c' from h)
    obtain ⟨hlabel, hcount⟩ := ih hrest
    obtain ⟨hlabel₁, hcount₁⟩ := put_ok hput
    refine ⟨hlabel.trans hlabel₁, ?_⟩
    rw [hcount, hcount₁, List.length_cons]
    omega

theorem label_start {seed : Option LabelSchema} (h : ∀ s, seed = some s → s.label = label) :
    (start format kind label seed).schema.label = label := by
  cases seed with
  | none => rfl
  | some s => exact h s rfl

theorem count_start (format : Format) (kind : OutputKind) (label : Label)
    (seed : Option LabelSchema) : (start format kind label seed).schema.count = 0 := by
  cases seed <;> rfl

end

end Content

/-! ## The acts -/

/-- The files of a pool, and the directory that they are in. -/
structure Ledger where
  dir : Path
  format : Format
  kinds : List OutputKind
  seeds : PerKind Collection
  files : PerKind (SortedMap Label FileSchema)
  tree : FileTree
  filesNamed : Nat

namespace Ledger

def file? (L : Ledger) (kind : OutputKind) (label : Label) : Option FileSchema :=
  (L.files.get kind).get? label

def setFile (L : Ledger) (kind : OutputKind) (label : Label) (f : FileSchema) : Ledger :=
  { L with files := L.files.modify kind fun m => m.insert label f }

/-- The files and their number are those of a disk. -/
def on (L : Ledger) (d : Disk) : Ledger := { L with tree := d.tree, filesNamed := d.filesNamed }

/-- The files are those of a tree. -/
def onTree (L : Ledger) (t : FileTree) : Ledger := { L with tree := t }

/-- A disk without a bound on handles. -/
def disk (L : Ledger) : Disk := ⟨L.tree, L.filesNamed, { max := 0 }⟩

/-- The file of a kind and label, made if need be. -/
def get (L : Ledger) (kind : OutputKind) (label : Label) : Except Failure FileSchema × Ledger :=
  match L.file? kind label with
  | some f => (.ok f, L)
  | none =>
    if L.kinds.contains kind then
      match LabelWriter.create L.dir L.format kind label ((L.seeds.get kind).get? label) L.disk with
      | (.ok w, d) => (.ok w.fileSchema, (L.on d).setFile kind label w.fileSchema)
      | (.error f, d) => (.error f, L.on d)
    else (.error (Cause.noWriters kind.name), L)

def act : PoolAct → Ledger → Except Failure Unit × Ledger
  | .seed kind schemas, L =>
    (.ok (), { L with seeds := L.seeds.modify kind fun c => c.union schemas })
  | .get kind label, L => ((L.get kind label).1.map fun _ => (), (L.get kind label).2)
  | .write kind label i, L =>
    match L.get kind label with
    | (.error f, L) => (.error f, L)
    | (.ok f, L) =>
      match i.entry f.format kind label f.schema with
      | .error e => (.error e, L)
      | .ok (schema, line) =>
        (.ok (), { L.setFile kind label { f with schema } with tree := L.tree.append f.path line })

theorem file?_setFile (L : Ledger) (kind k : OutputKind) (label l : Label) (f : FileSchema) :
    (L.setFile kind label f).file? k l = if k = kind ∧ l = label then some f else L.file? k l := by
  unfold file? setFile PerKind.modify
  by_cases hkind : k = kind
  · subst hkind
    simp only [PerKind.get_set_self, true_and]
    exact SortedMap.get?_insert _ _ _ _
  · rw [PerKind.get_set_of_ne _ _ hkind, if_neg fun h => hkind h.1]

theorem file?_setFile_eq_some {L : Ledger} {kind k : OutputKind} {label l : Label}
    {f g : FileSchema} (h : (L.setFile kind label f).file? k l = some g) :
    (k = kind ∧ l = label ∧ g = f) ∨ (¬ (k = kind ∧ l = label) ∧ L.file? k l = some g) := by
  rw [file?_setFile] at h
  split at h
  · rename_i hkey
    exact .inl ⟨hkey.1, hkey.2, (Option.some.inj h).symm⟩
  · rename_i hkey
    exact .inr ⟨hkey, h⟩

end Ledger

/-! ## What was written -/

/-- What a pool has done, and how it went. -/
abbrev PoolLog := List (PoolAct × Except Failure Unit)

namespace PoolLog

/-- The items that were written for a kind and label, in order. -/
def items (kind : OutputKind) (label : Label) (log : PoolLog) : List Item :=
  log.filterMap fun
    | (.write k l i, .ok _) => if k = kind ∧ l = label then some i else none
    | _ => none

/-- The columns that files of a kind start with. -/
def seeds (kind : OutputKind) (log : PoolLog) : Collection :=
  log.foldl (fun c e => match e.1 with
    | .seed k schemas => if k = kind then c.union schemas else c
    | _ => c) ∅

/-- The writer of a kind and label was asked for, and it was there. -/
def Serves (kind : OutputKind) (label : Label) (log : PoolLog) : Prop :=
  (.get kind label, .ok ()) ∈ log ∨ ∃ i, (.write kind label i, .ok ()) ∈ log

section

variable {kind : OutputKind} {label : Label} {log : PoolLog}

theorem items_append (kind : OutputKind) (label : Label) (log : PoolLog)
    (e : PoolAct × Except Failure Unit) :
    items kind label (log ++ [e]) = items kind label log ++ items kind label [e] :=
  List.filterMap_append

theorem items_eq_nil (h : ¬ Serves kind label log) : items kind label log = [] := by
  rw [items, List.filterMap_eq_nil_iff]
  intro e he
  split
  · rename_i k l i _
    split
    · rename_i hkey
      obtain ⟨rfl, rfl⟩ := hkey
      exact absurd (.inr ⟨i, he⟩) h
    · rfl
  · rfl

theorem serves_append {e : PoolAct × Except Failure Unit} :
    Serves kind label (log ++ [e]) ↔ Serves kind label log ∨ Serves kind label [e] := by
  simp only [Serves, List.mem_append, exists_or]
  exact or_or_or_comm

theorem labelled_seeds (kind : OutputKind) (log : PoolLog) : (seeds kind log).Labelled := by
  unfold seeds
  generalize hc : (∅ : Collection) = c
  have hlabelled : c.Labelled := hc ▸ Collection.labelled_empty
  clear hc
  induction log generalizing c with
  | nil => exact hlabelled
  | cons e rest ih =>
    refine ih _ ?_
    dsimp only
    split
    · split
      · exact hlabelled.union _
      · exact hlabelled
    · exact hlabelled

end

end PoolLog

/-- A new file has its number and its first line, and leaves all other files alone. -/
theorem LabelWriter.create_start {dir : Path} {format : Format} {kind : OutputKind} {label : Label}
    {seed : Option LabelSchema} {d d' : Disk} {w : LabelWriter}
    (h : LabelWriter.create dir format kind label seed d = (.ok w, d')) :
    w.fileSchema =
        ⟨(dir.child kind.name).child (fileNameOf label (d.filesNamed + 1) format), format,
          (Content.start format kind label seed).schema⟩ ∧
      d'.filesNamed = d.filesNamed + 1 ∧
      d'.tree.get? w.path = some (.file (Content.start format kind label seed).text) ∧
      ∀ q content, q ≠ w.path →
        (d'.tree.get? q = some (.file content) ↔ d.tree.get? q = some (.file content)) := by
  unfold create at h
  simp only at h
  split at h
  · cases h
  · rename_i t ht
    split at h
    · cases h
    · rename_i t₁ ht₁
      obtain ⟨rfl, -⟩ := FileTree.makeFile_eq_some ht₁
      obtain ⟨hw, rfl⟩ := Prod.mk.inj h
      obtain rfl := Except.ok.inj hw
      refine ⟨?_, ?_, ?_, fun q content hq => ?_⟩
      · cases seed <;> rfl
      · cases format <;> rfl
      · cases format with
        | csv =>
          simp only [Disk.append]
          rw [FileTree.append_of_file (SortedMap.get?_insert_self _ _ _),
            SortedMap.get?_insert_self, String.empty_append]
          cases seed <;> rfl
        | json => exact SortedMap.get?_insert_self _ _ _
      · rw [← FileTree.file_makeDirectories ht]
        cases format with
        | csv =>
          simp only [Disk.append, FileTree.get?_append_of_ne hq, SortedMap.get?_insert_of_ne _ hq]
        | json => simp only [SortedMap.get?_insert_of_ne _ hq]

namespace Ledger

/-- The ledger of a pool that had no files shows what was written since: each file has its number,
and the rows of its kind and label in order. -/
structure Filed (L base : Ledger) (log : PoolLog) : Prop where
  place : L.dir = base.dir
  format : L.format = base.format
  seeds : ∀ kind, L.seeds.get kind = log.seeds kind
  served : ∀ {kind label}, log.Serves kind label → (L.file? kind label).isSome
  named : ∀ {kind label f}, L.file? kind label = some f → ∃ n ≤ L.filesNamed,
    f.path = (base.dir.child kind.name).child (LabelWriter.fileNameOf label n base.format)
  file : ∀ {kind label f}, L.file? kind label = some f → f.format = base.format ∧
    ∃ text before, L.tree.get? f.path = some (.file text) ∧
      (before <+: log ∧ ¬ PoolLog.Serves kind label before) ∧
      (Content.start base.format kind label ((PoolLog.seeds kind before).get? label)).putAll
        base.format kind label (log.items kind label) = .ok ⟨f.schema, text⟩
  distinct : ∀ {kind label f kind' label' f'}, L.file? kind label = some f →
    L.file? kind' label' = some f' → f.path = f'.path → kind = kind' ∧ label = label'
  frame : ∀ q, (∀ kind label f, L.file? kind label = some f → f.path ≠ q) →
    L.tree.read? q = base.tree.read? q

namespace Filed

variable {base : Ledger} {log : PoolLog} {L L' : Ledger} {kind : OutputKind} {label : Label}

theorem of_files (h : L.Filed base log) {d : Disk}
    (hfiles : ∀ q content, d.tree.get? q = some (.file content) ↔
      L.tree.get? q = some (.file content)) (hnamed : L.filesNamed ≤ d.filesNamed) :
    (L.on d).Filed base log where
  place := h.place
  format := h.format
  seeds := h.seeds
  served := h.served
  named hf := by
    obtain ⟨n, hn, hpath⟩ := h.named hf
    exact ⟨n, Nat.le_trans hn hnamed, hpath⟩
  file hf := by
    obtain ⟨hformat, text, before, htext, hrest⟩ := h.file hf
    exact ⟨hformat, text, before, (hfiles _ _).2 htext, hrest⟩
  distinct := h.distinct
  frame q hq := by
    rw [← h.frame q hq]
    exact FileTree.read?_congr_files (hfiles q)

/-- A new file starts with the columns of its seed. -/
theorem create (h : L.Filed base log) (hnone : L.file? kind label = none) {w : LabelWriter}
    {d : Disk} (hcreate : LabelWriter.create L.dir L.format kind label
      ((L.seeds.get kind).get? label) L.disk = (.ok w, d)) :
    ((L.on d).setFile kind label w.fileSchema).Filed base log := by
  obtain ⟨hfile, hnamed, hstart, hothers⟩ := LabelWriter.create_start hcreate
  rw [h.place, h.format] at hfile
  rw [h.format] at hstart
  have hpath : w.path = (base.dir.child kind.name).child
      (LabelWriter.fileNameOf label (L.filesNamed + 1) base.format) :=
    congrArg FileSchema.path hfile
  have hschema : w.fileSchema.schema = (Content.start base.format kind label
      ((L.seeds.get kind).get? label)).schema := congrArg FileSchema.schema hfile
  have hcount : ((L.on d).setFile kind label w.fileSchema).filesNamed = L.filesNamed + 1 := hnamed
  -- The number of the file is a new one.
  have hnew : ∀ {k l f}, L.file? k l = some f → f.path ≠ w.path := by
    intro k l f hf heq
    obtain ⟨n, hn, hpath'⟩ := h.named hf
    rw [hpath, hpath'] at heq
    have := LabelWriter.fileNameOf_inj (Path.child_inj heq).2
    omega
  refine ⟨h.place, h.format, h.seeds, fun {k l} hserves => ?_, fun {k l f} hf => ?_,
    fun {k l f} hf => ?_, fun {k l f k' l' f'} hf hf' heq => ?_, fun q hq => ?_⟩
  · rw [file?_setFile]
    split
    · rfl
    · exact h.served hserves
  · rw [hcount]
    rcases file?_setFile_eq_some hf with ⟨rfl, rfl, rfl⟩ | ⟨-, hold⟩
    · exact ⟨L.filesNamed + 1, Nat.le_refl _, hpath⟩
    · obtain ⟨n, hn, hpath'⟩ := h.named hold
      exact ⟨n, Nat.le_succ_of_le hn, hpath'⟩
  · rcases file?_setFile_eq_some hf with ⟨rfl, rfl, rfl⟩ | ⟨-, hold⟩
    · have hfirst : ¬ log.Serves k l := fun hserves => by
        have := h.served hserves
        rw [hnone] at this
        cases this
      refine ⟨congrArg FileSchema.format hfile, _, log, hstart,
        ⟨List.prefix_refl _, hfirst⟩, ?_⟩
      rw [PoolLog.items_eq_nil hfirst, ← h.seeds, hschema]
      rfl
    · obtain ⟨hformat, text, before, htext, hrest⟩ := h.file hold
      exact ⟨hformat, text, before, (hothers _ _ (hnew hold)).2 htext, hrest⟩
  · rcases file?_setFile_eq_some hf with ⟨rfl, rfl, rfl⟩ | ⟨-, hold⟩
    · rcases file?_setFile_eq_some hf' with ⟨rfl, rfl, rfl⟩ | ⟨-, hold'⟩
      · exact ⟨rfl, rfl⟩
      · exact absurd heq.symm (hnew hold')
    · rcases file?_setFile_eq_some hf' with ⟨rfl, rfl, rfl⟩ | ⟨-, hold'⟩
      · exact absurd heq (hnew hold)
      · exact h.distinct hold hold' heq
  · have hne : q ≠ w.path := fun heq => hq kind label w.fileSchema
      (by rw [file?_setFile, if_pos ⟨rfl, rfl⟩]) heq.symm
    rw [← h.frame q fun k l f hf => ?_]
    · exact FileTree.read?_congr_files fun content => hothers q content hne
    · refine hq k l f ?_
      rw [file?_setFile, if_neg ?_]
      · exact hf
      · rintro ⟨rfl, rfl⟩
        rw [hnone] at hf
        cases hf

/-- Asking for a file makes one at most. -/
theorem get (h : L.Filed base log) {result : Except Failure FileSchema}
    (hget : L.get kind label = (result, L')) :
    L'.Filed base log ∧ ∀ f, result = .ok f → L'.file? kind label = some f := by
  unfold Ledger.get at hget
  split at hget
  · rename_i f hf
    cases hget
    refine ⟨h, fun f' hok => ?_⟩
    rw [← Except.ok.inj hok]
    exact hf
  · rename_i hnone
    split at hget
    · split at hget
      · rename_i w d hcreate
        cases hget
        refine ⟨h.create hnone hcreate, fun f hok => ?_⟩
        rw [← Except.ok.inj hok, file?_setFile, if_pos ⟨rfl, rfl⟩]
      · rename_i f d hcreate
        cases hget
        obtain ⟨hfiles, hle⟩ := LabelWriter.create_error_files hcreate
        exact ⟨h.of_files hfiles hle, fun f hok => by cases hok⟩
    · cases hget
      exact ⟨h, fun f hok => by cases hok⟩

/-- An act that writes nothing. -/
theorem extend (h : L.Filed base log) {e : PoolAct × Except Failure Unit}
    {seeds : PerKind Collection}
    (hseeds : ∀ kind, seeds.get kind = PoolLog.seeds kind (log ++ [e]))
    (hitems : ∀ kind label, PoolLog.items kind label [e] = [])
    (hserves : ∀ kind label, PoolLog.Serves kind label [e] → (L.file? kind label).isSome) :
    ({ L with seeds } : Ledger).Filed base (log ++ [e]) where
  place := h.place
  format := h.format
  seeds := hseeds
  served {kind label} hserved := by
    rcases PoolLog.serves_append.1 hserved with hold | hnew
    · exact h.served hold
    · exact hserves kind label hnew
  named := h.named
  file hf := by
    obtain ⟨hformat, text, before, htext, hbefore, hrows⟩ := h.file hf
    refine ⟨hformat, text, before, htext,
      ⟨hbefore.1.trans (List.prefix_append _ _), hbefore.2⟩, ?_⟩
    rw [PoolLog.items_append, hitems, List.append_nil]
    exact hrows
  distinct := h.distinct
  frame := h.frame

/-- A row goes to the end of the file of its kind and label. -/
theorem write (h : L.Filed base log) {f : FileSchema} (hf : L.file? kind label = some f) {i : Item}
    {schema : LabelSchema} {line : String}
    (hentry : i.entry f.format kind label f.schema = .ok (schema, line)) :
    ({ L.setFile kind label { f with schema } with tree := L.tree.append f.path line }).Filed base
      (log ++ [(PoolAct.write kind label i, Except.ok ())]) := by
  have hitems : ∀ k l, PoolLog.items k l (log ++ [(PoolAct.write kind label i, Except.ok ())]) =
      log.items k l ++ if kind = k ∧ label = l then [i] else [] := by
    intro k l
    rw [PoolLog.items_append]
    congr 1
    by_cases hkey : kind = k ∧ label = l <;> simp [PoolLog.items, hkey]
  obtain ⟨hformat, text, before, htext, hbefore, hrows⟩ := h.file hf
  refine ⟨h.place, h.format, fun k => ?_, fun {k l} hserved => ?_, fun {k l g} hg => ?_,
    fun {k l g} hg => ?_, fun {k l g k' l' g'} hg hg' heq => ?_, fun q hq => ?_⟩
  · rw [PoolLog.seeds, List.foldl_append]
    exact h.seeds k
  · show ((L.setFile kind label { f with schema }).file? k l).isSome
    rw [file?_setFile]
    split
    · rfl
    · rename_i hkey
      rcases PoolLog.serves_append.1 hserved with hold | hnew
      · exact h.served hold
      · have hnew : k = kind ∧ l = label := by simpa [PoolLog.Serves] using hnew
        exact absurd hnew hkey
  · rcases file?_setFile_eq_some hg with ⟨rfl, rfl, rfl⟩ | ⟨-, hg⟩
    · have hnamed := h.named hf
      exact hnamed
    · exact h.named hg
  · rcases file?_setFile_eq_some hg with ⟨rfl, rfl, rfl⟩ | ⟨hkey, hg⟩
    · refine ⟨hformat, text ++ line, before, ?_,
        ⟨hbefore.1.trans (List.prefix_append _ _), hbefore.2⟩, ?_⟩
      · show (L.tree.append f.path line).get? f.path = _
        rw [FileTree.append_of_file htext, SortedMap.get?_insert_self]
      · rw [hitems, if_pos ⟨rfl, rfl⟩, Content.putAll_append _ _ hrows, Content.put, ← hformat,
          hentry]
        rfl
    · obtain ⟨hformat', text', before', htext', hbefore', hrows'⟩ := h.file hg
      refine ⟨hformat', text', before', ?_,
        ⟨hbefore'.1.trans (List.prefix_append _ _), hbefore'.2⟩, ?_⟩
      · have hne : g.path ≠ f.path := fun heq => hkey (h.distinct hg hf heq)
        show (L.tree.append f.path line).get? g.path = _
        rw [FileTree.get?_append_of_ne hne, htext']
      · rw [hitems, if_neg fun heq => hkey ⟨heq.1.symm, heq.2.symm⟩, List.append_nil]
        exact hrows'
  · rcases file?_setFile_eq_some hg with ⟨rfl, rfl, rfl⟩ | ⟨-, hold⟩
    · rcases file?_setFile_eq_some hg' with ⟨rfl, rfl, rfl⟩ | ⟨-, hold'⟩
      · exact ⟨rfl, rfl⟩
      · exact h.distinct hf hold' heq
    · rcases file?_setFile_eq_some hg' with ⟨rfl, rfl, rfl⟩ | ⟨-, hold'⟩
      · exact h.distinct hold hf heq
      · exact h.distinct hold hold' heq
  · have hfile : ∀ k l g, L.file? k l = some g → g.path ≠ q := by
      intro k l g hg
      by_cases hkey : k = kind ∧ l = label
      · obtain ⟨rfl, rfl⟩ := hkey
        rw [hf] at hg
        cases hg
        exact hq k l { f with schema } ((file?_setFile _ _ _ _ _ _).trans (if_pos ⟨rfl, rfl⟩))
      · exact hq k l g ((file?_setFile _ _ _ _ _ _).trans ((if_neg hkey).trans hg))
    rw [← h.frame q hfile]
    have hne : q ≠ f.path := fun heq => hfile kind label f hf heq.symm
    simp only [FileTree.read?, FileTree.get?_append_of_ne hne]

theorem act (h : L.Filed base log) {a : PoolAct} {done : Except Failure Unit}
    (hact : L.act a = (done, L')) : L'.Filed base (log ++ [(a, done)]) := by
  cases a with
  | seed kind schemas =>
    cases hact
    refine h.extend (fun k => ?_) (fun _ _ => rfl) fun _ _ hserved => ?_
    · rw [PoolLog.seeds, List.foldl_append, ← PoolLog.seeds, ← h.seeds]
      by_cases hk : kind = k
      · subst hk
        simp [PerKind.modify]
      · simp [PerKind.modify, PerKind.get_set_of_ne _ _ (Ne.symm hk), hk]
    · simp [PoolLog.Serves] at hserved
  | get kind label =>
    rcases hget : L.get kind label with ⟨result, L₁⟩
    obtain ⟨h₁, hfile⟩ := h.get hget
    simp only [Ledger.act, hget, Prod.mk.injEq] at hact
    obtain ⟨rfl, rfl⟩ := hact
    refine h₁.extend (fun k => ?_) (fun _ _ => by cases result <;> rfl) fun k l hserved => ?_
    · rw [PoolLog.seeds, List.foldl_append]
      exact h₁.seeds k
    · cases result with
      | error f => simp [PoolLog.Serves, Except.map] at hserved
      | ok f =>
        have hkey : k = kind ∧ l = label := by simpa [PoolLog.Serves, Except.map] using hserved
        rw [hkey.1, hkey.2, hfile f rfl]
        rfl
  | write kind label i =>
    -- A write that fails leaves what the request for its file has made.
    have hfail : ∀ {L₁ : Ledger} {f : Failure}, L₁.Filed base log →
        L₁.Filed base (log ++ [(PoolAct.write kind label i, Except.error f)]) := by
      intro L₁ f h₁
      refine h₁.extend (fun k => ?_) (fun _ _ => rfl) fun _ _ hserved => ?_
      · rw [PoolLog.seeds, List.foldl_append]
        exact h₁.seeds k
      · simp [PoolLog.Serves] at hserved
    rcases hget : L.get kind label with ⟨result, L₁⟩
    obtain ⟨h₁, hfile⟩ := h.get hget
    simp only [Ledger.act, hget] at hact
    cases result with
    | error f =>
      cases hact
      exact hfail h₁
    | ok f =>
      simp only at hact
      cases hentry : i.entry f.format kind label f.schema with
      | error e =>
        rw [hentry] at hact
        cases hact
        exact hfail h₁
      | ok e =>
        rw [hentry] at hact
        cases hact
        exact h₁.write (hfile f rfl) hentry

theorem label_schema (h : L.Filed base log) {f : FileSchema} (hf : L.file? kind label = some f) :
    f.schema.label = label := by
  obtain ⟨-, text, before, -, -, hrows⟩ := h.file hf
  refine (Content.putAll_ok hrows).1.trans (Content.label_start fun s hs => ?_)
  exact PoolLog.labelled_seeds kind before label s hs

theorem count_schema (h : L.Filed base log) {f : FileSchema} (hf : L.file? kind label = some f) :
    f.schema.count = (log.items kind label).length := by
  obtain ⟨-, text, before, -, -, hrows⟩ := h.file hf
  rw [(Content.putAll_ok hrows).2, Content.count_start, Nat.zero_add]

end Filed

/-! ## The fragments -/

/-- The fragments that the files of a pool make. -/
def fragments (L : Ledger) : PerKind Fragments :=
  L.files.map fun files => files.values.foldl (fun F f => F.add f.path.text f) ∅

theorem get_fragments (L : Ledger) (kind : OutputKind) : L.fragments.get kind =
    (L.files.get kind).values.foldl (fun F f => F.add f.path.text f) ∅ := by
  cases kind <;> rfl

/-- The files of a kind with the ids that the fragments have them under. -/
def withIds (L : Ledger) (kind : OutputKind) : List (String × FileSchema) :=
  (L.files.get kind).entries.map fun e => (e.2.path.text, e.2)

theorem mem_withIds {L : Ledger} {kind : OutputKind} {id : String} {f : FileSchema} :
    (id, f) ∈ L.withIds kind ↔ ∃ label, L.file? kind label = some f ∧ f.path.text = id := by
  rw [withIds, List.mem_map]
  constructor
  · rintro ⟨⟨label, g⟩, hmem, heq⟩
    cases heq
    exact ⟨label, SortedMap.mem_entries.1 hmem, rfl⟩
  · rintro ⟨label, hf, rfl⟩
    exact ⟨(label, f), SortedMap.mem_entries.2 hf, rfl⟩

/-- The files of a kind are in one directory, where their names tell them apart. -/
theorem Filed.nodup_ids {base : Ledger} {log : PoolLog} {L : Ledger} (h : L.Filed base log)
    (kind : OutputKind) : ((L.withIds kind).map (·.1)).Nodup := by
  have hfile : ∀ {l f}, (l, f) ∈ (L.files.get kind).entries ↔ L.file? kind l = some f :=
    SortedMap.mem_entries
  rw [withIds, List.map_map, List.nodup_iff_pairwise_ne, List.pairwise_map]
  have hkeys := (L.files.get kind).increasing.nodup_keys
  rw [List.nodup_iff_pairwise_ne, List.pairwise_map] at hkeys
  refine hkeys.imp_of_mem fun {a b} ha hb hne heq => hne ?_
  obtain ⟨m, -, hm⟩ := h.named (hfile.1 ha)
  obtain ⟨n, -, hn⟩ := h.named (hfile.1 hb)
  simp only [Function.comp_apply, hm, hn] at heq
  refine (h.distinct (hfile.1 ha) (hfile.1 hb) ?_).2
  rw [hm, hn, Path.text_child_inj (by simp) heq]

theorem Filed.lists_fragments {base : Ledger} {log : PoolLog} {L : Ledger} (h : L.Filed base log)
    (kind : OutputKind) : (L.fragments.get kind).Lists (L.withIds kind) := by
  have hget : L.fragments.get kind = (L.withIds kind).foldl (fun F e => F.add e.1 e.2) ∅ := by
    rw [get_fragments, withIds, List.foldl_map]
    exact List.foldl_map
  rw [hget]
  exact Fragments.lists_foldl (Fragments.nodup_place (h.nodup_ids kind))

theorem Filed.filesOf_fragments {base : Ledger} {log : PoolLog} {L : Ledger} (h : L.Filed base log)
    (kind : OutputKind) (label : Label) :
    (L.fragments.get kind).filesOf label =
      match L.file? kind label with
      | some f => SortedMap.insert ∅ f.path.text f
      | none => ∅ := by
  have hlists := h.lists_fragments kind
  refine SortedMap.ext_get? fun id => Option.ext fun f => ?_
  rw [Fragments.filesOf, hlists.get, mem_withIds]
  constructor
  · rintro ⟨⟨l, hf, rfl⟩, hlabel⟩
    have hl := h.label_schema hf
    rw [← hlabel, hl, hf]
    exact SortedMap.get?_insert_self _ _ _
  · intro hf
    split at hf
    · rename_i g hg
      rw [SortedMap.get?_insert] at hf
      split at hf
      · rename_i hid
        obtain rfl := Option.some.inj hf
        exact ⟨⟨label, hg, hid.symm⟩, h.label_schema hg⟩
      · cases hf
    · cases hf

end Ledger

end GraphExport
