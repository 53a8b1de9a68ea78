import GraphExport.Proofs.Output.Request
import GraphExport.Proofs.Output.Shelf

/-!
# GraphExport.Proofs.Output.Pool

A pool and the shelf of its worker, through all that a pool does.

* `Pool.Holds`: the writers of the pool are those of the files on the shelf.
* `Pool.get_holds`: asking for a writer adds a file to the shelf at most, also where another writer
  has to be suspended for it.
* `Pool.writeWith_holds`: a write adds one row to the file of its kind and label.
-/

namespace GraphExport

/-- The writer writes to the file. -/
structure LabelWriter.WritesTo (dir : Path) (w : LabelWriter) (s : Sheet) : Prop where
  kind : w.kind = s.book.kind
  label : w.label = s.book.label
  format : w.format = .csv
  path : w.path = s.path dir
  schema : w.schema = s.book.schema

namespace Pool

/-! ## Pool and shelf -/

/-- The writers of the pool are those of the files on the shelf. -/
structure Holds (dir : Path) (kinds : List OutputKind) (p : Pool) (S : Shelf) : Prop where
  place : p.dir = dir
  format : p.format = .csv
  scope : p.kinds = kinds
  labelled : ∀ kind label seed, (p.seeds.get kind).get? label = some seed → seed.label = label
  writer : ∀ {kind label w}, p.writer? kind label = some w →
    w.kind = kind ∧ w.label = label ∧ ∃ s, S kind label = some s ∧ w.WritesTo dir s
  sheet : ∀ {kind label s}, S kind label = some s → ∃ w, p.writer? kind label = some w

/-- What a pool was set up with, apart from the place of its files. -/
def SameSettings (p p' : Pool) : Prop := p'.kinds = p.kinds ∧ p'.seeds = p.seeds

def newBook (p : Pool) (kind : OutputKind) (label : Label) : Book where
  kind := kind
  label := label
  seed := (((p.seeds.get kind).get? label).map LabelSchema.columnsOf).getD { label }

section

variable {dir : Path} {kinds : List OutputKind} {p p' : Pool} {S : Shelf} {d d' : Disk}
  {kind : OutputKind} {label : Label}

theorem Holds.setWriter (h : p.Holds dir kinds S) {w : LabelWriter} {s : Sheet}
    (hw : w.WritesTo dir s) (hkind : w.kind = kind) (hlabel : w.label = label) :
    (p.setWriter w).Holds dir kinds (S.set kind label s) where
  place := h.place
  format := h.format
  scope := h.scope
  labelled := h.labelled
  writer {k l v} hv := by
    rw [writer?_setWriter] at hv
    by_cases hkey : k = w.kind ∧ l = w.label
    · rw [if_pos hkey] at hv
      cases hv
      refine ⟨hkey.1.symm, hkey.2.symm, s, ?_, hw⟩
      rw [hkey.1, hkey.2, hkind, hlabel, Shelf.set_self]
    · rw [if_neg hkey] at hv
      obtain ⟨hk, hl, s', hs', hv'⟩ := h.writer hv
      exact ⟨hk, hl, s', by rwa [Shelf.set_of_ne _ _ (by rwa [← hkind, ← hlabel])], hv'⟩
  sheet {k l s'} hs' := by
    rw [writer?_setWriter]
    by_cases hkey : k = w.kind ∧ l = w.label
    · exact ⟨w, if_pos hkey⟩
    · rw [if_neg hkey]
      rw [Shelf.set_of_ne _ _ (by rwa [← hkind, ← hlabel])] at hs'
      exact h.sheet hs'

theorem Holds.setWriter_self (h : p.Holds dir kinds S) {w : LabelWriter} {s : Sheet}
    (hs : S kind label = some s) (hw : w.WritesTo dir s) (hkind : w.kind = kind)
    (hlabel : w.label = label) : (p.setWriter w).Holds dir kinds S := by
  have := h.setWriter hw hkind hlabel
  rwa [Shelf.set_eq_self hs] at this

theorem Holds.evict (h : p.Holds dir kinds S) {victim : LabelWriter}
    (hvictim : p.leastRecent? = some victim) : (p.evict victim).Holds dir kinds S := by
  obtain ⟨k, l, hwriter⟩ := mem_all.1 (mem_openWriters.1 (leastRecent?_mem hvictim)).1
  obtain ⟨hk, hl, s, hs, hw⟩ := h.writer hwriter
  have hsuspended : victim.suspend.WritesTo dir s := { hw with }
  exact { h.setWriter_self hs hsuspended hk hl with }

/-- Taking a handle suspends a writer at most. -/
theorem Holds.taken (h : p.Holds dir kinds S) (htaken : p.Taken d p' d') :
    p'.Holds dir kinds S := by
  cases htaken with
  | free => exact h
  | evicted _ hvictim => exact h.evict hvictim

/-- A writer that writes to the file on the shelf is filed under a new time. -/
theorem Holds.use (h : p.Holds dir kinds S) {w : LabelWriter} {s : Sheet}
    (hs : S kind label = some s) (hw : w.WritesTo dir s) (hkind : w.kind = kind)
    (hlabel : w.label = label) (clock : Nat) :
    (p.setWriter { w with lastUsed := clock }).Holds dir kinds S :=
  h.setWriter_self hs (w := { w with lastUsed := clock }) { hw with } hkind hlabel

end

section Shelves

variable {dir : Path} {kinds : List OutputKind} {base : FileTree} {shelves : Nat → Shelf} {i : Nat}
  {p p' : Pool} {d d' : Disk} {kind : OutputKind} {label : Label}

theorem Holds.keyed {S : Shelf} (h : p.Holds dir kinds S) : p.Keyed := by
  intro kind label w hw
  obtain ⟨hkind, hlabel, -⟩ := h.writer hw
  exact ⟨hkind, hlabel⟩

/-- A file that is there is opened again where it is. -/
theorem fetch_holds_some (hp : p.Holds dir kinds (shelves i)) {w : LabelWriter}
    (hw : p.writer? kind label = some w) {result : Except Failure LabelWriter}
    (h : p.fetch kind label d = (result, d')) :
    d' = d ∧ ∃ s, shelves i kind label = some s ∧
      ∀ v, result = .ok v → v.WritesTo dir s ∧ v.kind = kind ∧ v.label = label := by
  obtain ⟨hkind, hlabel, s, hsheet, hwrites⟩ := hp.writer hw
  simp only [fetch, hw, Prod.mk.injEq] at h
  refine ⟨h.2.symm, s, hsheet, fun v hv => ?_⟩
  obtain rfl := LabelWriter.reopen_ok (h.1.trans hv)
  exact ⟨{ hwrites with }, hkind, hlabel⟩

/-- A file that is not there is made, and stands on the shelf. -/
theorem fetch_holds_none (hs : Shelved dir kinds base shelves d)
    (hp : p.Holds dir kinds (shelves i)) (hkind : kind ∈ p.kinds)
    (hnone : p.writer? kind label = none) {w : LabelWriter}
    (h : p.fetch kind label d = (.ok w, d')) :
    shelves i kind label = none ∧ d'.filesNamed = d.filesNamed + 1 ∧
      Shelved dir kinds base
        (setSheet shelves i kind label ⟨d.filesNamed + 1, p.newBook kind label⟩) d' ∧
      w.WritesTo dir ⟨d.filesNamed + 1, p.newBook kind label⟩ ∧ w.kind = kind ∧
      w.label = label := by
  have hshelf : shelves i kind label = none := by
    cases hsheet : shelves i kind label with
    | none => rfl
    | some s =>
      obtain ⟨v, hv⟩ := hp.sheet hsheet
      rw [hnone] at hv
      cases hv
  simp only [fetch, hnone, hp.place, hp.format] at h
  have hnew := hs.create (hp.scope ▸ hkind) hshelf
    (fun s hseed => hp.labelled kind label s hseed) h
  obtain ⟨t, t₁, -, -, hwriter, hd'⟩ := LabelWriter.create_ok h
  refine ⟨hshelf, by rw [hd'], hnew, ?_, by rw [hwriter], by rw [hwriter]⟩
  rw [hwriter]
  exact ⟨rfl, rfl, rfl, rfl, rfl⟩

/-- A file that can not be opened changes no file. -/
theorem fetch_refused (hs : Shelved dir kinds base shelves d) (hp : p.Holds dir kinds (shelves i))
    {f : Failure} (h : p.fetch kind label d = (.error f, d')) :
    Shelved dir kinds base shelves d' := by
  cases hw : p.writer? kind label with
  | some w =>
    obtain ⟨rfl, -⟩ := fetch_holds_some hp hw h
    exact hs
  | none =>
    simp only [fetch, hw] at h
    obtain ⟨hfiles, hle⟩ := LabelWriter.create_error_files h
    exact hs.of_files hfiles hle

theorem Taken.shelved {p₁ : Pool} {d₁ : Disk} (htaken : p.Taken d p₁ d₁)
    (hs : Shelved dir kinds base shelves d) : Shelved dir kinds base shelves d₁ :=
  hs.of_files (fun q content => by rw [htaken.files.1]) (Nat.le_of_eq htaken.files.2.symm)

/-- Asking for a writer adds a file to the shelf at most. -/
theorem get_holds (hs : Shelved dir kinds base shelves d) (hp : p.Holds dir kinds (shelves i))
    {result : Except Failure LabelWriter} (h : p.get kind label d = (result, p', d')) :
    ∃ shelves', (shelves' = shelves ∨ (shelves i kind label = none ∧ shelves' =
        setSheet shelves i kind label ⟨d.filesNamed + 1, p.newBook kind label⟩)) ∧
      Shelved dir kinds base shelves' d' ∧ p'.Holds dir kinds (shelves' i) ∧ p.SameSettings p' ∧
      ∀ w, result = .ok w → p'.writer? kind label = some w ∧ w.isOpen = true ∧
        d'.filesNamed = d.filesNamed + if (shelves i kind label).isSome then 0 else 1 := by
  have htick : p.tick.Holds dir kinds (shelves i) := { hp with }
  have hreq := requested h
  -- The writer that is given is the one that is filed; what is left is the number of files.
  suffices hfiles : ∃ shelves', (shelves' = shelves ∨ (shelves i kind label = none ∧ shelves' =
        setSheet shelves i kind label ⟨d.filesNamed + 1, p.newBook kind label⟩)) ∧
      Shelved dir kinds base shelves' d' ∧ p'.Holds dir kinds (shelves' i) ∧ p.SameSettings p' ∧
      ∀ w, result = .ok w →
        d'.filesNamed = d.filesNamed + if (shelves i kind label).isSome then 0 else 1 by
    obtain ⟨shelves', hcases, hs', hp', hsettings, hnamed⟩ := hfiles
    refine ⟨shelves', hcases, hs', hp', hsettings, fun w hw => ?_⟩
    subst hw
    obtain ⟨hwriter, hopen, -⟩ := hreq.writer? hp.keyed
    exact ⟨hwriter, hopen, hnamed w rfl⟩
  cases hreq with
  | @ready w hw hopen =>
    obtain ⟨hkind, hlabel, s, hsheet, hwrites⟩ := hp.writer hw
    refine ⟨shelves, .inl rfl, hs, htick.use hsheet hwrites hkind hlabel _, ⟨rfl, rfl⟩,
      fun _ _ => ?_⟩
    rw [hsheet]
    rfl
  | barred => exact ⟨shelves, .inl rfl, hs, htick, ⟨rfl, rfl⟩, fun w hw => nomatch hw⟩
  | busy _ hwaits =>
    cases hwaits with
    | noWriter => exact ⟨shelves, .inl rfl, hs, htick, ⟨rfl, rfl⟩, fun w hw => nomatch hw⟩
    | stillFull _ hvictim =>
      exact ⟨shelves, .inl rfl, hs.of_files (fun _ _ => Iff.rfl) (Nat.le_refl _),
        htick.evict hvictim, ⟨rfl, rfl⟩, fun w hw => nomatch hw⟩
  | @refused p₁ d₁ d₂ f hneeds htaken hfetch =>
    obtain ⟨-, -, hkinds, hseeds, -⟩ := htaken.settings
    have hs₂ := fetch_refused (htaken.shelved hs) hp hfetch
    exact ⟨shelves, .inl rfl, hs₂.of_files (fun _ _ => Iff.rfl) (Nat.le_refl _),
      htick.taken htaken, ⟨hkinds, hseeds⟩, fun w hw => nomatch hw⟩
  | @served p₁ d₁ _ w hneeds htaken hfetch =>
    obtain ⟨-, -, hkinds, hseeds, -⟩ := htaken.settings
    have hnamed := htaken.files.2
    have hs₁ := htaken.shelved hs
    have hp₁ := htick.taken htaken
    cases hw : p.writer? kind label with
    | some v =>
      obtain ⟨rfl, s, hsheet, hwritten⟩ := fetch_holds_some hp hw hfetch
      obtain ⟨hwrites, hkind, hlabel⟩ := hwritten w rfl
      refine ⟨shelves, .inl rfl, hs₁, hp₁.use hsheet hwrites hkind hlabel _, ⟨hkinds, hseeds⟩,
        fun _ _ => ?_⟩
      rw [hsheet, hnamed]
      rfl
    | none =>
      obtain ⟨hnone, hd', hnew, hwrites, hkind, hlabel⟩ :=
        fetch_holds_none hs₁ hp (hneeds.2 hw) hw hfetch
      rw [hnamed] at hd' hnew hwrites
      have hused : LabelWriter.WritesTo dir { w with lastUsed := p₁.clock }
          ⟨d.filesNamed + 1, p.newBook kind label⟩ := { hwrites with }
      have hheld := hp₁.setWriter hused hkind hlabel
      refine ⟨_, .inr ⟨hnone, rfl⟩, hnew, by rw [setSheet_self]; exact hheld, ⟨hkinds, hseeds⟩,
        fun _ _ => ?_⟩
      rw [hd', hnone]
      rfl

/-- A write adds one row to the file of its kind and label, which is a new one if need be. A write
that fails may leave a new file without rows. -/
theorem writeWith_holds (hs : Shelved dir kinds base shelves d) (hp : p.Holds dir kinds (shelves i))
    {write : LabelWriter → Except Failure (LabelWriter × String)} {IsRow : WrittenRow → Prop}
    (hwrite : ∀ w w' line, w.kind = kind → w.label = label → w.format = .csv →
      write w = .ok (w', line) → ∃ r, IsRow r ∧ r.Fits kind label ∧
        w' = w.row (r.grow kind w.schema) ∧ line = Csv.line (r.record (r.grow kind w.schema)))
    {result : Except Failure Unit} (h : p.writeWith write kind label d = (result, p', d')) :
    ∃ shelves', (∀ j, j ≠ i → shelves' j = shelves j) ∧ Shelved dir kinds base shelves' d' ∧
      p'.Holds dir kinds (shelves' i) ∧ p.SameSettings p' ∧
      (result = .ok () → ∃ r, IsRow r ∧ shelves' i = (shelves i).set kind label
          (((shelves i kind label).getD ⟨d.filesNamed + 1, p.newBook kind label⟩).add r) ∧
        d'.filesNamed = d.filesNamed + if (shelves i kind label).isSome then 0 else 1) ∧
      (∀ f, result = .error f → shelves' i = shelves i ∨ (shelves i kind label = none ∧
        shelves' i = (shelves i).set kind label ⟨d.filesNamed + 1, p.newBook kind label⟩)) := by
  have hothers : ∀ {shelves₁ : Nat → Shelf} {s : Sheet}, (shelves₁ = shelves ∨
      (shelves i kind label = none ∧ shelves₁ = setSheet shelves i kind label s)) →
      ∀ j, j ≠ i → shelves₁ j = shelves j := by
    rintro shelves₁ s (rfl | ⟨-, rfl⟩) j hj
    · rfl
    · exact setSheet_of_ne _ _ _ _ hj
  have hopened : ∀ {shelves₁ : Nat → Shelf} {s : Sheet}, (shelves₁ = shelves ∨
      (shelves i kind label = none ∧ shelves₁ = setSheet shelves i kind label s)) →
      shelves₁ i = shelves i ∨
        (shelves i kind label = none ∧ shelves₁ i = (shelves i).set kind label s) := by
    rintro shelves₁ s (rfl | ⟨hnone, rfl⟩)
    · exact .inl rfl
    · exact .inr ⟨hnone, setSheet_self _ _ _ _ _⟩
  rcases writeWith_cases h with ⟨f, hget, rfl⟩ | ⟨w, p₁, d₁, hget, hwritten⟩
  · obtain ⟨shelves₁, hcases, hs₁, hp₁, hsettings, -⟩ := get_holds hs hp hget
    exact ⟨shelves₁, hothers hcases, hs₁, hp₁, hsettings, (nomatch ·), fun _ _ => hopened hcases⟩
  · obtain ⟨shelves₁, hcases, hs₁, hp₁, hsettings, hgot⟩ := get_holds hs hp hget
    obtain ⟨hw, hopen, hnamed⟩ := hgot w rfl
    obtain ⟨hkind, hlabel, s, hsheet, hwrites⟩ := hp₁.writer hw
    cases hwritten with
    | failed =>
      exact ⟨shelves₁, hothers hcases, hs₁, hp₁, hsettings, (nomatch ·), fun _ _ => hopened hcases⟩
    | @done w' line hline =>
      obtain ⟨r, hr, hfits, rfl, rfl⟩ := hwrite w w' line hkind hlabel hwrites.format hline
      have hschema : r.grow kind w.schema = (s.add r).book.schema := by
        rw [Sheet.add, Book.schema_add, hwrites.schema, ← hwrites.kind, hkind]
      have hrow : LabelWriter.WritesTo dir (w.row (r.grow kind w.schema)) (s.add r) :=
        ⟨hwrites.kind, hwrites.label, hwrites.format, hwrites.path, hschema⟩
      refine ⟨setSheet shelves₁ i kind label (s.add r), fun j hj => ?_, ?_, ?_, hsettings,
        fun _ => ⟨r, hr, ?_, hnamed⟩, fun f hf => by cases hf⟩
      · rw [setSheet_of_ne _ _ _ _ hj, hothers hcases j hj]
      · have := hs₁.write hsheet hfits
        rw [← hschema, ← hwrites.path] at this
        exact this
      · rw [setSheet_self]
        exact hp₁.setWriter hrow hkind hlabel
      · rw [setSheet_self]
        rcases hcases with rfl | ⟨hnone, rfl⟩
        · rw [hsheet]
          rfl
        · rw [setSheet_self, Shelf.set_self] at hsheet
          obtain rfl := Option.some.inj hsheet
          rw [setSheet_self, hnone, Shelf.set_set]
          rfl

/-- A property of a pool and the shelf of its worker that stays while files are started and rows of
a sort are added. -/
structure Lasting (Sound : Pool → Shelf → Prop)
    (IsRow : OutputKind → Label → PropertyMap → Prop) : Prop where
  settings : ∀ {p p' : Pool} {S : Shelf}, p.SameSettings p' → Sound p S → Sound p' S
  opened : ∀ {p : Pool} {S : Shelf} {kind : OutputKind} {label : Label} {m : PropertyMap} {n : Nat},
    Sound p S → IsRow kind label m → S kind label = none →
      Sound p (S.set kind label ⟨n, p.newBook kind label⟩)
  row : ∀ {p : Pool} {S : Shelf} {kind : OutputKind} {label : Label} {s : Sheet} {r : WrittenRow},
    Sound p S → S kind label = some s → IsRow kind label r.properties →
      Sound p (S.set kind label (s.add r))

theorem lasting_true : Lasting (fun _ _ => True) (fun _ _ _ => True) :=
  ⟨fun _ _ => trivial, fun _ _ _ => trivial, fun _ _ _ => trivial⟩

/-- What lasts is not lost by a write. -/
theorem Lasting.writeWith {Sound : Pool → Shelf → Prop}
    {IsRow : OutputKind → Label → PropertyMap → Prop} (h : Lasting Sound IsRow) {S S' : Shelf}
    {n : Nat} (hsound : Sound p S) (hsettings : p.SameSettings p') {m : PropertyMap}
    (hrow : IsRow kind label m) {result : Except Failure Unit}
    (hok : result = .ok () → ∃ r : WrittenRow, r.properties = m ∧
      S' = S.set kind label (((S kind label).getD ⟨n, p.newBook kind label⟩).add r))
    (herror : ∀ f, result = .error f → S' = S ∨ (S kind label = none ∧
      S' = S.set kind label ⟨n, p.newBook kind label⟩)) : Sound p' S' := by
  refine h.settings hsettings ?_
  cases result with
  | ok _ =>
    obtain ⟨r, rfl, rfl⟩ := hok rfl
    cases hsheet : S kind label with
    | some s => exact h.row hsound hsheet hrow
    | none =>
      have hnew := h.row (h.opened (n := n) hsound hrow hsheet) (Shelf.set_self _ _ _ _) hrow
      rwa [Shelf.set_set] at hnew
  | error f =>
    rcases herror f rfl with rfl | ⟨hnone, rfl⟩
    · exact hsound
    · exact h.opened hsound hrow hnone

end Shelves

end Pool

end GraphExport
