import GraphExport.Proofs.Output.OpenFiles
import GraphExport.Proofs.Output.Pool

/-!
# GraphExport.Proofs.Output.Handles

A worker by itself, whose handles are all that are in use. Where none is free it can always give one
up, so that nothing but the file system keeps it from writing.

* `Pool.get_balanced`: the worker gets its writer.
* `Pool.writeWith_balanced`: a write that can be made succeeds.
-/

namespace GraphExport

/-- Nothing but the file system fails. -/
def OnlyIo {α : Type} (result : Except Failure α) : Prop := ∀ f, result = .error f → f.cause = .io

theorem onlyIo_ok {α : Type} (a : α) : OnlyIo (.ok a) := fun _ h => nomatch h

theorem onlyIo_error {α : Type} {f : Failure} (h : f.cause = .io) :
    OnlyIo (.error f : Except Failure α) := fun _ hf => (Except.error.inj hf) ▸ h

namespace Pool

variable {dir : Path} {kinds : List OutputKind} {p p' : Pool} {d d' : Disk} {kind : OutputKind}
  {label : Label}

/-- A worker by itself gets a writer, unless the file system fails. -/
theorem get_balanced {S : Shelf} (hp : p.Holds dir kinds S) (h : p.Balanced d)
    (hkind : kind ∈ kinds)
    {result : Except Failure LabelWriter} (hget : p.get kind label d = (result, p', d')) :
    OnlyIo result ∧ p'.Balanced d' := by
  have hreq := requested hget
  obtain ⟨hbusy, hbalanced⟩ := h.requested hp.keyed hreq
  refine ⟨?_, hbalanced⟩
  cases hreq with
  | ready => exact onlyIo_ok _
  | barred _ hnot =>
    rw [hp.scope] at hnot
    exact absurd hkind hnot
  | busy => exact absurd rfl hbusy
  | refused _ _ hfetch => exact onlyIo_error (fetch_error hfetch)
  | served => exact onlyIo_ok _

/-- A write that an open writer can make succeeds, unless the file system fails. -/
theorem writeWith_balanced {base : FileTree} {shelves : Nat → Shelf} {i : Nat}
    (hs : Shelved dir kinds base shelves d) (hp : p.Holds dir kinds (shelves i))
    (h : p.Balanced d) (hkind : kind ∈ kinds)
    {write : LabelWriter → Except Failure (LabelWriter × String)}
    (hwrite : ∀ w, w.kind = kind → w.label = label → w.format = .csv → w.isOpen = true →
      ∃ schema line, write w = .ok (w.row schema, line))
    {result : Except Failure Unit} (hresult : p.writeWith write kind label d = (result, p', d')) :
    OnlyIo result ∧ (result = .ok () → p'.Balanced d') := by
  rcases writeWith_cases hresult with ⟨f, hget, rfl⟩ | ⟨w, p₁, d₁, hget, hwritten⟩
  · obtain ⟨honly, -⟩ := get_balanced hp h hkind hget
    exact ⟨onlyIo_error (honly f rfl), fun hok => nomatch hok⟩
  · obtain ⟨-, hbalanced⟩ := get_balanced hp h hkind hget
    obtain ⟨shelves₁, -, -, hp₁, -, hgot⟩ := get_holds hs hp hget
    obtain ⟨hw, hopen, -⟩ := hgot w rfl
    obtain ⟨rfl, rfl, s, -, hwrites⟩ := hp₁.writer hw
    obtain ⟨schema, line, hline⟩ := hwrite w rfl rfl hwrites.format hopen
    cases hwritten with
    | failed hfail =>
      rw [hline] at hfail
      cases hfail
    | done hdone =>
      rw [hline] at hdone
      cases hdone
      refine ⟨onlyIo_ok _, fun _ => ⟨?_, hbalanced.bound⟩⟩
      rw [openCount_setWriter_row hw hopen]
      exact hbalanced.count

end Pool

end GraphExport
