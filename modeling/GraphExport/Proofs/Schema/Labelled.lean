import GraphExport.Job.Station
import GraphExport.Proofs.Data.Maps
import GraphExport.Proofs.Source.Feed

/-!
# GraphExport.Proofs.Schema.Labelled

Collections in which every schema stands under its own label. Joining keeps them so.
-/

namespace GraphExport

namespace Collection

def Labelled (c : Collection) : Prop := ∀ label s, c.get? label = some s → s.label = label

theorem labelled_empty : Labelled ∅ := fun label s h => by
  rw [SortedMap.get?_empty] at h
  cases h

theorem Labelled.insert {c : Collection} (h : c.Labelled) {s : LabelSchema} {label : Label}
    (hs : s.label = label) : Labelled (SortedMap.insert c label s) := by
  intro l t ht
  rw [SortedMap.get?_insert] at ht
  split at ht
  · rename_i hl
    cases ht
    exact hs.trans hl.symm
  · exact h l t ht

theorem Labelled.add {c : Collection} (h : c.Labelled) (s : LabelSchema) : (c.add s).Labelled := by
  refine h.insert ?_
  cases hs : c.get? s.label with
  | none => rfl
  | some t => exact h s.label t hs

theorem Labelled.foldl_add {c : Collection} (h : c.Labelled) (l : List LabelSchema) :
    (l.foldl Collection.add c).Labelled := by
  induction l generalizing c with
  | nil => exact h
  | cons s rest ih => exact ih (h.add s)

theorem Labelled.union {c : Collection} (h : c.Labelled) (other : Collection) :
    (c.union other).Labelled := h.foldl_add other.values

theorem Labelled.update {c : Collection} (h : c.Labelled) (label : Label)
    (properties : PropertyMap) (allowTokens : Bool) :
    (c.update label properties allowTokens).Labelled := by
  refine h.insert ?_
  cases hs : c.get? label with
  | none => rfl
  | some s => exact h label s hs

end Collection

namespace GraphSchema

def Labelled (g : GraphSchema) : Prop := ∀ kind, (g.get kind).Labelled

theorem Labelled.modify {g : GraphSchema} (h : g.Labelled) {kind : OutputKind}
    {f : Collection → Collection} (hf : ∀ c : Collection, c.Labelled → (f c).Labelled) :
    GraphSchema.Labelled (g.modify kind f) := by
  intro k
  by_cases hk : k = kind
  · subst hk
    rw [PerKind.modify, PerKind.get_set_self]
    exact hf _ (h k)
  · rw [PerKind.modify, PerKind.get_set_of_ne _ _ hk]
    exact h k

end GraphSchema

theorem Delivery.feed_snd {α σ : Type} (d : Delivery α) (step : α → σ → Except Failure Unit × σ)
    (s : σ) : (d.feed step s).2 = (GraphExport.feed step d.items s).2 := by
  rcases d.feed_cases step s with ⟨s', h, hfeed, -⟩ | ⟨f, h⟩
  · rw [h, hfeed]
  · rw [h]

end GraphExport
