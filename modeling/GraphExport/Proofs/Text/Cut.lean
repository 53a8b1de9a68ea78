import GraphExport.Text.Cut

/-!
# GraphExport.Proofs.Text.Cut

What a text is cut into: one piece more than it has separators, made of its own characters. Texts
put together with `;` are cut apart again (`cutAt_joined`).
-/

namespace GraphExport.Text

theorem cutAt_of_not_mem {sep : Char} {s : List Char} (h : sep ∉ s) : cutAt sep s = [s] := by
  induction s with
  | nil => rfl
  | cons c rest ih =>
    have hc : c ≠ sep := fun hc => h (hc ▸ List.mem_cons_self)
    rw [cutAt, if_neg hc, ih fun hrest => h (List.mem_cons_of_mem _ hrest)]

theorem cutAt_append {sep : Char} {s : List Char} (h : sep ∉ s) (rest : List Char) :
    cutAt sep (s ++ sep :: rest) = s :: cutAt sep rest := by
  induction s with
  | nil => simp [cutAt]
  | cons c s ih =>
    have hc : c ≠ sep := fun hc => h (hc ▸ List.mem_cons_self)
    rw [List.cons_append, cutAt, if_neg hc, ih fun hs => h (List.mem_cons_of_mem _ hs)]

/-- A character that is no separator belongs to the first piece. -/
theorem cutAt_cons_of_ne {sep c : Char} (h : c ≠ sep) (rest : List Char) :
    cutAt sep (c :: rest) = (cutAt sep rest).modifyHead (c :: ·) := by
  obtain ⟨piece, pieces, hcut⟩ := List.exists_cons_of_ne_nil (cutAt_ne_nil sep rest)
  rw [cutAt, if_neg h, hcut]
  rfl

theorem length_cutAt (sep : Char) (s : List Char) : (cutAt sep s).length = s.count sep + 1 := by
  induction s with
  | nil => rfl
  | cons c rest ih =>
    by_cases hc : c = sep
    · subst hc
      rw [cutAt, if_pos rfl, List.length_cons, ih, List.count_cons_self]
    · rw [cutAt_cons_of_ne hc, List.length_modifyHead, ih, List.count_cons_of_ne hc]

theorem mem_of_mem_cutAt {sep : Char} {s p : List Char} (hp : p ∈ cutAt sep s) {c : Char}
    (hc : c ∈ p) : c ∈ s := by
  induction s generalizing p with
  | nil =>
    obtain rfl := List.mem_singleton.1 hp
    exact hc
  | cons d rest ih =>
    by_cases hd : d = sep
    · rw [cutAt, if_pos hd] at hp
      rcases List.mem_cons.1 hp with rfl | hp
      · cases hc
      · exact List.mem_cons_of_mem _ (ih hp hc)
    · obtain ⟨piece, pieces, hcut⟩ := List.exists_cons_of_ne_nil (cutAt_ne_nil sep rest)
      rw [cutAt_cons_of_ne hd, hcut, List.modifyHead_cons] at hp
      rcases List.mem_cons.1 hp with rfl | hp
      · rcases List.mem_cons.1 hc with rfl | hc
        · exact List.mem_cons_self
        · exact List.mem_cons_of_mem _ (ih (hcut ▸ List.mem_cons_self) hc)
      · exact List.mem_cons_of_mem _ (ih (hcut ▸ List.mem_cons_of_mem _ hp) hc)

/-- Texts put together with `;` are cut apart again. -/
theorem cutAt_joined {t : String} {rest : List String}
    (h : ∀ u ∈ t :: rest, ';' ∉ u.toList) :
    cutAt ';' (";".intercalate (t :: rest)).toList = (t :: rest).map String.toList := by
  induction rest generalizing t with
  | nil =>
    rw [String.intercalate_singleton]
    exact cutAt_of_not_mem (h t List.mem_cons_self)
  | cons u rest ih =>
    have hsep : (";" : String).toList = [';'] := by decide
    rw [String.intercalate_cons_cons, String.toList_append, String.toList_append, hsep,
      List.append_assoc, List.singleton_append, cutAt_append (h t List.mem_cons_self),
      ih fun v hv => h v (List.mem_cons_of_mem _ hv)]
    rfl

/-- A character of texts put together with `;` is `;` or is in one of them. -/
theorem of_mem_joined {tags : List String} {c : Char} (h : c ∈ (";".intercalate tags).toList) :
    c = ';' ∨ ∃ t ∈ tags, c ∈ t.toList := by
  induction tags with
  | nil => exact absurd h (by simp)
  | cons t rest ih =>
    cases rest with
    | nil =>
      rw [String.intercalate_singleton] at h
      exact .inr ⟨t, List.mem_cons_self, h⟩
    | cons u rest =>
      rw [String.intercalate_cons_cons, String.toList_append, String.toList_append,
        List.mem_append, List.mem_append] at h
      rcases h with (ht | hsep) | hrest
      · exact .inr ⟨t, List.mem_cons_self, ht⟩
      · exact .inl (List.mem_singleton.1 hsep)
      · exact (ih hrest).imp_right fun ⟨v, hv, hc⟩ => ⟨v, List.mem_cons_of_mem _ hv, hc⟩

end GraphExport.Text
