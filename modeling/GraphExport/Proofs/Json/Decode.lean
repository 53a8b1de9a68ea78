import GraphExport.Json.Decode

/-!
# GraphExport.Proofs.Json.Decode

Reading back lists that were written.

* `Decode.list_ofJson`: a list is read if its items are.
* `Decode.exists_of_mem_list`: what is in a list that was read was read itself.
* `Decode.readable_strings`: a list of strings is readable as a whole.
-/

namespace GraphExport

theorem Written.ofJsonItems_eq_map (items : List Json) : ofJsonItems items = items.map ofJson := by
  induction items with
  | nil => rfl
  | cons v rest ih => rw [ofJsonItems, ih, List.map_cons]

namespace Decode

/-- A list is read item by item, where each item is written by `write` and read as `read` says. -/
theorem list_ofJson {α β : Type} {item : Decode β} {depth : Nat} {l : List α} (write : α → Json)
    (read : α → β) (h : ∀ a ∈ l, item depth (.ofJson (write a)) = some (read a)) :
    list item (depth + 1) (.ofJson (.arr (l.map write))) = some (l.map read) := by
  have hmap : ((l.map write).map Written.ofJson).mapM (item depth) = some (l.map read) := by
    induction l with
    | nil => rfl
    | cons a l ih =>
      rw [List.map_cons, List.map_cons, List.mapM_cons, h a List.mem_cons_self,
        ih fun b hb => h b (List.mem_cons_of_mem _ hb)]
      rfl
  rw [Written.ofJson, Written.ofJsonItems_eq_map]
  exact hmap

/-- What is in a list that was read was read itself. -/
theorem exists_of_mem_list {α : Type} {item : Decode α} {depth : Nat} {w : Written} {l : List α}
    (h : list item depth w = some l) {a : α} (ha : a ∈ l) :
    ∃ depth' w', item depth' w' = some a := by
  unfold list at h
  split at h
  · rename_i items
    induction items generalizing l with
    | nil =>
      cases h
      cases ha
    | cons v rest ih =>
      rw [List.mapM_cons] at h
      simp only [Option.bind_eq_bind, Option.bind_eq_some_iff, Option.pure_def,
        Option.some.injEq] at h
      obtain ⟨b, hb, bs, hbs, rfl⟩ := h
      rcases List.mem_cons.1 ha with rfl | ha
      · exact ⟨_, v, hb⟩
      · exact ih ha hbs
  · cases h

theorem exists_arr_of_list {α : Type} {item : Decode α} {depth : Nat} {w : Written} {l : List α}
    (h : list item depth w = some l) : ∃ items, w = .arr items := by
  unfold list at h
  split at h
  · exact ⟨_, rfl⟩
  · cases h

theorem exists_obj_of_namedSlots {names : List (List String)} {depth : Nat} {w : Written}
    {found : Nat × List (Option Written)} (h : namedSlots names depth w = some found) :
    ∃ fields, w = .obj fields := by
  unfold namedSlots at h
  split at h
  · exact ⟨_, rfl⟩
  · cases h

theorem strings_ofJson (l : List String) (depth : Nat) :
    list string (depth + 1) (.ofJson (.strings l)) = some l := by
  rw [Json.strings, list_ofJson .str id fun _ _ => rfl, List.map_id]

theorem toJsonItems?_strings (l : List String) (depth : Nat) :
    Written.toJsonItems? depth (Written.ofJsonItems (l.map .str)) = some (l.map .str) := by
  induction l with
  | nil => rfl
  | cons s l ih =>
    rw [List.map_cons, Written.ofJsonItems, Written.toJsonItems?, ih]
    rfl

theorem readable_strings (l : List String) (depth : Nat) :
    readable (depth + 1) (.ofJson (.strings l)) = true := by
  rw [readable, Json.strings, Written.ofJson, Written.toJson?, toJsonItems?_strings]
  rfl

end Decode

end GraphExport
