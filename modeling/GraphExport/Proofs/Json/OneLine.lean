import GraphExport.Output.Line
import GraphExport.Proofs.Text.Number

/-!
# GraphExport.Proofs.Json.OneLine

The compact text of a value is one line, whatever its strings hold.

* `Json.lineFeed_not_mem_compact`: no line feed stands in the text.
* `count_jsonLine`: the line of a map in a file has one, at its end.
-/

namespace GraphExport

theorem lineFeed_not_mem_toDigits (n : Nat) : '\n' ∉ Nat.toDigits 10 n := fun h =>
  absurd (Nat.isDigit_of_mem_toDigits (by decide) (by decide) h) (by decide)

namespace Binary64

theorem digitChar_ne_lineFeed (n : Nat) : digitChar n ≠ '\n' := by
  have hcode : ∀ m, 48 ≤ m → (Char.ofNat m).toNat ≠ 10 := by
    intro m hm
    by_cases hvalid : m.isValidChar
    · rw [Char.ofNat, dif_pos hvalid]
      show m ≠ 10
      omega
    · rw [Char.ofNat, dif_neg hvalid]
      decide
  exact fun h => hcode _ (Nat.le_add_right _ _) (congrArg Char.toNat h)

theorem lineFeed_not_mem_place (l : Layout) (d : Digits) : '\n' ∉ l.place d := by
  have hcs : '\n' ∉ d.digits.map digitChar := by
    intro h
    obtain ⟨n, -, hn⟩ := List.mem_map.1 h
    exact digitChar_ne_lineFeed n hn
  have hzeros : ∀ n, '\n' ∉ zeros n := by
    intro n h
    exact absurd (List.eq_of_mem_replicate h) (by decide)
  have htake : ∀ n, '\n' ∉ (d.digits.map digitChar).take n :=
    fun n h => hcs (List.mem_of_mem_take h)
  have hdrop : ∀ n, '\n' ∉ (d.digits.map digitChar).drop n :=
    fun n h => hcs (List.mem_of_mem_drop h)
  have htail : '\n' ∉ (d.digits.map digitChar).tail := fun h => hcs (List.mem_of_mem_tail h)
  unfold Layout.place
  dsimp only
  split
  · split <;> simp [hcs, hzeros, htake, hdrop]
  · split
    · simp [hcs, hzeros]
    · split <;> split <;> simp [htake, htail, lineFeed_not_mem_toDigits]

theorem lineFeed_not_mem_text (x : Binary64) : '\n' ∉ x.text := by
  have hplace := lineFeed_not_mem_place Layout.standard (shortest x)
  unfold text
  dsimp only
  split <;> split <;> simp [hplace]

end Binary64

namespace Json

theorem lineFeed_not_mem_quote (s : String) : '\n' ∉ (quote s).toList := by
  have hescape : ∀ c, '\n' ∉ escapeChar c := by
    intro c
    have hdigit : ∀ n, '\n' ≠ Nat.digitChar n := fun n => (Nat.digitChar_ne '\n' (by decide)).symm
    unfold escapeChar
    repeat' split
    all_goals simp_all [eq_comm]
  simp [quote, hescape]

theorem lineFeed_not_mem_scalarText (v : Json) : '\n' ∉ (scalarText v).toList := by
  intro h
  unfold scalarText at h
  split at h
  · exact absurd h (by decide)
  · exact absurd h (by decide)
  · rcases Text.mem_toString h with hdigit | hsign
    · exact absurd hdigit (by decide)
    · exact absurd hsign (by decide)
  · rw [String.toList_ofList] at h
    exact Binary64.lineFeed_not_mem_text _ h
  · exact lineFeed_not_mem_quote _ h
  · exact absurd h (by decide)

mutual

theorem lineFeed_not_mem_compact (v : Json) : '\n' ∉ v.compact.toList := by
  cases v with
  | arr items => simp [compact, lineFeed_not_mem_compactItems items]
  | obj fields => simp [compact, lineFeed_not_mem_compactFields fields]
  | _ => exact lineFeed_not_mem_scalarText _

theorem lineFeed_not_mem_compactItems (items : List Json) :
    '\n' ∉ (compactItems items).toList := by
  match items with
  | [] => simp [compactItems]
  | [v] => simp [compactItems, lineFeed_not_mem_compact v]
  | v :: w :: rest =>
    simp [compactItems, lineFeed_not_mem_compact v, lineFeed_not_mem_compactItems (w :: rest)]

theorem lineFeed_not_mem_compactFields (fields : List (String × Json)) :
    '\n' ∉ (compactFields fields).toList := by
  match fields with
  | [] => simp [compactFields]
  | [(k, v)] => simp [compactFields, lineFeed_not_mem_quote, lineFeed_not_mem_compact v]
  | (k, v) :: f :: rest =>
    simp [compactFields, lineFeed_not_mem_quote, lineFeed_not_mem_compact v,
      lineFeed_not_mem_compactFields (f :: rest)]

end

end Json

/-- The line of a map ends with the one line feed in it. -/
theorem count_jsonLine (m : PropertyMap) : (jsonLine m).toList.count '\n' = 1 := by
  have hcompact := List.count_eq_zero.2 (Json.lineFeed_not_mem_compact (.ofMap m))
  rw [jsonLine, String.toList_append, List.count_append, hcompact]
  rfl

end GraphExport
