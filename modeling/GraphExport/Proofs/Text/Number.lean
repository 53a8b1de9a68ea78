import GraphExport.Text.Number

/-!
# GraphExport.Proofs.Text.Number

A number that was printed is read back: `signedWord?_toString`, for every signed word.
-/

namespace GraphExport.Text

/-- Digits alone are read as the number that they spell. -/
theorem natural?_ofList {c : Char} {rest : List Char} (h : ∀ d ∈ c :: rest, d.isDigit = true) :
    natural? (String.ofList (c :: rest)) = some (Nat.ofDigitChars 10 (c :: rest) 0) := by
  have hplus : c ≠ '+' := by
    rintro rfl
    exact absurd (h '+' List.mem_cons_self) (by decide)
  have hall : (c :: rest).all Char.isDigit = true := List.all_eq_true.2 h
  simp only [natural?, String.toList_ofList]
  split
  · rename_i heq
    cases heq
    exact absurd rfl hplus
  · rw [hall]
    rfl

/-- No sign stands in front of the digits of a natural number. -/
theorem exists_toDigits_eq (n : Nat) :
    ∃ c rest, Nat.toDigits 10 n = c :: rest ∧ c.isDigit = true := by
  cases h : Nat.toDigits 10 n with
  | nil => exact absurd h Nat.toDigits_ne_nil
  | cons c rest =>
    have hc : c ∈ Nat.toDigits 10 n := h ▸ List.mem_cons_self
    exact ⟨c, rest, rfl, Nat.isDigit_of_mem_toDigits (by decide) (by decide) hc⟩

theorem natural?_ofList_toDigits (n : Nat) :
    natural? (String.ofList (Nat.toDigits 10 n)) = some n := by
  obtain ⟨c, rest, hcons, -⟩ := exists_toDigits_eq n
  have hdigits : ∀ d ∈ c :: rest, d.isDigit = true := by
    rw [← hcons]
    exact fun _ => Nat.isDigit_of_mem_toDigits (by decide) (by decide)
  rw [hcons, natural?_ofList hdigits, ← hcons, Nat.ofDigitChars_toDigits (by decide) (by decide)]

theorem toList_toString_ofNat (n : Nat) : (toString (Int.ofNat n)).toList = Nat.toDigits 10 n :=
  Nat.toList_repr

theorem toList_toString_negSucc (n : Nat) :
    (toString (Int.negSucc n)).toList = '-' :: Nat.toDigits 10 (n + 1) := by
  have h : toString (Int.negSucc n) = "-" ++ (n + 1).repr := rfl
  rw [h, String.toList_append, Nat.toList_repr]
  rfl

/-- The text of a whole number has no characters but digits and a sign. -/
theorem mem_toString {i : Int} {c : Char} (h : c ∈ (toString i).toList) :
    c.isDigit = true ∨ c = '-' := by
  cases i with
  | ofNat n =>
    rw [toList_toString_ofNat] at h
    exact .inl (Nat.isDigit_of_mem_toDigits (by decide) (by decide) h)
  | negSucc n =>
    rw [toList_toString_negSucc, List.mem_cons] at h
    exact h.symm.imp (Nat.isDigit_of_mem_toDigits (by decide) (by decide)) id

theorem toString_ne_empty (i : Int) : toString i ≠ "" := by
  intro h
  have hnil : (toString i).toList = [] := by rw [h]; rfl
  cases i with
  | ofNat n =>
    rw [toList_toString_ofNat] at hnil
    exact Nat.toDigits_ne_nil hnil
  | negSucc n =>
    rw [toList_toString_negSucc] at hnil
    cases hnil

theorem signedWord?_toString {i : Int} (h : minWord ≤ i ∧ i ≤ maxWord) :
    signedWord? (toString i) = some i := by
  have hfits : (decide (minWord ≤ i) && decide (i ≤ maxWord)) = true := by simp [h.1, h.2]
  cases i with
  | ofNat n =>
    obtain ⟨c, rest, hcons, hc⟩ := exists_toDigits_eq n
    have hminus : c ≠ '-' := by
      rintro rfl
      exact absurd hc (by decide)
    have hread : natural? (toString (Int.ofNat n)) = some n := by
      rw [← String.ofList_toList (s := toString (Int.ofNat n)), toList_toString_ofNat]
      exact natural?_ofList_toDigits n
    simp only [signedWord?, toList_toString_ofNat, hcons, hread]
    split
    · rename_i heq
      cases heq
      exact absurd rfl hminus
    · rename_i heq
      cases heq
      exact absurd rfl hminus
    · exact Option.filter_eq_some_iff.2 ⟨rfl, hfits⟩
  | negSucc n =>
    obtain ⟨c, rest, hcons, hc⟩ := exists_toDigits_eq (n + 1)
    have hplus : c ≠ '+' := by
      rintro rfl
      exact absurd hc (by decide)
    have hread : natural? (String.ofList (c :: rest)) = some (n + 1) := by
      rw [← hcons]
      exact natural?_ofList_toDigits (n + 1)
    simp only [signedWord?, toList_toString_negSucc, hcons]
    split
    · rename_i heq
      cases heq
      exact absurd rfl hplus
    · rename_i heq
      cases heq
      rw [hread]
      exact Option.filter_eq_some_iff.2 ⟨rfl, hfits⟩
    · rename_i hnone
      exact absurd rfl (hnone _)

end GraphExport.Text
