import GraphExport.Label.Basic
import Mathlib.Data.List.Basic

/-!
# GraphExport.Proofs.Label.Tags

Which written tags stand for the same set of tags.

* `cutTag_of_hasSeparator`: a text without `::` is not cut.
* `Label.single_inj`: tags that stand for themselves are told apart by their labels.
-/

namespace GraphExport

theorem cutTag_of_hasSeparator {s : List Char} (h : hasSeparator s = false) : cutTag s = [s] := by
  fun_induction cutTag s with
  | case1 => rfl
  | case2 rest => simp [hasSeparator] at h
  | case3 c rest hc hnil => exact absurd hnil (cutTag_ne_nil rest)
  | case4 c rest hc p ps hp ih =>
    rw [hasSeparator.eq_3 _ _ hc] at h
    have hrest := ih h
    rw [hp] at hrest
    cases hrest
    rfl

theorem writtenTags_of_isTag {t : String} (h : IsTag t) : writtenTags [t] = [t] := by
  simp [writtenTags, cutTag_of_hasSeparator h.2, h.1]

/-- Tags that stand for themselves are told apart by their labels. -/
theorem Label.single_inj {a b : String} (ha : IsTag a) (hb : IsTag b) :
    Label.single a = Label.single b ↔ a = b := by
  constructor
  · intro h
    have hmem : a ∈ (TagSet.ofList [b]).tags := by
      rw [← show TagSet.ofList [a] = TagSet.ofList [b] from congrArg Label.own h,
        TagSet.mem_ofList, writtenTags_of_isTag ha]
      exact List.mem_singleton_self a
    rw [TagSet.mem_ofList, writtenTags_of_isTag hb] at hmem
    exact List.mem_singleton.1 hmem
  · exact congrArg Label.single

end GraphExport
