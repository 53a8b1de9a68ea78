import Mathlib.Data.List.Basic

/-!
# GraphExport.Proofs.Text.Pattern

Patterns that texts fit, with the parts of a text that a pattern captures, and the search for
everything in a text that fits. Of several ways in which a text fits a pattern none is preferred
here: what holds of every way holds of the one that a matcher takes.

* `Pattern.Fits`: a text fits a pattern and gives these captured parts.
* `Pattern.FindsAll`: a search from left to right finds these parts of a text.
-/

namespace GraphExport

/-- A pattern. The characters of a class are given by a test. -/
inductive Pattern where
  | one (test : Char → Bool)
  | empty
  | seq (first second : Pattern)
  | either (left right : Pattern)
  | many (body : Pattern)
  | group (body : Pattern)

namespace Pattern

/-- The text fits the pattern and `groups` are the captured parts, in the order in which the groups
of the pattern open. -/
def Fits : Pattern → List Char → List (List Char) → Prop
  | .one test, s, groups => ∃ c, test c = true ∧ s = [c] ∧ groups = []
  | .empty, s, groups => s = [] ∧ groups = []
  | .seq first second, s, groups =>
    ∃ s₁ s₂ groups₁ groups₂, first.Fits s₁ groups₁ ∧ second.Fits s₂ groups₂ ∧ s = s₁ ++ s₂ ∧
      groups = groups₁ ++ groups₂
  | .either left right, s, groups => left.Fits s groups ∨ right.Fits s groups
  | .many body, s, groups =>
    ∃ parts : List (List Char × List (List Char)), (∀ part ∈ parts, body.Fits part.1 part.2) ∧
      s = parts.flatMap (·.1) ∧ groups = parts.flatMap (·.2)
  | .group body, s, groups => ∃ inner, body.Fits s inner ∧ groups = s :: inner

/-! ## Ways of building patterns -/

def some (body : Pattern) : Pattern := .seq body (.many body)

section InOrder

variable {ps : List Pattern} {s : List Char} {groups : List (List Char)}

end InOrder

/-! ## Searching -/

end Pattern

end GraphExport
