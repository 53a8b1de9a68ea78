import GraphExport.Label.Tags
import GraphExport.Text.Classes
import GraphExport.Text.Cut

/-!
# GraphExport.Label.Basic

Labels: what elements of the same shape have in common. A label is a set of tags and, for edges
that are told apart by their end points, the tags at either end.
-/

namespace GraphExport

structure Label where
  own : TagSet
  source : TagSet
  target : TagSet
  deriving DecidableEq, Inhabited

namespace Label

def ofTags (tags : List String) : Label := ⟨.ofList tags, ∅, ∅⟩

def single (tag : String) : Label := ofTags [tag]

/-- The label of an edge and the tags of its end points. -/
def withEndpoints (tag : String) (source target : List String) : Label :=
  ⟨.ofList [tag], .ofList source, .ofList target⟩

def hasEndpoints (l : Label) : Bool := !l.source.isEmpty || !l.target.isEmpty

def text (l : Label) : String := l.own.text

/-- The whole label: `tags`, or `(tags)-tags-(tags)` with end points. -/
def qualifiedText (l : Label) : String :=
  if l.hasEndpoints then "(" ++ l.source.text ++ ")-" ++ l.text ++ "-(" ++ l.target.text ++ ")"
  else l.text

/-- Every tag of the label, as a filter, is on the candidate. -/
def isMatchedBy (filter candidate : Label) : Bool :=
  filter.own.subset candidate.own && filter.source.subset candidate.source &&
    filter.target.subset candidate.target

/-! ## Order -/

/-- Labels are compared by their own tags, then by the source tags, then by the target tags. -/
def order : Label → Label → Ordering :=
  compareLex (compareOn (·.own)) (compareLex (compareOn (·.source)) (compareOn (·.target)))

instance : Std.TransCmp order := by unfold order; infer_instance

instance : Ord Label := ⟨order⟩

instance : Std.TransOrd Label := inferInstanceAs (Std.TransCmp order)

instance : Std.LawfulEqOrd Label where
  compare_self {l} := by
    have h : order l l = .eq := Std.ReflCmp.compare_self
    exact h
  eq_of_compare {a b} h := by
    have h : order a b = .eq := h
    simp only [order, compareLex, compareOn, Ordering.then_eq_eq] at h
    obtain ⟨h₁, h₂, h₃⟩ := h
    cases a; cases b
    simp only [Label.mk.injEq]
    exact ⟨Std.LawfulEqOrd.eq_of_compare h₁, Std.LawfulEqOrd.eq_of_compare h₂,
      Std.LawfulEqOrd.eq_of_compare h₃⟩

/-! ## Reading the text form -/

def tagsOfText (s : List Char) : List String :=
  (((Text.cutAt ';' s).map (Text.stripBy Text.isBlank)).filter (!·.isEmpty)).map String.ofList

/-- Cuts the last part of `middle-(target` off, as far to the right as possible. The middle holds no
line break and the target no closing parenthesis. -/
def cutTarget : List Char → Option (List Char × List Char)
  | [] => none
  | c :: rest =>
    match if c = '\n' then none else cutTarget rest with
    | some (middle, target) => some (c :: middle, target)
    | none =>
      match c, rest with
      | '-', '(' :: target => if target.contains ')' then none else some ([], target)
      | _, _ => none

/-- The three parts of `(source)-middle-(target)`, of which the middle is not empty. -/
def cutQualified : List Char → Option (List Char × List Char × List Char)
  | '(' :: rest =>
    let source := rest.takeWhile (· != ')')
    match rest.dropWhile (· != ')') with
    | ')' :: '-' :: c :: body =>
      if c = '\n' || body.getLast? != some ')' then none
      else
        match cutTarget body.dropLast with
        | some (middle, target) => some (source, c :: middle, target)
        | none => none
    | _ => none
  | _ => none

/-- Reads the text form of filters: `person`, `a;b` or `(person)-knows-(software)`. -/
def parse (text : String) : Label :=
  let s := Text.stripBy Text.isBlank text.toList
  match cutQualified s with
  | some (source, middle, target) =>
    withEndpoints (String.ofList middle) (tagsOfText source) (tagsOfText target)
  | none => ofTags (tagsOfText s)

end Label

end GraphExport
