import GraphExport.Source.Query
import GraphExport.Text.Number

/-!
# GraphExport.Source.Traversal

Traversals: the small dialect in which named queries are written. A traversal starts at all nodes
or all edges, narrows them step by step, and ends with at most one projection.
-/

namespace GraphExport

inductive Projection where
  | elementMap
  | valueMapWithTokens
  | valueMap
  | id
  | count
  deriving DecidableEq

inductive Step where
  | hasLabel (tags : List String)
  | range (window : Window)
  | limit (n : Nat)
  deriving DecidableEq

structure Traversal where
  kind : ElementKind
  steps : List Step
  projection : Projection
  deriving DecidableEq

namespace Traversal

/-! ## Arguments -/

/-- The arguments of a step: the pieces at commas, without blanks and quotes around them. Empty
ones do not count. -/
def arguments (s : List Char) : List String :=
  ((Text.cutAt ',' s).map fun piece =>
    String.ofList (Text.stripBy (fun c => c = '\'' || c = '"') (Text.stripBy Text.isBlank piece)))
    |>.filter (· != "")

/-! ## Steps -/

/-- The start of a traversal, after blanks: its kind and the rest of the text. -/
def cutSource (s : List Char) : Option (ElementKind × List Char) :=
  match s.dropWhile Text.isBlank with
  | 'g' :: '.' :: 'V' :: '(' :: ')' :: rest => some (.nodes, rest)
  | 'g' :: '.' :: 'E' :: '(' :: ')' :: rest => some (.edges, rest)
  | _ => none

/-- A step as written: its name, the text of its arguments, and the rest. -/
def cutStep (s : List Char) : Option (List Char × List Char × List Char) :=
  match s with
  | '.' :: rest =>
    match rest.dropWhile (· != '(') with
    | '(' :: inside =>
      match inside.dropWhile (fun c => c != '(' && c != ')') with
      | ')' :: after =>
        some (rest.takeWhile (· != '('),
          inside.takeWhile (fun c => c != '(' && c != ')'), after)
      | _ => none
    | _ => none
  | _ => none

theorem length_lt_of_cutStep {s name args rest : List Char}
    (h : cutStep s = some (name, args, rest)) : rest.length < s.length := by
  unfold cutStep at h
  split at h
  · rename_i tail
    split at h
    · rename_i inside hinside
      split at h
      · rename_i after hafter
        simp only [Option.some.injEq, Prod.mk.injEq] at h
        obtain ⟨_, _, rfl⟩ := h
        have h₁ := congrArg List.length
          (List.takeWhile_append_dropWhile (p := (· != '(')) (l := tail))
        have h₂ := congrArg List.length
          (List.takeWhile_append_dropWhile (p := fun c => c != '(' && c != ')') (l := inside))
        rw [hinside] at h₁
        rw [hafter] at h₂
        simp only [List.length_append, List.length_cons] at h₁ h₂ ⊢
        omega
      · cases h
    · cases h
  · cases h

/-- The steps at the start of a text, each with its arguments, and the text after them. -/
def cutSteps (s : List Char) : List (String × List String) × List Char :=
  match h : cutStep s with
  | none => ([], s)
  | some (name, args, rest) =>
    have := length_lt_of_cutStep h
    let (steps, after) := cutSteps rest
    ((String.ofList name, arguments args) :: steps, after)
termination_by s.length

/-- Nothing but blanks and at most one semicolon. -/
def isEnd (s : List Char) : Bool :=
  match s.dropWhile Text.isBlank with
  | ';' :: rest => rest.all Text.isBlank
  | [] => true
  | _ => false

inductive Meaning where
  | narrow (step : Step)
  | project (projection : Projection)

def meaning? (name : String) (args : List String) : Option Meaning :=
  match name, args with
  | "hasLabel", tag :: tags => some (.narrow (.hasLabel (tag :: tags)))
  | "range", [start, stop] =>
    match Text.signedWord? start, Text.signedWord? stop with
    | some start, some stop => some (.narrow (.range ⟨start, stop⟩))
    | _, _ => none
  | "limit", [n] => (Text.unsignedWord? n).map fun n => .narrow (.limit n)
  | "elementMap", [] => some (.project .elementMap)
  | "valueMap", ["true"] => some (.project .valueMapWithTokens)
  | "valueMap", [] => some (.project .valueMap)
  | "id", [] => some (.project .id)
  | "count", [] => some (.project .count)
  | _, _ => none

/-- The narrowing steps and the projection of written steps. A projection may only come last. -/
def ofSteps? : List (String × List String) → Option (List Step × Projection)
  | [] => some ([], .elementMap)
  | (name, args) :: rest =>
    match meaning? name args with
    | none => none
    | some (.project p) => if rest.isEmpty then some ([], p) else none
    | some (.narrow step) => (ofSteps? rest).map fun (steps, p) => (step :: steps, p)

/-- Reads a traversal; every step that is written must be one of the dialect. -/
def parse? (query : String) : Option Traversal :=
  match cutSource query.toList with
  | none => none
  | some (kind, rest) =>
    let (written, after) := cutSteps rest
    if isEnd after then
      (ofSteps? written).map fun (steps, projection) => { kind, steps, projection }
    else none

end Traversal

end GraphExport
