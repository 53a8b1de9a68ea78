/-!
# GraphExport.Text.Cut

Cutting a text at a separator. A text with `n` separators has `n + 1` pieces, which may be empty;
`glue` puts them together again.
-/

namespace GraphExport.Text

/-- The pieces of a text between the occurrences of a character. -/
def cutAt (sep : Char) : List Char → List (List Char)
  | [] => [[]]
  | c :: rest =>
    if c = sep then [] :: cutAt sep rest
    else
      match cutAt sep rest with
      | [] => [[c]]
      | piece :: pieces => (c :: piece) :: pieces

def glue (sep : List Char) : List (List Char) → List Char
  | [] => []
  | [piece] => piece
  | piece :: pieces => piece ++ sep ++ glue sep pieces

theorem cutAt_ne_nil (sep : Char) (s : List Char) : cutAt sep s ≠ [] := by
  cases s with
  | nil => simp [cutAt]
  | cons c rest => simp only [cutAt]; split <;> (try split) <;> simp

/-- The pieces of a string between the occurrences of a character. -/
def pieces (sep : Char) (s : String) : List String := (cutAt sep s.toList).map String.ofList

/-- The text up to and including the first occurrence of a character, and the rest. -/
def throughFirst (stop : Char) : List Char → List Char × List Char
  | [] => ([], [])
  | c :: rest =>
    if c = stop then ([c], rest)
    else ((c :: (throughFirst stop rest).1), (throughFirst stop rest).2)

end GraphExport.Text
