import GraphExport.Window

/-!
# GraphExport.Text.Number

Whole numbers written in decimal digits, within the range of a word of 64 bits. Zeros may stand in
front, blanks may not.
-/

namespace GraphExport.Text

def natural? (s : String) : Option Nat :=
  let ds :=
    match s.toList with
    | '+' :: rest => rest
    | s => s
  if !ds.isEmpty && ds.all Char.isDigit then
    some (ds.foldl (fun n c => 10 * n + (c.toNat - '0'.toNat)) 0)
  else none

/-- A natural number of 64 bits. -/
def unsignedWord? (s : String) : Option Nat := (natural? s).filter (· < 0x10000000000000000)

/-- A whole number of 64 bits, with a sign or without. -/
def signedWord? (s : String) : Option Int :=
  let n : Option Int :=
    match s.toList with
    | '-' :: '+' :: _ => none
    | '-' :: rest => (natural? (String.ofList rest)).map fun n => -(n : Int)
    | _ => (natural? s).map Int.ofNat
  n.filter fun n => minWord ≤ n && n ≤ maxWord

end GraphExport.Text
