import GraphExport.Json.Written

/-!
# GraphExport.Json.Decode

Reading typed data off written JSON. A record is written as an object, in which fields that it
does not have are skipped unread, or as the list of its fields in order. Where data may be written
in several ways, a record among them is always an object.
-/

namespace GraphExport

/-- Reads a value off what is written, below at most that many further containers. -/
abbrev Decode (α : Type) := Nat → Written → Option α

namespace Decode

def string : Decode String
  | _, .str s => s
  | _, _ => none

def bool : Decode Bool
  | _, .bool b => some b
  | _, _ => none

def value : Decode Json := Written.toJson?

def list {α : Type} (item : Decode α) : Decode (List α)
  | depth + 1, .arr items => items.mapM (item depth)
  | _, _ => none

def properties : Decode PropertyMap
  | depth + 1, .obj fields => (Written.toJsonFields? depth fields).map SortedMap.ofList
  | _, _ => none

/-- One of several words, written as a string or as an object that maps the word to null. -/
def word {α : Type} (words : List (String × α)) : Decode α
  | _, .str s => s.bind fun w => List.lookup w words
  | _ + 1, .obj [(some k, .null)] => List.lookup k words
  | _, _ => none

def fieldIndex (names : List (List String)) (key : String) : Option Nat :=
  names.findIdx? fun aliases => aliases.contains key

/-- Files the fields of an object under their places; a field may not come twice. -/
def fileFields (names : List (List String)) :
    List (Option String × Written) → List (Option Written) → Option (List (Option Written))
  | [], slots => some slots
  | (none, _) :: _, _ => none
  | (some k, v) :: rest, slots =>
    match fieldIndex names k with
    | none => fileFields names rest slots
    | some i =>
      match slots[i]? with
      | some none => fileFields names rest (slots.set i (some v))
      | _ => none

/-- The fields of an object in order, each present or missing, with the depth left for them. -/
def namedSlots (names : List (List String)) : Decode (Nat × List (Option Written))
  | depth + 1, .obj fields =>
    (fileFields names fields (List.replicate names.length none)).map (depth, ·)
  | _, _ => none

/-- The fields of a record in order, as an object or as the list of its fields. -/
def slots (names : List (List String)) : Decode (Nat × List (Option Written))
  | depth + 1, .arr items =>
    if items.length ≤ names.length then
      some (depth, items.map some ++ List.replicate (names.length - items.length) none)
    else none
  | depth, v => namedSlots names depth v

def required {α : Type} (d : Decode α) (depth : Nat) : Option Written → Option α
  | some v => d depth v
  | none => none

/-- A field that has a value of its own when it is missing. -/
def withDefault {α : Type} (d : Decode α) (default : α) (depth : Nat) : Option Written → Option α
  | some v => d depth v
  | none => some default

/-- Everything below has a value; what is read in several ways is read as a whole first. -/
def readable (depth : Nat) (v : Written) : Bool := (Written.toJson? depth v).isSome

/-- Reads the first way that succeeds, of a value that is readable as a whole. -/
def firstOf {α : Type} (ways : List (Decode α)) : Decode α := fun depth v =>
  if readable depth v then ways.findSome? fun d => d depth v else none

def fromText? {α : Type} (d : Decode α) (text : String) : Option α :=
  (Written.ofText? text).bind (d Written.maxDepth)

def fromJson? {α : Type} (d : Decode α) (v : Json) : Option α := d Written.maxDepth (.ofJson v)

end Decode

end GraphExport
