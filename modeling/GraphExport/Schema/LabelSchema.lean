import GraphExport.Data.FirstSeen
import GraphExport.Label.Json
import GraphExport.Schema.DataType

/-!
# GraphExport.Schema.LabelSchema

What is known of the elements of one label: its columns in the order in which they were first seen,
what was observed in each, and the number of elements. Columns keep their places for good.

The numbers here are exact. They are kept in counters of 64 bits that wrap around, and since nothing
is done to them but adding, a counter shows the residue of the number: `Column.counter`,
`LabelSchema.counter`. Whatever looks at a number looks at its counter.
-/

namespace GraphExport

/-- What was observed of one property. -/
structure Column where
  /-- The join of the types seen. -/
  dataType : DataType := .none
  types : TypeSet := ∅
  /-- Some value was a list. -/
  multiValue : Bool := false
  /-- A schema that was read in says that the property may be missing. -/
  markedNullable : Bool := false
  /-- The number of elements that carry the property. -/
  observations : Nat := 0
  deriving DecidableEq, Inhabited

namespace Column

/-- Widens by a type; the type of null tells nothing. -/
def recordType (c : Column) (t : DataType) : Column :=
  if t = .none then c else { c with dataType := c.dataType.widen t, types := c.types.insert t }

def observe (c : Column) (v : Json) : Column :=
  let c := { c with multiValue := c.multiValue || v.isArray }
  let c := c.recordType (.ofValue v)
  { c with observations := c.observations + 1 }

def union (c other : Column) : Column :=
  let c := other.types.toList.foldl recordType c
  { c with
    dataType := c.dataType.widen other.dataType
    multiValue := c.multiValue || other.multiValue
    markedNullable := c.markedNullable || other.markedNullable
    observations := c.observations + other.observations }

/-- The number of observations as it is kept. -/
def counter (c : Column) : UInt64 := .ofNat c.observations

end Column

structure LabelSchema where
  label : Label
  columns : FirstSeen String Column := ∅
  count : Nat := 0
  deriving DecidableEq, Inhabited

namespace LabelSchema

/-- Columns and types of another schema, with nothing observed yet. -/
def columnsOf (s : LabelSchema) : LabelSchema where
  label := s.label
  columns := s.columns.map fun _ c =>
    { dataType := c.dataType, types := c.types, multiValue := c.multiValue }

def size (s : LabelSchema) : Nat := s.columns.size

def names (s : LabelSchema) : List String := s.columns.keys

/-- The number of elements as it is kept. -/
def counter (s : LabelSchema) : UInt64 := .ofNat s.count

/-- Some element lacks the property, or is said to. The counters decide, so that this is wrong once
the number of elements has wrapped around. -/
def isNullable (s : LabelSchema) (c : Column) : Bool :=
  c.markedNullable || c.counter < s.counter

/-- A name in the namespace of tokens. -/
def isTokenName (name : String) : Bool := name.toList.head? = some '~'

/-- A property that makes a column: not null, and no token unless those are allowed. -/
def isRecorded (allowTokens : Bool) (name : String) (v : Json) : Bool :=
  !v.isNull && (allowTokens || !isTokenName name)

def observe (columns : FirstSeen String Column) (name : String) (v : Json) :
    FirstSeen String Column :=
  columns.alter name fun c => (c.getD {}).observe v

def update (s : LabelSchema) (properties : PropertyMap) (allowTokens : Bool) : LabelSchema :=
  { s with
    count := s.count + 1
    columns := (properties.filter (isRecorded allowTokens)).entries.foldl
      (fun cs e => observe cs e.1 e.2) s.columns }

def union (s other : LabelSchema) : LabelSchema :=
  { s with
    count := s.count + other.count
    columns := other.columns.entries.foldl
      (fun cs e => cs.alter e.1 fun c => (c.getD {}).union e.2) s.columns }

/-- Both schemas show the same: label, columns and counters. -/
def isSame (s other : LabelSchema) : Bool :=
  let shown (s : LabelSchema) :=
    s.columns.entries.map fun e => (e.1, { e.2 with observations := 0 }, e.2.counter)
  s.label = other.label && s.counter = other.counter && shown s = shown other

/-- Both schemas give the same header. -/
def sameColumns (s other : LabelSchema) : Bool :=
  s.columns.entries.map (fun e => (e.1, e.2.dataType, e.2.multiValue)) =
    other.columns.entries.map (fun e => (e.1, e.2.dataType, e.2.multiValue))

/-! ## JSON -/

def columnJson (s : LabelSchema) (name : String) (c : Column) : Json :=
  .obj [("property", .str name), ("dataType", .str c.dataType.name),
    ("isMultiValue", .bool c.multiValue), ("isNullable", .bool (s.isNullable c)),
    ("allTypes", .strings (c.types.toList.map DataType.name))]

def toJson (s : LabelSchema) : Json :=
  .obj [("label", s.label.toJson),
    ("properties", .arr (s.columns.entries.map fun e => s.columnJson e.1 e.2))]

def decodeType : Decode DataType := .word (DataType.all.map fun t => (t.name, t))

def decodeColumn : Decode (String × Column) := fun depth v => do
  let (depth, slots) ← Decode.slots
    [["property"], ["dataType"], ["isMultiValue"], ["isNullable"], ["allTypes"]] depth v
  match slots with
  | [name, dataType, multiValue, nullable, types] =>
    some (← Decode.required .string depth name,
      { dataType := ← Decode.required decodeType depth dataType
        multiValue := ← Decode.required .bool depth multiValue
        markedNullable := ← Decode.required .bool depth nullable
        types := .ofList (← Decode.required (.list decodeType) depth types) })
  | _ => none

/-- The schema of columns that were read; a later column of a name replaces an earlier one. -/
def ofColumns (label : Label) (columns : List (String × Column)) : LabelSchema where
  label := label
  columns := columns.foldl (fun cs e => cs.alter e.1 fun _ => e.2) ∅

/-- Reads a schema. Nothing counts as observed in it. -/
def decode : Decode LabelSchema := fun depth v => do
  let (depth, slots) ← Decode.slots [["label"], ["properties"]] depth v
  match slots with
  | [label, properties] =>
    some (ofColumns (← Decode.required Label.decode depth label)
      (← Decode.withDefault (.list decodeColumn) [] depth properties))
  | _ => none

end LabelSchema

end GraphExport
