import GraphExport.Json.Basic
import GraphExport.Text.Classes

/-!
# GraphExport.Schema.DataType

Types of property values, and the widening join by which the values of a column get one type.
-/

namespace GraphExport

inductive DataType where
  | none
  | boolean
  | byte
  | short
  | integer
  | long
  | float
  | double
  | string
  | date
  deriving DecidableEq, Repr, Inhabited

namespace DataType

def all : List DataType :=
  [.none, .boolean, .byte, .short, .integer, .long, .float, .double, .string, .date]

/-- The place in the order of types. Within the integral and within the floating types a wider type
comes later. -/
def rank : DataType → Nat
  | .none => 0
  | .boolean => 1
  | .byte => 2
  | .short => 3
  | .integer => 4
  | .long => 5
  | .float => 6
  | .double => 7
  | .string => 8
  | .date => 9

/-- The name of a type in schema files. -/
def name : DataType → String
  | .none => "None"
  | .boolean => "Boolean"
  | .byte => "Byte"
  | .short => "Short"
  | .integer => "Integer"
  | .long => "Long"
  | .float => "Float"
  | .double => "Double"
  | .string => "String"
  | .date => "Date"

/-- The name of a type in the header of a CSV file. -/
def headerName : DataType → String
  | .none | .string => "String"
  | .boolean => "Bool"
  | .byte => "Byte"
  | .short => "Short"
  | .integer => "Int"
  | .long => "Long"
  | .float => "Float"
  | .double => "Double"
  | .date => "Date"

def isIntegral : DataType → Bool
  | .byte | .short | .integer | .long => true
  | _ => false

def isFloating : DataType → Bool
  | .float | .double => true
  | _ => false

def isNumeric (t : DataType) : Bool := t.isIntegral || t.isFloating

def wider (a b : DataType) : DataType := if a.rank < b.rank then b else a

/-- The narrowest type that has the values of both. -/
def widen (a b : DataType) : DataType :=
  if a = b then a
  else if a = .none then b
  else if b = .none then a
  else if a.isIntegral && b.isIntegral then wider a b
  else if a.isFloating && b.isFloating then wider a b
  else if a.isNumeric && b.isNumeric then .double
  else .string

/-! ## Dates -/

def dropDigits : Nat → List Char → Option (List Char)
  | 0, s => some s
  | n + 1, c :: rest => if Text.isDecimalDigit c then dropDigits n rest else Option.none
  | _ + 1, [] => Option.none

def dropChar (c : Char) : List Char → Option (List Char)
  | d :: rest => if d = c then some rest else Option.none
  | [] => Option.none

/-- Nothing, `Z`, or an offset in hours and minutes with or without a colon. -/
def isZone : List Char → Bool
  | [] => true
  | ['Z'] => true
  | c :: rest =>
    (c = '+' || c = '-') &&
      match dropDigits 2 rest with
      | some (':' :: minutes) => dropDigits 2 minutes = some []
      | some minutes => dropDigits 2 minutes = some []
      | Option.none => false

/-- A fraction of a second, if there is one, and a zone. -/
def isFraction : List Char → Bool
  | '.' :: c :: rest => Text.isDecimalDigit c && isZone (rest.dropWhile Text.isDecimalDigit)
  | s => isZone s

/-- The seconds, if there are any, and a zone. -/
def isSeconds : List Char → Bool
  | ':' :: rest =>
    match dropDigits 2 rest with
    | some rest => isFraction rest
    | Option.none => false
  | s => isZone s

/-- A time of day after the letter `T` or a blank. -/
def isTime : List Char → Bool
  | c :: rest =>
    (c = 'T' || c = ' ') &&
      match (dropDigits 2 rest).bind (dropChar ':') |>.bind (dropDigits 2) with
      | some rest => isSeconds rest
      | Option.none => false
  | [] => true

/-- A date such as `2024-01-31`, alone or with a time of day. -/
def isDate (s : List Char) : Bool :=
  match (dropDigits 4 s).bind (dropChar '-') |>.bind (dropDigits 2) |>.bind (dropChar '-')
    |>.bind (dropDigits 2) with
  | some rest => isTime rest
  | Option.none => false

/-! ## Types of values -/

/-- The type of a whole number: `integer` in 32 bits, else `long`. -/
def ofInt (n : Int) : DataType := if -0x80000000 ≤ n ∧ n < 0x80000000 then .integer else .long

mutual

def ofValue : Json → DataType
  | .null => .none
  | .bool _ => .boolean
  | .int n => ofInt n
  | .float _ => .double
  | .str s => if isDate s.toList then .date else .string
  | .arr items => ofItems .none items
  | .obj _ => .string

/-- The join of a type and the types of values. -/
def ofItems (t : DataType) : List Json → DataType
  | [] => t
  | v :: rest => ofItems (widen t (ofValue v)) rest

end

end DataType

structure TypeSet where
  bits : BitVec 10
  deriving DecidableEq

namespace TypeSet

def empty : TypeSet := ⟨0⟩

instance : EmptyCollection TypeSet := ⟨empty⟩
instance : Inhabited TypeSet := ⟨empty⟩

def insert (s : TypeSet) (t : DataType) : TypeSet := ⟨s.bits ||| BitVec.twoPow 10 t.rank⟩

def contains (s : TypeSet) (t : DataType) : Bool := s.bits.getLsbD t.rank

def toList (s : TypeSet) : List DataType := DataType.all.filter s.contains

def ofList (l : List DataType) : TypeSet := l.foldl insert ∅

end TypeSet

end GraphExport
