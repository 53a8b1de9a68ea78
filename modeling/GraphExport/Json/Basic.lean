import GraphExport.Data.SortedMap
import GraphExport.Decimal.Layout

/-!
# GraphExport.Json.Basic

JSON values. Whole numbers and binary64 numbers are kept apart, as are `1` and `1.0` in a text. The
fields of an object are listed in the order in which they are written.
-/

namespace GraphExport

inductive Json where
  | null
  | bool (b : Bool)
  | int (n : Int)
  | float (x : Binary64)
  | str (s : String)
  | arr (items : List Json)
  | obj (fields : List (String × Json))
  deriving BEq, Inhabited

abbrev PropertyMap := SortedMap String Json

namespace Json

def isNull : Json → Bool
  | .null => true
  | _ => false

def isArray : Json → Bool
  | .arr _ => true
  | _ => false

def kindName : Json → String
  | .null => "null"
  | .bool _ => "boolean"
  | .int _ | .float _ => "number"
  | .str _ => "string"
  | .arr _ => "list"
  | .obj _ => "map"

/-- The object of a property map; its keys come out sorted. -/
def ofMap (m : PropertyMap) : Json := .obj m.entries

def strings (l : List String) : Json := .arr (l.map .str)

end Json

end GraphExport
