import GraphExport.Json.Decode
import GraphExport.Label.Basic

/-!
# GraphExport.Label.Json

The JSON form of labels in schema files: a string for a single tag, an object where there are end
points, a list of tags otherwise.
-/

namespace GraphExport.Label

def toJson (l : Label) : Json :=
  if l.hasEndpoints then
    .obj [("~label", .str l.text), ("~fromLabels", .strings l.source.tags),
      ("~toLabels", .strings l.target.tags)]
  else
    match l.own.tags with
    | [tag] => .str tag
    | tags => .strings tags

/-- A label with end points, as an object. -/
def decodeEdge : Decode Label := fun depth v => do
  let (depth, slots) ← Decode.namedSlots [["~label"], ["~fromLabels"], ["~toLabels"]] depth v
  match slots with
  | [label, source, target] =>
    some (withEndpoints (← Decode.required .string depth label)
      (← Decode.required (.list .string) depth source)
      (← Decode.required (.list .string) depth target))
  | _ => none

def decode : Decode Label :=
  .firstOf [fun d v => (Decode.string d v).map single,
    fun d v => (Decode.list .string d v).map ofTags, decodeEdge]

end GraphExport.Label
