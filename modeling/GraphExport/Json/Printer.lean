import GraphExport.Json.Basic

/-!
# GraphExport.Json.Printer

JSON text of a value: `compact` on one line without blanks, `pretty` with two blanks of indent for
each level. Both keep the order of the fields.
-/

namespace GraphExport.Json

/-- The escape of a character inside a string literal; most characters stand for themselves. -/
def escapeChar (c : Char) : List Char :=
  if c = '"' then ['\\', '"']
  else if c = '\\' then ['\\', '\\']
  else if c = '\x08' then ['\\', 'b']
  else if c = '\x0c' then ['\\', 'f']
  else if c = '\n' then ['\\', 'n']
  else if c = '\r' then ['\\', 'r']
  else if c = '\t' then ['\\', 't']
  else if c.toNat < 0x20 then
    ['\\', 'u', '0', '0', Nat.digitChar (c.toNat / 16), Nat.digitChar (c.toNat % 16)]
  else [c]

def quote (s : String) : String :=
  String.ofList ('"' :: (s.toList.flatMap escapeChar ++ ['"']))

def scalarText : Json → String
  | .bool true => "true"
  | .bool false => "false"
  | .int n => toString n
  | .float x => String.ofList x.text
  | .str s => quote s
  | _ => "null"

mutual

def compact : Json → String
  | .arr items => "[" ++ compactItems items ++ "]"
  | .obj fields => "\x7b" ++ compactFields fields ++ "\x7d"
  | v => scalarText v

def compactItems : List Json → String
  | [] => ""
  | [v] => compact v
  | v :: w :: rest => compact v ++ "," ++ compactItems (w :: rest)

def compactFields : List (String × Json) → String
  | [] => ""
  | [(k, v)] => quote k ++ ":" ++ compact v
  | (k, v) :: f :: rest => quote k ++ ":" ++ compact v ++ "," ++ compactFields (f :: rest)

end

/-- The line break and indent of a nesting level. -/
def newline (level : Nat) : String :=
  String.ofList ('\n' :: List.replicate (2 * level) ' ')

mutual

/-- The text of a value over several lines, at a nesting level. -/
def prettyAt (level : Nat) : Json → String
  | .arr [] => "[]"
  | .arr (v :: rest) => "[" ++ prettyItems (level + 1) (v :: rest) ++ newline level ++ "]"
  | .obj [] => "\x7b\x7d"
  | .obj (f :: rest) => "\x7b" ++ prettyFields (level + 1) (f :: rest) ++ newline level ++ "\x7d"
  | v => scalarText v

def prettyItems (level : Nat) : List Json → String
  | [] => ""
  | [v] => newline level ++ prettyAt level v
  | v :: w :: rest =>
    newline level ++ prettyAt level v ++ "," ++ prettyItems level (w :: rest)

def prettyFields (level : Nat) : List (String × Json) → String
  | [] => ""
  | [(k, v)] => newline level ++ quote k ++ ": " ++ prettyAt level v
  | (k, v) :: f :: rest =>
    newline level ++ quote k ++ ": " ++ prettyAt level v ++ "," ++ prettyFields level (f :: rest)

end

def pretty (v : Json) : String := prettyAt 0 v

end GraphExport.Json
