/-!
# GraphExport.Csv

Records as lines of CSV text. A field is quoted when it holds a comma, a quote or a line break, and
a quote inside a field is written twice. The reader takes more than is written: records end at a
line feed or a carriage return and may differ in length, empty lines are no records, and a quote
opens a quoted part only at the start of a field.
-/

namespace GraphExport.Csv

/-! ## Writing -/

def needsQuotes (s : List Char) : Bool :=
  s.any fun c => c = ',' || c = '"' || c = '\n' || c = '\r'

def doubleQuotes (s : List Char) : List Char :=
  s.flatMap fun c => if c = '"' then ['"', '"'] else [c]

def field (s : List Char) : List Char :=
  if needsQuotes s then '"' :: (doubleQuotes s ++ ['"']) else s

/-- The fields with commas between them. -/
def fields : List (List Char) → List Char
  | [] => []
  | [s] => field s
  | s :: rest => field s ++ ',' :: fields rest

/-- A record as a line. Where the fields take no characters at all a pair of quotes stands for them,
so that the line is not taken for an empty one. -/
def line (record : List String) : String :=
  match fields (record.map String.toList) with
  | [] => "\"\"\n"
  | text => String.ofList (text ++ ['\n'])

/-! ## Reading -/

inductive ReadState where
  | recordStart
  | fieldStart
  | plain
  | quoted
  /-- After a quote inside a quoted part: the end of the part, or half of a doubled quote. -/
  | quoteSeen
  deriving DecidableEq

/-- The text so far, last things first. -/
structure ReadSoFar where
  records : List (List String) := []
  fields : List String := []
  chars : List Char := []

namespace ReadSoFar

def push (r : ReadSoFar) (c : Char) : ReadSoFar := { r with chars := c :: r.chars }

def endField (r : ReadSoFar) : ReadSoFar :=
  { r with fields := String.ofList r.chars.reverse :: r.fields, chars := [] }

def endRecord (r : ReadSoFar) : ReadSoFar :=
  let r := r.endField
  { records := r.fields.reverse :: r.records }

end ReadSoFar

def isLineEnd (c : Char) : Bool := c = '\n' || c = '\r'

def readChar (state : ReadState) (r : ReadSoFar) (c : Char) : ReadState × ReadSoFar :=
  match state with
  | .recordStart =>
    if isLineEnd c then (.recordStart, r)
    else if c = '"' then (.quoted, r)
    else if c = ',' then (.fieldStart, r.endField)
    else (.plain, r.push c)
  | .fieldStart =>
    if isLineEnd c then (.recordStart, r.endRecord)
    else if c = '"' then (.quoted, r)
    else if c = ',' then (.fieldStart, r.endField)
    else (.plain, r.push c)
  | .plain =>
    if isLineEnd c then (.recordStart, r.endRecord)
    else if c = ',' then (.fieldStart, r.endField)
    else (.plain, r.push c)
  | .quoted => if c = '"' then (.quoteSeen, r) else (.quoted, r.push c)
  | .quoteSeen =>
    if isLineEnd c then (.recordStart, r.endRecord)
    else if c = '"' then (.quoted, r.push c)
    else if c = ',' then (.fieldStart, r.endField)
    else (.plain, r.push c)

def readChars : ReadState → ReadSoFar → List Char → ReadState × ReadSoFar
  | state, r, [] => (state, r)
  | state, r, c :: rest => let (state, r) := readChar state r c; readChars state r rest

/-- A byte order mark at the very start is no part of the text. -/
def dropMark : List Char → List Char
  | '\uFEFF' :: rest => rest
  | s => s

/-- The records of a text. The end of the text ends a record too. -/
def records (s : List Char) : List (List String) :=
  let (state, r) := readChars .recordStart {} (dropMark s)
  let r := if state = .recordStart then r else r.endRecord
  r.records.reverse

end GraphExport.Csv
