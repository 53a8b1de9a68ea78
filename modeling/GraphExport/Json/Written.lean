import GraphExport.Json.Basic

/-!
# GraphExport.Json.Written

JSON as it is written: the tree that the grammar gives to a text. Repeated fields are all there,
and numbers and strings that stand for no value are marked as such, so that each reader of the tree
decides what of it matters.
-/

namespace GraphExport

/-- A value as written. A number beyond binary64 has no value, nor has a string with a lone
surrogate. -/
inductive Written where
  | null
  | bool (b : Bool)
  | int (n : Int)
  | float (x : Option Binary64)
  | str (s : Option String)
  | arr (items : List Written)
  | obj (fields : List (Option String × Written))
  deriving Inhabited

namespace Written

/-- JSON allows four blanks between tokens. -/
def isSpace (c : Char) : Bool := c = ' ' || c = '\n' || c = '\t' || c = '\r'

def skipSpace (s : List Char) : List Char := s.dropWhile isSpace

/-! ## Numbers -/

def digitValue (c : Char) : Nat := c.toNat - '0'.toNat

/-- The number that decimal digits stand for. -/
def naturalOf (ds : List Char) : Nat := ds.foldl (fun n c => 10 * n + digitValue c) 0

/-- The whole numbers that are kept as such, those of 64 bits with or without a sign. -/
def fitsWord (n : Int) : Bool := -0x8000000000000000 ≤ n && n < 0x10000000000000000

/-- The digits that a number of 64 bits takes after `n`, and how many it leaves. -/
def takeDigits (n : Nat) : List Char → Nat × Nat
  | [] => (n, 0)
  | c :: rest =>
    let m := 10 * n + digitValue c
    if m < 0x10000000000000000 then takeDigits m rest else (n, rest.length + 1)

/-- The greatest exponent that is read as a number, of 32 bits with a sign. -/
def maxWrittenExponent : Nat := 0x7FFFFFFF

/-- The binary64 of a decimal. Of its digits those count that fit in 64 bits. Digits left out of the
whole part still count for the exponent, while the fraction goes on where the whole part stopped. -/
def floatOf (negative : Bool) (whole fraction exponent : List Char) (exponentNegative : Bool) :
    Option Binary64 :=
  let (digits, wholeLeft) := takeDigits 0 whole
  let (digits, fractionLeft) := takeDigits digits fraction
  let e := naturalOf exponent
  if maxWrittenExponent < e then
    if digits = 0 || exponentNegative then Binary64.ofDecimal negative 0 0 else none
  else
    let point : Int := wholeLeft - (fraction.length - fractionLeft : Nat)
    Binary64.ofDecimal negative digits (if exponentNegative then point - e else point + e)

/-- The value of a number token. A whole number out of range and a negative zero are binary64. -/
def numberOf (negative : Bool) (whole : List Char) (fraction exponent : Option (List Char))
    (exponentNegative : Bool) : Written :=
  let n : Int := if negative then -(naturalOf whole : Int) else naturalOf whole
  if fraction.isNone && exponent.isNone && fitsWord n && !(negative && n = 0) then .int n
  else .float (floatOf negative whole (fraction.getD []) (exponent.getD []) exponentNegative)

/-- One or more digits. -/
def readDigits (s : List Char) : Option (List Char × List Char) :=
  match s.takeWhile Char.isDigit with
  | [] => none
  | ds => some (ds, s.dropWhile Char.isDigit)

/-- Digits without a leading zero, or a zero. -/
def readWhole : List Char → Option (List Char × List Char)
  | '0' :: rest => some (['0'], rest)
  | s => readDigits s

def readExponent : List Char → Option (List Char × Bool × List Char)
  | '-' :: rest => (readDigits rest).map fun (ds, s) => (ds, true, s)
  | '+' :: rest => (readDigits rest).map fun (ds, s) => (ds, false, s)
  | s => (readDigits s).map fun (ds, s) => (ds, false, s)

def readNumber (s : List Char) : Option (Written × List Char) := do
  let (negative, s) := match s with
    | '-' :: rest => (true, rest)
    | _ => (false, s)
  let (whole, s) ← readWhole s
  let (fraction, s) ← match s with
    | '.' :: rest => (readDigits rest).map fun (ds, s) => (some ds, s)
    | _ => some (none, s)
  let (exponent, exponentNegative, s) ← match s with
    | 'e' :: rest | 'E' :: rest => (readExponent rest).map fun (ds, neg, s) => (some ds, neg, s)
    | _ => some (none, false, s)
  some (numberOf negative whole fraction exponent exponentNegative, s)

/-! ## Strings -/

def hexValue (c : Char) : Option Nat :=
  if '0' ≤ c ∧ c ≤ '9' then some (c.toNat - '0'.toNat)
  else if 'a' ≤ c ∧ c ≤ 'f' then some (c.toNat - 'a'.toNat + 10)
  else if 'A' ≤ c ∧ c ≤ 'F' then some (c.toNat - 'A'.toNat + 10)
  else none

/-- A UTF-16 unit of four hexadecimal digits. -/
def hexUnit (a b c d : Char) : Option Nat := do
  some (((← hexValue a) * 16 + (← hexValue b)) * 256 + (← hexValue c) * 16 + (← hexValue d))

/-- A piece of a string literal: a character or a UTF-16 unit. -/
inductive Piece where
  | char (c : Char)
  | unit (n : Nat)

def simpleEscape : Char → Option Char
  | '"' => some '"'
  | '\\' => some '\\'
  | '/' => some '/'
  | 'b' => some '\x08'
  | 'f' => some '\x0c'
  | 'n' => some '\n'
  | 'r' => some '\r'
  | 't' => some '\t'
  | _ => none

/-- The pieces up to the closing quote. A control character may not stand in a literal. -/
def readPieces : List Char → Option (List Piece × List Char)
  | [] => none
  | '"' :: rest => some ([], rest)
  | '\\' :: 'u' :: a :: b :: c :: d :: rest => do
    let n ← hexUnit a b c d
    let (ps, s) ← readPieces rest
    some (.unit n :: ps, s)
  | '\\' :: c :: rest => do
    let c ← simpleEscape c
    let (ps, s) ← readPieces rest
    some (.char c :: ps, s)
  | c :: rest =>
    if c = '\\' || c.toNat < 0x20 then none
    else (readPieces rest).map fun (ps, s) => (.char c :: ps, s)

def isHighSurrogate (n : Nat) : Bool := 0xD800 ≤ n && n < 0xDC00

def isLowSurrogate (n : Nat) : Bool := 0xDC00 ≤ n && n < 0xE000

/-- The characters that pieces stand for. Surrogates come in pairs or there is no value. -/
def pieceChars : List Piece → Option (List Char)
  | [] => some []
  | .char c :: rest => (pieceChars rest).map (c :: ·)
  | .unit n :: .unit m :: rest =>
    if isHighSurrogate n then
      if isLowSurrogate m then
        (pieceChars rest).map (Char.ofNat (0x10000 + (n - 0xD800) * 0x400 + (m - 0xDC00)) :: ·)
      else none
    else if isLowSurrogate n then none
    else (pieceChars (.unit m :: rest)).map (Char.ofNat n :: ·)
  | .unit n :: rest =>
    if isHighSurrogate n || isLowSurrogate n then none
    else (pieceChars rest).map (Char.ofNat n :: ·)

/-- The rest of a string literal, after its opening quote. -/
def readString (s : List Char) : Option (Option String × List Char) :=
  (readPieces s).map fun (ps, rest) => ((pieceChars ps).map String.ofList, rest)

/-! ## Values -/

mutual

/-- A value and what follows it. The fuel bounds the number of tokens. -/
def readValue : Nat → List Char → Option (Written × List Char)
  | 0, _ => none
  | fuel + 1, s =>
    match skipSpace s with
    | '\x7b' :: rest =>
      match skipSpace rest with
      | '\x7d' :: rest => some (.obj [], rest)
      | rest => (readFields fuel rest).map fun (fs, s) => (.obj fs, s)
    | '[' :: rest =>
      match skipSpace rest with
      | ']' :: rest => some (.arr [], rest)
      | rest => (readItems fuel rest).map fun (vs, s) => (.arr vs, s)
    | '"' :: rest => (readString rest).map fun (t, s) => (.str t, s)
    | 'n' :: 'u' :: 'l' :: 'l' :: rest => some (.null, rest)
    | 't' :: 'r' :: 'u' :: 'e' :: rest => some (.bool true, rest)
    | 'f' :: 'a' :: 'l' :: 's' :: 'e' :: rest => some (.bool false, rest)
    | s => readNumber s

/-- The items of a list that has some, with its closing bracket. -/
def readItems : Nat → List Char → Option (List Written × List Char)
  | 0, _ => none
  | fuel + 1, s => do
    let (v, s) ← readValue fuel s
    match skipSpace s with
    | ',' :: rest => (readItems fuel rest).map fun (vs, s) => (v :: vs, s)
    | ']' :: rest => some ([v], rest)
    | _ => none

/-- The fields of an object that has some, with its closing brace. -/
def readFields : Nat → List Char → Option (List (Option String × Written) × List Char)
  | 0, _ => none
  | fuel + 1, s => do
    let (k, s) ← match skipSpace s with
      | '"' :: rest => readString rest
      | _ => none
    let s ← match skipSpace s with
      | ':' :: rest => some rest
      | _ => none
    let (v, s) ← readValue fuel s
    match skipSpace s with
    | ',' :: rest => (readFields fuel rest).map fun (fs, s) => ((k, v) :: fs, s)
    | '\x7d' :: rest => some ([(k, v)], rest)
    | _ => none

end

/-- The value that a whole text is the writing of. Each token takes at most two units of fuel. -/
def ofText? (text : String) : Option Written :=
  let s := text.toList
  match readValue (2 * s.length + 2) s with
  | some (v, rest) => if (skipSpace rest).isEmpty then some v else none
  | none => none

/-! ## Values of what is written -/

/-- Containers may be nested this deep. -/
def maxDepth : Nat := 127

mutual

/-- The value of what is written, with objects in key order and a repeated field replaced by its
last occurrence. There is none where containers are nested deeper than `depth` allows. -/
def toJson? (depth : Nat) : Written → Option Json
  | .null => some .null
  | .bool b => some (.bool b)
  | .int n => some (.int n)
  | .float x => x.map .float
  | .str s => s.map .str
  | .arr items =>
    match depth with
    | 0 => none
    | d + 1 => (toJsonItems? d items).map .arr
  | .obj fields =>
    match depth with
    | 0 => none
    | d + 1 => (toJsonFields? d fields).map fun fs => .obj (SortedMap.ofList fs).entries

def toJsonItems? (depth : Nat) : List Written → Option (List Json)
  | [] => some []
  | v :: rest => do some ((← toJson? depth v) :: (← toJsonItems? depth rest))

def toJsonFields? (depth : Nat) :
    List (Option String × Written) → Option (List (String × Json))
  | [] => some []
  | (k, v) :: rest => do some ((← k, ← toJson? depth v) :: (← toJsonFields? depth rest))

end

mutual

/-- The canonical writing of a value. -/
def ofJson : Json → Written
  | .null => .null
  | .bool b => .bool b
  | .int n => .int n
  | .float x => .float (some x)
  | .str s => .str (some s)
  | .arr items => .arr (ofJsonItems items)
  | .obj fields => .obj (ofJsonFields fields)

def ofJsonItems : List Json → List Written
  | [] => []
  | v :: rest => ofJson v :: ofJsonItems rest

def ofJsonFields : List (String × Json) → List (Option String × Written)
  | [] => []
  | (k, v) :: rest => (some k, ofJson v) :: ofJsonFields rest

end

end Written

def Json.ofText? (text : String) : Option Json :=
  (Written.ofText? text).bind (Written.toJson? Written.maxDepth)

end GraphExport
