/-!
# GraphExport.Failure

What can go wrong, by cause. A failure carries its cause and the contexts added on its way out;
the outermost context is what a user reads first.
-/

namespace GraphExport

/-- Settings that cannot work together. -/
inductive ConfigFault where
  | noWorkers
  | windowWidth (width : Int)
  | zeroLimit
  | zeroEstimate
  | nodeFilterStrategy
  | edgeFilterStrategy
  | filterNeedsStructure
  | endpointsNeedStructure
  deriving DecidableEq

def ConfigFault.text : ConfigFault → String
  | .noWorkers => "concurrency must be at least 1"
  | .windowWidth w => "range size must be positive or -1, got " ++ toString w
  | .zeroLimit => "limit must be greater than 0"
  | .zeroEstimate => "approximate counts must be greater than 0"
  | .nodeFilterStrategy => "node filter must use the node label strategy"
  | .edgeFilterStrategy => "edge filter must use an edge label strategy"
  | .filterNeedsStructure => "label filters require structured query output"
  | .endpointsNeedStructure => "edge and vertex labels require structured query output"

inductive Defect where
  | missing (key : String)
  | missingToken (key : String)
  | endpointWithoutId
  | notAnEdge
  | propertiesNotMap (found : String)
  deriving DecidableEq

def Defect.text : Defect → String
  | .missing key => "missing " ++ key
  | .missingToken key => "missing " ++ key ++ " token"
  | .endpointWithoutId => "endpoint without id"
  | .notAnEdge => "not an edge"
  | .propertiesNotMap found => "properties must be a map, found " ++ found

inductive Cause where
  /-- Settings that cannot work together. -/
  | config (fault : ConfigFault)
  /-- An element, named by its id, lacks a part or has the wrong shape. -/
  | malformed (id : String) (defect : Defect)
  /-- A query gave a row that is no map. -/
  | unexpectedRow (found : String)
  /-- The source cannot answer the query. -/
  | unsupported (query : String)
  /-- A file operation failed. -/
  | io
  /-- A text is not the JSON that was asked for. -/
  | json
  /-- The source has no element count. -/
  | countUnavailable
  /-- A row was written to a file that is not open. -/
  | writerClosed (path : String)
  /-- The pool writes no output of this kind. -/
  | noWriters (kind : String)
  /-- All file handles are in use by others, so the step has to wait. -/
  | handlesBusy
  deriving DecidableEq

/-- The cause in words; the words for file and JSON failures are the system's own. -/
def Cause.text? : Cause → Option String
  | .config fault => some ("Configuration error: " ++ fault.text)
  | .malformed id defect => some ("Malformed element " ++ id ++ ": " ++ defect.text)
  | .unexpectedRow found => some ("Unexpected result value: Expected map, found " ++ found)
  | .unsupported query => some ("Unsupported query '" ++ query ++ "'")
  | .countUnavailable => some "count unavailable"
  | .writerClosed path => some ("Writer for " ++ path ++ " is not open")
  | .noWriters kind => some ("No " ++ kind ++ " writers in this pool")
  | .handlesBusy => some "All file handles are in use"
  | .io | .json => none

/-- A cause with the contexts added to it, the outermost first. -/
structure Failure where
  cause : Cause
  context : List String := []
  deriving DecidableEq

namespace Failure

instance : Coe Cause Failure := ⟨fun c => ⟨c, []⟩⟩

def within (text : String) (f : Failure) : Failure := { f with context := text :: f.context }

/-- The outermost context, or else the cause in words. -/
def message? (f : Failure) : Option String :=
  match f.context with
  | text :: _ => some text
  | [] => f.cause.text?

/-- All contexts and the cause, the outermost first. -/
def report (f : Failure) : String := ": ".intercalate (f.context ++ f.cause.text?.toList)

def isElementLocal (f : Failure) : Bool :=
  match f.cause with
  | .malformed _ _ => true
  | _ => false

/-- A disk failure stops a job; anything else costs at most the query at hand. -/
def isFatal (f : Failure) : Bool := f.cause = .io

end Failure

def within {α : Type} (text : String) (r : Except Failure α) : Except Failure α :=
  r.mapError (Failure.within text)

theorem eq_ok_of_toOption {ε α : Type} {r : Except ε α} {a : α} (h : r.toOption = some a) :
    r = .ok a := by
  cases r with
  | error e => cases h
  | ok b => exact congrArg Except.ok (Option.some.inj h)

section Results

variable {α β : Type} {x : Except Failure α} {f : Failure}

theorem within_ok {context : String} {a : α} (h : within context x = .ok a) : x = .ok a := by
  cases x with
  | error f => cases h
  | ok b => exact h

theorem map_eq_ok {g : α → β} {b : β} (h : x.map g = .ok b) : ∃ a, x = .ok a ∧ g a = b := by
  cases x with
  | error f => cases h
  | ok a => exact ⟨a, rfl, Except.ok.inj h⟩

theorem map_eq_error {g : α → β} (h : x.map g = .error f) : x = .error f := by
  cases x with
  | error f' => exact congrArg Except.error (Except.error.inj h)
  | ok a => cases h

theorem bind_eq_ok {g : α → Except Failure β} {b : β} (h : x >>= g = .ok b) :
    ∃ a, x = .ok a ∧ g a = .ok b := by
  cases x with
  | error f => cases h
  | ok a => exact ⟨a, rfl, h⟩

theorem bind_eq_error {g : α → Except Failure β} (h : x >>= g = .error f) :
    x = .error f ∨ ∃ a, x = .ok a ∧ g a = .error f := by
  cases x with
  | error f' => exact .inl (congrArg Except.error (Except.error.inj h))
  | ok a => exact .inr ⟨a, rfl, h⟩

end Results

end GraphExport
