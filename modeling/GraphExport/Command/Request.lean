import GraphExport.Command.Arguments
import GraphExport.Job.Config
import GraphExport.Text.Number

/-!
# GraphExport.Command.Request

What a command line asks for: help, or a job with its inputs and settings.
-/

namespace GraphExport

structure JobOrder where
  /-- What was set, the latest first. -/
  seen : List Setting := []
  here : Path
  input : Route := default
  config : Config := { dir := default }
  clean : Bool := false
  queries : Route := default
  structured : Bool := false
  split : Bool := false
  deriving DecidableEq

inductive Request where
  | help
  | job (verb : Verb) (order : JobOrder)
  deriving DecidableEq

namespace JobOrder

/-- Reads a path, as seen from a directory. -/
def route? (here : Path) (s : String) : Option Route :=
  if s = "" then none else some (.ofText here s)

def format? : String → Option Format
  | "csv" => some .csv
  | "json" => some .json
  | _ => none

/-- Whether the schema is found in a pass of its own. -/
def twoPass? : String → Option Bool
  | "single-pass" => some false
  | "two-pass" => some true
  | _ => none

def strategy? : String → Option LabelStrategy
  | "node-labels-only" => some .node
  | "edge-labels-only" => some .edge
  | "edge-and-vertex-labels" => some .edgeWithEndpoints
  | _ => none

def windows (o : JobOrder) (f : WindowSettings → WindowSettings) : JobOrder :=
  { o with config := { o.config with windows := f o.config.windows } }

def want (text : String) (f : LabelFilter) : LabelFilter :=
  .ofLabels f.strategy (f.labels ++ [Label.parse text])

/-- The order with a setting, unless its value is not of the right form. -/
def set? (o : JobOrder) (s : Setting) (value : String) : Option JobOrder :=
  match s with
  | .input => (route? o.here value).map fun p => { o with input := p }
  | .output => (route? o.here value).map fun p => { o with config := { o.config with dir := p } }
  | .format => (format? value).map fun f => { o with config := { o.config with format := f } }
  | .workers =>
    (Text.unsignedWord? value).map fun n => { o with config := { o.config with workers := n } }
  | .width => (Text.signedWord? value).map fun n => o.windows ({ · with width := n })
  | .skip => (Text.unsignedWord? value).map fun n => o.windows ({ · with skip := n })
  | .limit => (Text.unsignedWord? value).map fun n => o.windows ({ · with limit := some n })
  | .approxNodes =>
    (Text.unsignedWord? value).map fun n => o.windows ({ · with approxNodes := some n })
  | .approxEdges =>
    (Text.unsignedWord? value).map fun n => o.windows ({ · with approxEdges := some n })
  | .maxHandles =>
    (Text.unsignedWord? value).map fun n => { o with config := { o.config with maxHandles := n } }
  | .schemaMode =>
    (twoPass? value).map fun b => { o with config := { o.config with twoPass := b } }
  | .nodeLabel =>
    some { o with config := { o.config with nodeFilter := want value o.config.nodeFilter } }
  | .edgeLabel =>
    some { o with config := { o.config with edgeFilter := want value o.config.edgeFilter } }
  | .edgeStrategy =>
    (strategy? value).map fun strategy =>
      let edgeFilter := .ofLabels strategy o.config.edgeFilter.labels
      { o with config := { o.config with edgeFilter } }
  | .clean => some { o with clean := true }
  | .queries => (route? o.here value).map fun p => { o with queries := p }
  | .structured => some { o with structured := true }
  | .split => some { o with split := true }
  | .verbose | .help => some o

def take (o : JobOrder) (g : Given) : Except UsageFault JobOrder :=
  if o.seen.contains g.setting && !g.setting.isRepeatable then .error (.repeated g.setting)
  else
    match o.set? g.setting g.value with
    | none => .error (.badValue g.setting g.value)
    | some o => .ok { o with seen := g.setting :: o.seen }

/-- Nothing that the command needs is missing. -/
def check (verb : Verb) (o : JobOrder) : Except UsageFault JobOrder :=
  match (Setting.required verb).find? fun s => !o.seen.contains s with
  | some s => .error (.missing s)
  | none => .ok o

end JobOrder

namespace Request

/-- The request that a command makes with its settings. -/
def ofGiven (verb : Verb) : List Given → JobOrder → Except UsageFault Request
  | [], o => (o.check verb).map (.job verb)
  | g :: rest, o =>
    if g.setting = .help then .ok .help
    else
      match o.take g with
      | .error fault => .error fault
      | .ok o => ofGiven verb rest o

/-- The request for help on a command. -/
def ofHelpArguments : List String → Except UsageFault Request
  | [] => .ok .help
  | [word] =>
    if word = "help" || Verb.all.any (·.word = word) then .ok .help
    else .error (.unknownCommand word)
  | word :: other :: _ =>
    if word = "help" || Verb.all.any (·.word = word) then .error (.unknownCommand other)
    else .error (.unknownCommand word)

def ofArguments (here : Path) : List String → Except UsageFault Request
  | [] => .error .noCommand
  | "--" :: _ => .error .noCommand
  | arg :: args =>
    if Arguments.isDashed arg.toList then
      match Arguments.readDashed Setting.general arg.toList with
      | .error fault => .error fault
      | .ok cluster =>
        if Arguments.callsForHelp cluster.given then .ok .help else ofArguments here args
    else if arg = "help" then ofHelpArguments args
    else
      match Verb.all.find? (·.word = arg) with
      | none => .error (.unknownCommand arg)
      | some verb =>
        match Arguments.read (Setting.known verb) args with
        | .error fault => .error fault
        | .ok given => ofGiven verb given { here }

end Request

end GraphExport
