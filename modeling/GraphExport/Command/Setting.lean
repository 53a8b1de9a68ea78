/-!
# GraphExport.Command.Setting

The commands of the program and the settings that may follow a command, by their spelling.
-/

namespace GraphExport

inductive Verb where
  | graph
  | queries
  deriving DecidableEq

namespace Verb

def all : List Verb := [.graph, .queries]

def word : Verb → String
  | .graph => "export-pg"
  | .queries => "export-pg-from-queries"

def summary : Verb → String
  | .graph => "Export every node and edge"
  | .queries => "Export the results of named queries"

end Verb

inductive Setting where
  | input
  | output
  | format
  | workers
  | width
  | skip
  | limit
  | approxNodes
  | approxEdges
  | maxHandles
  | schemaMode
  | nodeLabel
  | edgeLabel
  | edgeStrategy
  | clean
  | queries
  | structured
  | split
  | verbose
  | help
  deriving DecidableEq

namespace Setting

/-- The word for a setting, as it follows two dashes. -/
def word : Setting → String
  | .input => "input"
  | .output => "output"
  | .format => "format"
  | .workers => "concurrency"
  | .width => "range-size"
  | .skip => "skip"
  | .limit => "limit"
  | .approxNodes => "approx-node-count"
  | .approxEdges => "approx-edge-count"
  | .maxHandles => "max-file-handles"
  | .schemaMode => "schema-mode"
  | .nodeLabel => "node-label"
  | .edgeLabel => "edge-label"
  | .edgeStrategy => "edge-label-strategy"
  | .clean => "clean"
  | .queries => "queries"
  | .structured => "structured-output"
  | .split => "split-queries"
  | .verbose => "verbose"
  | .help => "help"

/-- The letter for a setting, as it follows one dash. -/
def letter? : Setting → Option Char
  | .input => some 'i'
  | .output => some 'o'
  | .queries => some 'q'
  | .verbose => some 'v'
  | .help => some 'h'
  | _ => none

def takesValue : Setting → Bool
  | .clean | .structured | .split | .verbose | .help => false
  | _ => true

/-- What follows is the value whatever it looks like, since it may be a negative number. -/
def takesDashes (s : Setting) : Bool := s = .width

def isRepeatable : Setting → Bool
  | .nodeLabel | .edgeLabel | .verbose => true
  | _ => false

def general : List Setting := [.verbose, .help]

def jobs : List Setting :=
  [.input, .output, .format, .workers, .width, .skip, .limit, .approxNodes, .approxEdges,
    .maxHandles, .schemaMode, .nodeLabel, .edgeLabel, .edgeStrategy, .clean]

def known : Verb → List Setting
  | .graph => jobs ++ general
  | .queries => jobs ++ [.queries, .structured, .split] ++ general

def required : Verb → List Setting
  | .graph => [.input, .output]
  | .queries => [.input, .output, .queries]

def summary : Setting → String
  | .input => "Graph dump to export (.json or .json.bz2)"
  | .output => "Output directory for generated files"
  | .format => "Output file format: csv, json"
  | .workers => "Number of export workers"
  | .width => "Elements per range (-1 derives it from the element count)"
  | .skip => "Skip this many elements of each kind"
  | .limit => "Export at most this many elements of each kind"
  | .approxNodes => "Estimated node count, used instead of a count query"
  | .approxEdges => "Estimated edge count, used instead of a count query"
  | .maxHandles => "Maximum number of label files open at once (0 = unlimited)"
  | .schemaMode => "Discover schemas while writing or first: single-pass, two-pass"
  | .nodeLabel => "Only export nodes with this label (repeatable)"
  | .edgeLabel => "Only export edges with this label (repeatable)"
  | .edgeStrategy => "How edges are labeled: edge-labels-only, edge-and-vertex-labels"
  | .clean => "Remove the output directory before exporting"
  | .queries => "JSON file of named queries"
  | .structured => "Write element-shaped rows to node and edge files"
  | .split => "Split each g.V()/g.E() query into one query per range"
  | .verbose => "Verbosity level (-v, -vv, -vvv)"
  | .help => "Print help"

end Setting

end GraphExport
