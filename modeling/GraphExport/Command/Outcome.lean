import GraphExport.Command.Request
import GraphExport.Job.Load
import GraphExport.Job.QueryExport

/-!
# GraphExport.Command.Outcome

What a command line does to the files, and what it says: its exit code, its output, its complaint.
-/

namespace GraphExport

/-- The account of a finished job. -/
structure Report where
  dir : String
  format : Format
  summary : Summary

namespace Report

/-- A line of the account, its value in a column of its own. -/
def line (title value : String) : String :=
  title ++ "".pushn ' ' (20 - title.length) ++ value ++ "\n"

/-- A number of hundredths, with a point. -/
def hundredths (n : Nat) : String :=
  toString (n / 100) ++ "." ++ toString (n / 10 % 10) ++ toString (n % 10)

/-- The account in words; the job took so many hundredths of a second. -/
def text (r : Report) (time : Nat) : String :=
  let s := r.summary
  "\n=== Summary ===\n" ++ line "Export time:" (hundredths time ++ "s") ++
    line "Output directory:" r.dir ++ line "Format:" r.format.description ++
    line "Node labels:" (toString s.schema.nodes.size) ++
    line "Edge labels:" (toString s.schema.edges.size) ++
    (if s.schema.results.isEmpty then "" else
      line "Query results:" (toString s.schema.results.size)) ++
    line "Max open files:" (toString s.maxOpenFiles) ++ "\n" ++ s.stats.text

end Report

inductive Outcome where
  | helped
  | misused (fault : UsageFault)
  | failed (failure : Failure)
  | finished (report : Report)

namespace Outcome

def exitCode : Outcome → Nat
  | .helped | .finished _ => 0
  | .failed _ => 1
  | .misused _ => 2

def usage : String := "Usage: graph-export [OPTIONS] <COMMAND>\n"

/-- A line for an entry, and a line with more indent for what it means. -/
def helpLines (entry meaning : String) : String :=
  "  " ++ entry ++ "\n          " ++ meaning ++ "\n"

def commandLine (verb : Verb) : String := helpLines verb.word verb.summary

def settingLine (s : Setting) : String :=
  let letter := (s.letter?.map fun c => "-" ++ c.toString ++ ", ").getD "    "
  let value := if s.takesValue then " <" ++ s.word.toUpper ++ ">" else ""
  helpLines (letter ++ "--" ++ s.word ++ value) s.summary

def help : String :=
  "Export a property graph into per-label CSV or line-JSON files\n\n" ++ usage ++ "\nCommands:\n" ++
    String.join (Verb.all.map commandLine) ++ "\nOptions:\n" ++
    String.join ((Setting.known .queries).map settingLine)

/-- What goes to standard output. -/
def output (time : Nat) : Outcome → String
  | .helped => help
  | .finished report => report.text time
  | .misused _ | .failed _ => ""

/-- What goes to standard error. -/
def complaint : Outcome → String
  | .misused fault => "error: " ++ fault.text ++ "\n\n" ++ usage
  | .failed f => "Error: " ++ f.report ++ "\n"
  | .helped | .finished _ => ""

end Outcome

namespace JobOrder

def removeOutput (o : JobOrder) (t : FileTree) : Except Failure Unit × FileTree :=
  let dir := o.config.dir
  let failure : Failure := ⟨.io, ["Failed to clean output directory: " ++ dir.text]⟩
  match t.reach? dir with
  | none => (.ok (), t)
  | some (_, .file _) => (.error failure, t)
  | some (p, .directory) =>
    match t.removeDirectory dir p with
    | (true, t) => (.ok (), t)
    | (false, t) => (.error failure, t)

def prepare (unzip : Decompressor) (o : JobOrder) (t : FileTree) :
    Except Failure Graph × FileTree :=
  let (cleaned, t) := if o.clean then o.removeOutput t else (.ok (), t)
  match cleaned with
  | .error f => (.error f, t)
  | .ok _ => (Graph.load unzip o.input t, t)

def run (unzip : Decompressor) (verb : Verb) (o : JobOrder) (t : FileTree) :
    Except Failure Summary × FileTree :=
  match o.prepare unzip t with
  | (.error f, t) => (.error f, t)
  | (.ok graph, t) =>
    match verb with
    | .graph => FullExport.run graph.client o.config t
    | .queries =>
      match NamedQueries.load o.queries t with
      | .error f => (.error f, t)
      | .ok groups => QueryExport.run graph.client o.config groups o.structured o.split t

end JobOrder

namespace Request

def run (unzip : Decompressor) (r : Request) (t : FileTree) : Outcome × FileTree :=
  match r with
  | .help => (.helped, t)
  | .job verb o =>
    match o.run unzip verb t with
    | (.error f, t) => (.failed f, t)
    | (.ok summary, t) =>
      let dir := ((t.find? o.config.dir).map (·.text)).getD o.config.dir.text
      (.finished ⟨dir, o.config.format, summary⟩, t)

end Request

/-- What a command line does in the working directory `here`. -/
def runCommand (unzip : Decompressor) (here : Path) (args : List String) (t : FileTree) :
    Outcome × FileTree :=
  match Request.ofArguments here args with
  | .error fault => (.misused fault, t)
  | .ok r => r.run unzip t

end GraphExport
