import GraphExport.Command.Setting

/-!
# GraphExport.Command.Arguments

Arguments read as settings. A setting is given by its word or its letter; letters may share a dash,
and a value follows its setting as the next argument, after an equals sign, or right after a
letter. Reading ends at a call for help, so a fault counts only if it stands before one.
-/

namespace GraphExport

/-- A setting as given, with the text of its value. -/
structure Given where
  setting : Setting
  value : String := ""
  deriving DecidableEq

inductive UsageFault where
  | noCommand
  | unknownCommand (word : String)
  | unknownArgument (text : String)
  | missingValue (setting : Setting)
  | unexpectedValue (setting : Setting) (value : String)
  | badValue (setting : Setting) (value : String)
  | repeated (setting : Setting)
  | missing (setting : Setting)
  deriving DecidableEq

def UsageFault.text : UsageFault → String
  | .noCommand => "a command is required"
  | .unknownCommand word => "unrecognized command '" ++ word ++ "'"
  | .unknownArgument text => "unexpected argument '" ++ text ++ "' found"
  | .missingValue s => "a value is required for '--" ++ s.word ++ "' but none was supplied"
  | .unexpectedValue s value => "unexpected value '" ++ value ++ "' for '--" ++ s.word ++ "' found"
  | .badValue s value => "invalid value '" ++ value ++ "' for '--" ++ s.word ++ "'"
  | .repeated s => "the argument '--" ++ s.word ++ "' cannot be used multiple times"
  | .missing s => "the argument '--" ++ s.word ++ "' is required"

namespace Arguments

/-- The argument reads as settings. A lone dash does not. -/
def isDashed : List Char → Bool
  | ['-'] => false
  | '-' :: _ => true
  | _ => false

/-- The settings that one argument gives; the last of them may still wait for its value. -/
structure Cluster where
  given : List Given := []
  waiting : Option Setting := none

/-- Reads letters that share a dash. -/
def readLetters (known : List Setting) : List Char → Except UsageFault Cluster
  | [] => .ok {}
  | c :: rest =>
    match known.find? (·.letter? = some c) with
    | none => .error (.unknownArgument ("-" ++ c.toString))
    | some s =>
      if s.takesValue then
        match rest with
        | [] => .ok { waiting := some s }
        | '=' :: value => .ok { given := [⟨s, String.ofList value⟩] }
        | value => .ok { given := [⟨s, String.ofList value⟩] }
      else if s = .help then .ok { given := [⟨s, ""⟩] }
      else (readLetters known rest).map fun r => { r with given := ⟨s, ""⟩ :: r.given }

/-- Reads a word, which an equals sign and a value may follow. -/
def readWord (known : List Setting) (text : List Char) : Except UsageFault Cluster :=
  let word := String.ofList (text.takeWhile (· != '='))
  match known.find? (·.word = word) with
  | none => .error (.unknownArgument ("--" ++ word))
  | some s =>
    match text.dropWhile (· != '=') with
    | [] => if s.takesValue then .ok { waiting := some s } else .ok { given := [⟨s, ""⟩] }
    | _ :: value =>
      if s.takesValue then .ok { given := [⟨s, String.ofList value⟩] }
      else .error (.unexpectedValue s (String.ofList value))

/-- Reads one argument that starts with a dash. -/
def readDashed (known : List Setting) : List Char → Except UsageFault Cluster
  | '-' :: '-' :: text => readWord known text
  | text => readLetters known (text.drop 1)

def callsForHelp (given : List Given) : Bool := given.any (·.setting = .help)

/-- Reads the arguments after a command. Nothing may follow two dashes that stand alone. -/
def read (known : List Setting) : List String → Except UsageFault (List Given)
  | [] => .ok []
  | ["--"] => .ok []
  | "--" :: arg :: _ => .error (.unknownArgument arg)
  | arg :: args =>
    if isDashed arg.toList then
      match readDashed known arg.toList with
      | .error fault => .error fault
      | .ok ⟨given, none⟩ =>
        if callsForHelp given then .ok given else (read known args).map (given ++ ·)
      | .ok ⟨given, some s⟩ =>
        match args with
        | [] => .error (.missingValue s)
        | value :: args =>
          if s.takesDashes || !isDashed value.toList then
            (read known args).map (given ++ ⟨s, value⟩ :: ·)
          else .error (.missingValue s)
    else .error (.unknownArgument arg)

end Arguments

end GraphExport
