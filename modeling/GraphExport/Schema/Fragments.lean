import GraphExport.Output.Writer
import GraphExport.Schema.Collection

/-!
# GraphExport.Schema.Fragments

Which files hold which label. Each worker leaves fragments, the schemas of its files; the master
schema of a label is the union over all its files, taken in the order of their ids.
-/

namespace GraphExport

/-- The files of each label, by id. -/
abbrev Fragments := SortedMap Label (SortedMap String FileSchema)

namespace Fragments

/-- Registers a file. Under an id that is there already the schemas are joined. -/
def add (f : Fragments) (id : String) (file : FileSchema) : Fragments :=
  f.alter file.schema.label fun files => (files.getD ∅).alter id fun
    | some old => { old with schema := old.schema.union file.schema }
    | none => file

def files (f : Fragments) : List (String × FileSchema) := f.values.flatMap (·.entries)

def extend (f other : Fragments) : Fragments := other.files.foldl (fun f e => f.add e.1 e.2) f

def filesOf (f : Fragments) (label : Label) : SortedMap String FileSchema :=
  (f.get? label).getD ∅

end Fragments

/-- The schema of a label together with all files that hold it. -/
structure Master where
  schema : LabelSchema
  files : SortedMap String FileSchema
  deriving DecidableEq

abbrev Masters := SortedMap Label Master

namespace Masters

/-- The master of a label: the union over its files. -/
def master (label : Label) (files : SortedMap String FileSchema) : Master where
  schema := files.values.foldl (fun s file => s.union file.schema) { label }
  files := files

/-- Brings the fragments of all workers together. -/
def ofFragments (fragments : List Fragments) : Masters :=
  (fragments.foldl Fragments.extend ∅).mapValues master

def schemas (m : Masters) : Collection := m.mapValues fun _ master => master.schema

end Masters

end GraphExport
