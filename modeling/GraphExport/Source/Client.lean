import GraphExport.Source.Query

/-!
# GraphExport.Source.Client

A source of graph elements. A query delivers a list, after which it may still fail.
-/

namespace GraphExport

/-- What a query delivers, and the failure that ends it, if any. -/
structure Delivery (α : Type) where
  items : List α
  failure : Option Failure := none

structure Client where
  /-- The number of elements that a query would deliver without its window. -/
  count : ElementQuery → Except Failure Nat
  elements : ElementQuery → Delivery Element
  answers : String → Delivery Answer

namespace Client

/-- A client that plays a script: two fixed sequences of elements and the answers to fixed
queries. -/
def scripted (count : Option Nat) (nodes edges : List Element)
    (answers : List (String × List Answer)) : Client where
  count _ :=
    match count with
    | some n => .ok n
    | none => .error Cause.countUnavailable
  elements q :=
    match q.kind with
    | .nodes => { items := q.window.slice nodes }
    | .edges => { items := q.window.slice edges }
  answers query :=
    match answers.lookup query with
    | some rows => { items := rows }
    | none => { items := [], failure := some (Cause.unsupported query) }

end Client

/-- Hands what is delivered to a step, one item after the other, up to the first failure. -/
def feed {α σ : Type} (step : α → σ → Except Failure Unit × σ) :
    List α → σ → Except Failure Unit × σ
  | [], s => (.ok (), s)
  | a :: rest, s =>
    match step a s with
    | (.ok _, s) => feed step rest s
    | (.error f, s) => (.error f, s)

/-- Feeds a delivery to a step; tells how many items there were. -/
def Delivery.feed {α σ : Type} (d : Delivery α) (step : α → σ → Except Failure Unit × σ) (s : σ) :
    Except Failure Nat × σ :=
  match GraphExport.feed step d.items s with
  | (.error f, s) => (.error f, s)
  | (.ok _, s) =>
    match d.failure with
    | some f => (.error f, s)
    | none => (.ok d.items.length, s)

end GraphExport
