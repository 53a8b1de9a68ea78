import GraphExport.Output.Kind
import GraphExport.Window

/-!
# GraphExport.Window.Plan

A plan hands out the windows of one element kind one after the other: disjoint, in order, the last
one reaching to the end. Its cursor is the start of the next window.
-/

namespace GraphExport

structure Plan where
  kind : ElementKind
  /-- The width of a window; without a positive width one window covers all. -/
  width : Int
  skip : Int
  /-- The position at which the last window begins or ends at the latest. -/
  upper : Int
  /-- No limit was set, so the last window is open. -/
  unlimited : Bool
  workers : Nat
  /-- The start of the next window; none once the last window was handed out. -/
  cursor : Option Int
  deriving DecidableEq

namespace Plan

/-- The cursor at a position. The least word marks the end of a plan. -/
def cursorAt (position : Int) : Option Int := if position = minWord then none else some position

/-- The plan for a number of elements from `skip` on. The numbers are taken as signed words. -/
def make (kind : ElementKind) (width : Int) (skip : Nat) (limit : Option Nat) (estimate : Nat)
    (workers : Nat) : Plan :=
  let start := wrapWord skip
  { kind, width, skip := start, workers
    upper :=
      match limit with
      | some n => addSaturating start (wrapWord n)
      | none => wrapWord estimate
    unlimited := limit.isNone
    cursor := cursorAt start }

def isExhausted (p : Plan) : Bool := p.cursor.isNone

/-- The window that starts at a position, and the cursor after it. -/
def windowAt (p : Plan) (start : Int) : Window × Option Int :=
  let last := if p.unlimited then -1 else p.upper
  let stop := addSaturating start p.width
  if p.width ≤ 0 || p.upper ≤ stop then (⟨start, last⟩, none) else (⟨start, stop⟩, cursorAt stop)

/-- The next window, or no window once the plan is exhausted. -/
def next (p : Plan) : Window × Plan :=
  match p.cursor with
  | none => (.none, p)
  | some start => ((p.windowAt start).1, { p with cursor := (p.windowAt start).2 })

/-- Goes back to the first window. -/
def reset (p : Plan) : Plan := { p with cursor := cursorAt p.skip }

/-- No more windows than this are left. -/
def windowsLeft (p : Plan) : Nat :=
  match p.cursor with
  | none => 0
  | some start => if p.width ≤ 0 then 1 else ((p.upper - start) / p.width).toNat + 1

/-- The windows left, in order. -/
def windows (p : Plan) : Nat → List Window
  | 0 => []
  | fuel + 1 => if p.next.1.isNone then [] else p.next.1 :: windows p.next.2 fuel

def remaining (p : Plan) : List Window := p.windows p.windowsLeft

/-- The plan after it was asked for windows so many times. -/
def after (p : Plan) : Nat → Plan
  | 0 => p
  | n + 1 => after p.next.2 n

/-- The plan after the windows left were handed out. -/
def drained (p : Plan) : Plan := p.after p.windowsLeft

end Plan

end GraphExport
