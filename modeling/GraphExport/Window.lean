/-!
# GraphExport.Window

Windows over the positions of a sequence of elements. A window is half open; the end `-1` stands
for the end of the sequence.
-/

namespace GraphExport

/-- A number taken as a signed word of 64 bits. -/
def wrapWord (n : Int) : Int := Int.bmod n 0x10000000000000000

def minWord : Int := -0x8000000000000000

def maxWord : Int := 0x7fffffffffffffff

def addSaturating (a b : Int) : Int := max minWord (min maxWord (a + b))

structure Window where
  start : Int
  stop : Int
  deriving DecidableEq, Repr, Inhabited

namespace Window

def all : Window := ⟨0, -1⟩

/-- No window; there is nothing left to do. -/
def none : Window := ⟨-1, -1⟩

def isAll (w : Window) : Bool := w = all

def isNone (w : Window) : Bool := w = none

def isOpenEnded (w : Window) : Bool := w.stop = -1 && !w.isNone

/-- The window is bounded and has room for more than `count` elements. -/
def exceeds (w : Window) (count : Nat) : Bool :=
  w.stop != -1 && wrapWord count < w.stop - w.start

/-- The first position of the window in a sequence of a length, and the position after its last. -/
def bounds (w : Window) (length : Nat) : Nat × Nat :=
  if w.isNone then (0, 0)
  else
    let start := min w.start.toNat length
    let stop := if w.stop = -1 then length else max start (min w.stop.toNat length)
    (start, stop)

def slice {α : Type} (w : Window) (items : List α) : List α :=
  let (start, stop) := w.bounds items.length
  (items.take stop).drop start

/-- The window as a step of a traversal. -/
def text (w : Window) : String := "range(" ++ toString w.start ++ ", " ++ toString w.stop ++ ")"

end Window

end GraphExport
