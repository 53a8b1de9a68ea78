import GraphExport.Output.Pool
import GraphExport.Stats

/-!
# GraphExport.Job.Crew

Workers that share a supply of work. A worker goes round: it looks at the flag, takes a piece of
work, does it, and checks whether that was the last piece. Each of these is one step, and the steps
of different workers may come in any order. A job by itself lets one worker after the other go on
until it stops.
-/

namespace GraphExport

/-- The flag and the counter that the workers of one phase share. Once halted a phase never
resumes. -/
structure Progress where
  halted : Bool := false
  processed : Nat := 0
  deriving DecidableEq

namespace Progress

def mayContinue (p : Progress) : Bool := !p.halted

def halt (p : Progress) : Progress := { p with halted := true }

def tick (p : Progress) : Progress := { p with processed := p.processed + 1 }

end Progress

structure Shared where
  disk : Disk
  stats : Stats := {}
  progress : Progress := {}

/-- What there is to do: pieces of type `ω` from a supply `π`, with means `ℓ` of the worker's own,
and what is left at the end, `ρ`. -/
structure Duty (π ω ℓ ρ : Type) where
  /-- The next piece, if there is one. -/
  claim : π → Option ω × π
  /-- Does a piece; tells how many elements there were. -/
  perform : Nat → ω → ℓ → Shared → Except Failure Nat × ℓ × Shared
  /-- The piece and its number of elements show that nothing is left. -/
  isLast : ω → Nat → π → Bool
  /-- Puts the worker's means away. -/
  close : ℓ → Shared → ρ × ℓ × Shared

inductive Stage (ω ρ : Type) where
  /-- About to look at the flag. -/
  | testing
  /-- About to take a piece. -/
  | claiming
  /-- About to do a piece. -/
  | working (piece : ω)
  /-- About to check whether the piece was the last one. -/
  | checking (piece : ω) (count : Nat)
  | stopped (result : Except Failure ρ)

structure Worker (ω ℓ ρ : Type) where
  /-- The number that messages name the worker by. -/
  number : Nat
  own : ℓ
  stage : Stage ω ρ := .testing

/-- The supply, and what the workers share. -/
structure Floor (π : Type) where
  supply : π
  shared : Shared

def Floor.halt {π : Type} (s : Floor π) : Floor π :=
  { s with shared := { s.shared with progress := s.shared.progress.halt } }

namespace Worker

variable {π ω ℓ ρ : Type}

/-- The worker stops, with a failure or without, and puts its means away. -/
def stop (d : Duty π ω ℓ ρ) (failure : Option Failure) (w : Worker ω ℓ ρ) (s : Floor π) :
    Worker ω ℓ ρ × Floor π :=
  let (left, own, shared) := d.close w.own s.shared
  let result :=
    match failure with
    | some f => .error f
    | none => .ok left
  ({ w with own, stage := .stopped result }, { s with shared })

/-- One step. A worker that has to wait for a file handle stays where it is. -/
def step (d : Duty π ω ℓ ρ) (w : Worker ω ℓ ρ) (s : Floor π) : Worker ω ℓ ρ × Floor π :=
  match w.stage with
  | .testing =>
    if s.shared.progress.mayContinue then ({ w with stage := .claiming }, s) else w.stop d none s
  | .claiming =>
    match d.claim s.supply with
    | (none, supply) => w.stop d none { s with supply }.halt
    | (some piece, supply) => ({ w with stage := .working piece }, { s with supply })
  | .working piece =>
    match d.perform w.number piece w.own s.shared with
    | (.ok count, own, shared) =>
      ({ w with own, stage := .checking piece count }, { s with shared })
    | (.error f, own, shared) =>
      if f.cause = .handlesBusy then (w, s) else { w with own }.stop d (some f) { s with shared }
  | .checking piece count =>
    ({ w with stage := .testing }, if d.isLast piece count s.supply then s.halt else s)
  | .stopped _ => (w, s)

def run (d : Duty π ω ℓ ρ) : Nat → Worker ω ℓ ρ → Floor π → Worker ω ℓ ρ × Floor π
  | 0, w, s => (w, s)
  | n + 1, w, s =>
    match w.stage with
    | .stopped _ => (w, s)
    | _ => let (w, s) := w.step d s; run d n w s

/-- What the worker left. One that has not stopped is still waiting. -/
def result (w : Worker ω ℓ ρ) : Except Failure ρ :=
  match w.stage with
  | .stopped result => result
  | _ => .error Cause.handlesBusy

/-- So many steps bring a worker round for each of `pieces` pieces and to its end. -/
def stepsFor (pieces : Nat) : Nat := 4 * (pieces + 1)

end Worker

/-- Workers in their places, the supply, and what they share. -/
structure Crew (π ω ℓ ρ : Type) where
  workers : List (Worker ω ℓ ρ)
  floor : Floor π

namespace Crew

variable {π ω ℓ ρ : Type}

/-- Lets one worker do something. -/
def turn (act : Worker ω ℓ ρ → Floor π → Worker ω ℓ ρ × Floor π) (c : Crew π ω ℓ ρ) (i : Nat) :
    Crew π ω ℓ ρ :=
  match c.workers[i]? with
  | none => c
  | some w =>
    let (w, floor) := act w c.floor
    { workers := c.workers.set i w, floor }

def step (d : Duty π ω ℓ ρ) (c : Crew π ω ℓ ρ) (i : Nat) : Crew π ω ℓ ρ := c.turn (Worker.step d) i

/-- The workers named take a step each, in that order. -/
def play (d : Duty π ω ℓ ρ) (turns : List Nat) (c : Crew π ω ℓ ρ) : Crew π ω ℓ ρ :=
  turns.foldl (step d) c

/-- Every worker in turn goes on until it stops. -/
def finishOnce (d : Duty π ω ℓ ρ) (pieces : Nat) (c : Crew π ω ℓ ρ) : Crew π ω ℓ ρ :=
  (List.range c.workers.length).foldl (turn (Worker.run d (Worker.stepsFor pieces))) c

/-- Every worker goes on until it stops. One that had to wait for the handles of another is done
after a second round. -/
def finish (d : Duty π ω ℓ ρ) (pieces : Nat) (c : Crew π ω ℓ ρ) : Crew π ω ℓ ρ :=
  (c.finishOnce d pieces).finishOnce d pieces

/-- What the workers left, or the first failure among them. -/
def results (c : Crew π ω ℓ ρ) : Except Failure (List ρ) := c.workers.mapM Worker.result

def start (count : Nat) (own : ℓ) (supply : π) (shared : Shared) : Crew π ω ℓ ρ where
  workers := (List.range count).map fun number => { number, own }
  floor := { supply, shared }

end Crew

end GraphExport
