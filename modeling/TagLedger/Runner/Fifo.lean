/-!
A schedule for tasks that take turns: the task that has been ready longest runs until it waits or
ends. A task that waits becomes ready as soon as it can take a step again; of several, the one that
has waited longest comes first.
-/

namespace TagLedger.Runner

/-- Numbered tasks that work on a common state. -/
structure Tasks (σ : Type) where
  step : σ → Nat → σ
  canStep : σ → Nat → Bool
  /-- Whether a task will never take a step again. -/
  isOver : σ → Nat → Bool
  wakeTime? : σ → Nat → Option Nat

structure Fifo (σ : Type) where
  state : σ
  ready : List Nat
  waiting : List Nat

namespace Fifo

variable {σ : Type}

/-- Makes tasks ready that can step again. -/
def wake (t : Tasks σ) (f : Fifo σ) : Fifo σ :=
  { f with
    ready := f.ready ++ f.waiting.filter (t.canStep f.state)
    waiting := f.waiting.filter fun i => !t.canStep f.state i }

def update (t : Tasks σ) (change : σ → σ) (f : Fifo σ) : Fifo σ :=
  wake t { f with state := change f.state }

/-- A turn of the first ready task: one step, or it steps back. -/
def turn (t : Tasks σ) (f : Fifo σ) : Fifo σ :=
  match f.ready with
  | [] => f
  | i :: rest =>
    if t.canStep f.state i then f.update t fun s => t.step s i
    else if t.isOver f.state i then { f with ready := rest }
    else { f with ready := rest, waiting := f.waiting ++ [i] }

/-- Turns until no task is ready, at most `fuel` of them. -/
def runReady (t : Tasks σ) : (fuel : Nat) → Fifo σ → Fifo σ
  | 0, f => f
  | fuel + 1, f => if f.ready.isEmpty then f else runReady t fuel (f.turn t)

/-- The next point of time at which a waiting task wakes up. -/
def nextWake? (t : Tasks σ) (f : Fifo σ) : Option Nat :=
  (f.waiting.filterMap (t.wakeTime? f.state)).min?

end Fifo

/-- More turns than any run takes. -/
def patience : Nat := Nat.pow 2 62

end TagLedger.Runner
