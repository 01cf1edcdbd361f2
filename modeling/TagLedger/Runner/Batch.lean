import TagLedger.Runner.Fifo
import TagLedger.Runner.Job

/-!
Batches: jobs that are started together and share permits and a cancellation.
-/

namespace TagLedger.Runner

structure BatchTask where
  name : String
  retries : Nat
  attempt : Nat → Script (Except RunError Json)
  job : Job
  /-- The outcome and when the job ended. -/
  outcome : Option (Except RunError Json × Nat)

/-- An attempt that was begun, and when. -/
structure Beginning where
  name : String
  attempt : Nat
  time : Nat
deriving DecidableEq, Repr

structure Batch where
  tasks : List BatchTask
  permits : Permits
  baseDelay : Nat
  now : Nat
  cancelled : Bool
  begun : List Beginning

namespace Batch

/-- A batch before any job has asked for a permit. -/
def new (limit baseDelay : Nat)
    (tasks : List (String × Nat × (Nat → Script (Except RunError Json)))) : Batch where
  tasks := tasks.map fun t => ⟨t.1, t.2.1, t.2.2, .asking, none⟩
  permits := Permits.new limit
  baseDelay := baseDelay
  now := 0
  cancelled := false
  begun := []

def scene (b : Batch) : Scene := ⟨b.now, b.cancelled, .null, []⟩

def next (b : Batch) (t : BatchTask) : JobStep := t.job.next ⟨t.retries, b.baseDelay⟩ b.scene

def setJob (b : Batch) (i : Nat) (job : Job) : Batch :=
  { b with tasks := b.tasks.modify i fun t => { t with job } }

def giveBack (b : Batch) : Batch :=
  match b.permits.giveBack with
  | (none, permits) => { b with permits }
  | (some j, permits) => { b with permits }.setJob j (.admitted 0)

def finish (b : Batch) (i : Nat) (outcome : Except RunError Json) : Batch :=
  { b with
    tasks := b.tasks.modify i fun t => { t with job := .ended, outcome := some (outcome, b.now) }
  }.giveBack

def step (b : Batch) (i : Nat) : Batch :=
  match b.tasks[i]? with
  | none => b
  | some t =>
    match b.next t with
    | .waits => b
    | .asks =>
      match b.permits.ask i with
      | (true, permits) => { b with permits }.setJob i (.admitted 0)
      | (false, permits) => { b with permits }.setJob i .queued
    | .begins n =>
      let b := { b with begun := b.begun ++ [Beginning.mk t.name n b.now] }
      b.setJob i (.attempting n (t.attempt n))
    | .moves job scene => { b with cancelled := scene.cancelled }.setJob i job
    | .ends outcome => b.finish i outcome
    | .crashes => b.finish i (.error (.failure .action "attempt broke down"))

def canStep (b : Batch) (i : Nat) : Bool :=
  match b.tasks[i]? with
  | none => false
  | some t =>
    match b.next t with
    | .waits => false
    | _ => true

def isOver (b : Batch) (i : Nat) : Bool :=
  match b.tasks[i]? with
  | none => true
  | some t => t.outcome.isSome

def wakeTime? (b : Batch) (i : Nat) : Option Nat := b.tasks[i]?.bind fun t => t.job.wakeTime?

def schedule : Tasks Batch := ⟨step, canStep, isOver, wakeTime?⟩

def cancel (b : Batch) : Batch := { b with cancelled := true }

/-- Runs all tasks, moving the clock whenever all wait. The batch is cancelled from outside at a
point of time, if one is given. -/
def drive : (fuel : Nat) → (cancelAt : Option Nat) → Fifo Batch → Batch
  | 0, _, f => f.state
  | fuel + 1, cancelAt, f =>
    let f := f.runReady schedule patience
    match f.nextWake? schedule, cancelAt with
    | none, none => f.state
    | some t, none => drive fuel none (f.update schedule fun b => { b with now := t })
    | none, some c =>
      if f.waiting.isEmpty then f.state
      else drive fuel none (f.update schedule fun b => { b with now := c, cancelled := true })
    | some t, some c =>
      if c ≤ t then
        drive fuel none (f.update schedule fun b => { b with now := c, cancelled := true })
      else drive fuel (some c) (f.update schedule fun b => { b with now := t })

def run (b : Batch) (cancelAt : Option Nat) : Batch :=
  let f : Fifo Batch := ⟨b, List.range b.tasks.length, []⟩
  if cancelAt = some 0 then drive patience none (f.update schedule cancel)
  else drive patience cancelAt f

end Batch

end TagLedger.Runner
