import TagLedger.Action.Script
import TagLedger.Error

/-!
Jobs: an attempt that is repeated after failures. A job asks for a permit and keeps it until it
ends, through all attempts and the pauses between them. Each pause is twice as long as the one
before, up to a limit. Cancellation is looked at before each attempt and during pauses; an attempt
that runs is never interrupted. A permit that is given back goes to the job that has waited longest.
-/

namespace TagLedger.Runner

structure Permits where
  free : Nat
  /-- The numbers of the jobs that wait, the longest waiting first. -/
  queue : List Nat
deriving DecidableEq, Repr

namespace Permits

/-- At least one job may run. -/
def new (limit : Nat) : Permits := ⟨max limit 1, []⟩

/-- A job asks for a permit: whether it gets one at once, or else waits. -/
def ask (p : Permits) (job : Nat) : Bool × Permits :=
  if 0 < p.free then (true, { p with free := p.free - 1 })
  else (false, { p with queue := p.queue ++ [job] })

/-- A permit is given back: the job that gets it, if one waits. -/
def giveBack (p : Permits) : Option Nat × Permits :=
  match p.queue with
  | [] => (none, { p with free := p.free + 1 })
  | job :: rest => (some job, { p with queue := rest })

end Permits

/-- No delay is longer than half a minute. -/
def maxDelay : Nat := 30000

/-- The delay is not doubled more often than this; the limit is reached long before. -/
def maxDoublings : Nat := 20

/-- Products are cut to 128 bits before they are compared with the limit. -/
def maxProduct : Nat := Nat.pow 2 128 - 1

/-- Milliseconds to wait after an attempt that `retries` attempts went before. -/
def delay (base retries : Nat) : Nat :=
  if base = 0 then 0
  else min (min (base * Nat.pow 2 (min retries maxDoublings)) maxProduct) maxDelay

/-- Where a job stands. Attempts are numbered from zero. -/
inductive Job where
  | asking
  | queued
  /-- Has a permit and is about to begin an attempt. -/
  | admitted (attempt : Nat)
  | attempting (attempt : Nat) (script : Script (Except RunError Json))
  /-- Waits until a point of time before an attempt. -/
  | pausing (attempt : Nat) (time : Nat)
  | ended

/-- How often a job is repeated, and the first delay. -/
structure RetryRule where
  retries : Nat
  baseDelay : Nat

inductive JobStep where
  | waits
  | asks
  | begins (attempt : Nat)
  | moves (job : Job) (scene : Scene)
  | ends (outcome : Except RunError Json)
  | crashes

namespace Job

/-- What follows an attempt. -/
def afterAttempt (rule : RetryRule) (scene : Scene) (attempt : Nat) :
    Except RunError Json → JobStep
  | .ok v => .ends (.ok v)
  | .error .aborted => .ends (.error .aborted)
  | .error e =>
    if rule.retries ≤ attempt then .ends (.error e)
    else .moves (.pausing (attempt + 1) (scene.now + delay rule.baseDelay attempt)) scene

def next (rule : RetryRule) (scene : Scene) : Job → JobStep
  | .asking => .asks
  | .queued => .waits
  | .admitted n => if scene.cancelled then .ends (.error .aborted) else .begins n
  | .attempting n script =>
    match script.step scene with
    | .waiting => .waits
    | .moved script scene => .moves (.attempting n script) scene
    | .finished outcome => afterAttempt rule scene n outcome
    | .crashed => .crashes
  | .pausing n t =>
    if scene.cancelled then .ends (.error .aborted)
    else if t ≤ scene.now then .moves (.admitted n) scene
    else .waits
  | .ended => .waits

def wakeTime? : Job → Option Nat
  | .attempting _ script => script.wakeTime?
  | .pausing _ t => some t
  | _ => none

def holdsPermit : Job → Bool
  | .admitted _ => true
  | .attempting _ _ => true
  | .pausing _ _ => true
  | _ => false

end Job

end TagLedger.Runner
