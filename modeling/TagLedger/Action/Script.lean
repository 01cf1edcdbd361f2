import TagLedger.Entry.Basic

/-!
Scripts: what an action does, one effect after the other. A script waits only where it says so, so
everything between two waits can be told apart step by step. It works on a scene: the time, the
cancellation of the run, the memory slice of the call, and the posts sent so far.
-/

namespace TagLedger

/-- What a running action sends to the log. -/
inductive Post where
  | event (name : String) (data : Json)
  | entry (entry : Entry)
deriving Repr

inductive Script (α : Type) where
  | done (value : α)
  /-- The action breaks down. -/
  | crash
  /-- Waits for some milliseconds. -/
  | sleep (ms : Nat) (next : Script α)
  /-- Waits until a point of time. -/
  | sleepUntil (time : Nat) (next : Script α)
  | awaitCancel (next : Script α)
  | readMemory (next : Json → Script α)
  | writeMemory (value : Json) (next : Script α)
  | post (post : Post) (next : Script α)
  /-- Cancels the whole run. -/
  | cancel (next : Script α)
  | isCancelled (next : Bool → Script α)

/-- What scripts see and change. Time is counted in milliseconds. -/
structure Scene where
  now : Nat
  cancelled : Bool
  slice : Json
  posts : List Post

/-- What becomes of a script in one step. -/
inductive Script.Progress (α : Type) where
  /-- The script waits. -/
  | waiting
  | moved (script : Script α) (scene : Scene)
  | finished (value : α)
  | crashed

namespace Script

variable {α : Type}

/-- One step. -/
def step (scene : Scene) : Script α → Progress α
  | .done a => .finished a
  | .crash => .crashed
  | .sleep ms next => .moved (.sleepUntil (scene.now + ms) next) scene
  | .sleepUntil t next => if t ≤ scene.now then .moved next scene else .waiting
  | .awaitCancel next => if scene.cancelled then .moved next scene else .waiting
  | .readMemory next => .moved (next scene.slice) scene
  | .writeMemory v next => .moved next { scene with slice := v }
  | .post p next => .moved next { scene with posts := scene.posts ++ [p] }
  | .cancel next => .moved next { scene with cancelled := true }
  | .isCancelled next => .moved (next scene.cancelled) scene

/-- When a script that sleeps wakes up. -/
def wakeTime? : Script α → Option Nat
  | .sleepUntil t _ => some t
  | _ => none

/-- Goes on with another script. -/
protected def bind {β : Type} (f : α → Script β) : Script α → Script β
  | .done a => f a
  | .crash => .crash
  | .sleep ms next => .sleep ms (next.bind f)
  | .sleepUntil t next => .sleepUntil t (next.bind f)
  | .awaitCancel next => .awaitCancel (next.bind f)
  | .readMemory next => .readMemory fun v => (next v).bind f
  | .writeMemory v next => .writeMemory v (next.bind f)
  | .post p next => .post p (next.bind f)
  | .cancel next => .cancel (next.bind f)
  | .isCancelled next => .isCancelled fun b => (next b).bind f

/-- Sends an event. -/
def emit (name : String) (data : Json) (next : Script α) : Script α :=
  .post (.event name data) next

/-- Changes the memory slice. -/
def updateMemory (f : Json → Json) (next : Script α) : Script α :=
  .readMemory fun v => .writeMemory (f v) next

end Script

end TagLedger
