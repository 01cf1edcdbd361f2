import TagLedger.Run.Basic

/-!
Steps of a call's task. A task replaces the templates of its payload one by one, waiting for earlier
calls where they are asked about, then checks the payload, loads the memory of its action and runs
the action under the limit on tasks. It tells the dispatcher when the payload is complete and when
the call has ended; whatever goes wrong, it tells exactly one end.
-/

namespace TagLedger

def CallTask.view (t : CallTask) : CallView :=
  ⟨t.context, t.call, t.memory, t.action.action.memory.map (·.key)⟩

def CallTask.wakeTime? (t : CallTask) : Option Nat :=
  match t.phase with
  | .working _ job => job.wakeTime?
  | .recovering _ script => script.wakeTime?
  | .succeeding _ _ script => script.wakeTime?
  | _ => none

def CallTask.isOver (t : CallTask) : Bool :=
  match t.phase with
  | .ended => true
  | _ => false

namespace Run

def setTask (i : Nat) (t : CallTask) (r : Run) : Run := { r with tasks := r.tasks.set i t }

def setPhase (i : Nat) (p : Phase) (r : Run) : Run :=
  { r with tasks := r.tasks.modify i fun t => { t with phase := p } }

def send (m : Message) (r : Run) : Run := { r with inbox := r.inbox ++ [m] }

def sendPost (p : Post) (r : Run) : Run :=
  match p with
  | .entry e => r.send (.push e)
  | .event name data =>
    (r.draw 1).send (.push
      (.event { Entry.Event.final r.nextId r.time name data [] with processed := true }))

def scene (slice : Json) (r : Run) : Scene := ⟨r.now, r.cancelled, slice, []⟩

/-- Takes over what a script did to its scene. -/
def absorb (s : Scene) (r : Run) : Run :=
  s.posts.foldl (fun r p => r.sendPost p) { r with cancelled := r.cancelled || s.cancelled }

/-- Ends a task whose call does not reach its action. -/
def reject (i : Nat) (t : CallTask) (err : RunError) (r : Run) : Run :=
  (r.setPhase i .ended).send (.failed t.call.id err)

/-- Ends a task with the result of its call. -/
def complete (i : Nat) (result : Entry.Result) (r : Run) : Run :=
  (r.setPhase i .ended).send (.completed result)

/-- A result of a task's call, made now. -/
def resultOf (t : CallTask) (data : Json) (r : Run) : Entry.Result :=
  Entry.Result.ofCall r.nextId r.time t.call data

/-- Ends a task whose action broke down. -/
def breakDown (i : Nat) (t : CallTask) (r : Run) : Run :=
  (r.draw 1).complete i (r.resultOf t (Entry.Result.errorData "action handler panicked"))

/-- Gives the permit of a task back, which may let another task begin. -/
def giveBack (r : Run) : Run :=
  match r.permits.giveBack with
  | (none, permits) => { r with permits }
  | (some j, permits) =>
    { r with
      permits
      tasks := r.tasks.modify j fun t =>
        match t.phase with
        | .working slice _ => { t with phase := .working slice (.admitted 0) }
        | _ => t }

/-- The sources of a task's templates. Only calls before its own can be asked about. -/
def sources (t : CallTask) (r : Run) : Sources :=
  ⟨r.ledger.slots.take t.slot, r.contexts, r.setup.config.shortTermMemoryContext,
    r.setup.resolver⟩

def takeReply (i : Nat) (t : CallTask) (payload : Json) (template : Template)
    (rest : List Template) (reply : Reply) (r : Run) : Run :=
  match reply with
  | .crashed =>
    r.reject i t (.failure .template ("resolver panicked while preparing " ++ t.call.name))
  | .answer a =>
    match template.fill payload a with
    | (_, some fault) => r.reject i t fault.toError
    | (payload, none) => r.setPhase i (.resolving payload rest)

/-- Replaces a template; none if the task has to wait for an earlier call. -/
def stepResolving? (i : Nat) (t : CallTask) (payload : Json) (template : Template)
    (rest : List Template) (r : Run) : Option Run :=
  match template.request? with
  | none => some (r.reject i t template.noKey.toError)
  | some (key, path) =>
    ((r.sources t).ask key path).map fun reply => r.takeReply i t payload template rest reply

def stepPrepared (i : Nat) (t : CallTask) (payload : Json) (r : Run) : Run :=
  match PreparedCall.validated t.action.action t.call payload with
  | .error err => r.reject i t err
  | .ok data =>
    (r.setTask i { t with call := { t.call with data := some data }, phase := .loading }).send
      (.prepared t.call.id data)

/-- Loads the memory of the action; what cannot be read counts as absent. -/
def stepLoading (i : Nat) (t : CallTask) (r : Run) : Run :=
  match t.action.action.memory with
  | none => r.setPhase i (.working .null .asking)
  | some m =>
    let found := r.store.read m.key
    let slice :=
      match found.1 with
      | .ok (some v) => v
      | _ => m.initial
    { r with store := found.2 }.setPhase i (.working slice .asking)

def executionsOf (name : String) (r : Run) : Nat := (r.executions.lookup name).getD 0

def countExecution (name : String) (r : Run) : Run :=
  { r with
    executions := (name, r.executionsOf name + 1) :: r.executions.filter fun x => x.1 != name }

def beginAttempt (i : Nat) (t : CallTask) (slice : Json) (attempt : Nat) (r : Run) : Run :=
  let a := t.action.action
  let script := a.execute (r.executionsOf a.name) attempt (t.call.data.getD .null) t.view
  (r.countExecution a.name).setPhase i (.working slice (.attempting attempt script))

/-- What follows the attempts of a call. -/
def afterWork (i : Nat) (t : CallTask) (slice : Json) (outcome : Except RunError Json) (r : Run) :
    Run :=
  match outcome with
  | .ok v => r.setPhase i (.concluding slice (.ok v))
  | .error err => r.setPhase i (.recovering slice (t.action.action.onError err t.view))

/-- How often calls of an action are repeated, and the first delay. -/
def retryRule (a : Action) (r : Run) : Runner.RetryRule :=
  ⟨a.retry.getD r.setup.config.defaultRetry, r.setup.config.retryDelayMs⟩

/-- A step of the job; none if it waits. -/
def stepWorking? (i : Nat) (t : CallTask) (slice : Json) (job : Runner.Job) (r : Run) :
    Option Run :=
  match job.next (r.retryRule t.action.action) (r.scene slice) with
  | .waits => none
  | .asks =>
    match r.permits.ask i with
    | (true, permits) => some ({ r with permits }.setPhase i (.working slice (.admitted 0)))
    | (false, permits) => some ({ r with permits }.setPhase i (.working slice .queued))
  | .begins n => some (r.beginAttempt i t slice n)
  | .moves job scene => some ((r.absorb scene).setPhase i (.working scene.slice job))
  | .ends outcome => some (r.giveBack.afterWork i t slice outcome)
  | .crashes => some (r.giveBack.breakDown i t)

def stepRecovering? (i : Nat) (t : CallTask) (slice : Json)
    (script : Script (Except RunError Json)) (r : Run) : Option Run :=
  match script.step (r.scene slice) with
  | .waiting => none
  | .moved script scene => some ((r.absorb scene).setPhase i (.recovering scene.slice script))
  | .finished outcome => some (r.setPhase i (.concluding slice outcome))
  | .crashed => some (r.breakDown i t)

def outcomeData : Except RunError Json → Json
  | .ok v => v
  | .error err => Entry.Result.errorData err.message

/-- Writes the memory slice, if the action keeps one. A failed write has no consequence. -/
def keepSlice (a : Action) (slice : Json) (r : Run) : Run :=
  match a.memory with
  | none => r
  | some m => { r with store := (r.store.write m.key slice).2 }

def stepConcluding (i : Nat) (t : CallTask) (slice : Json) (outcome : Except RunError Json)
    (r : Run) : Run :=
  let a := t.action.action
  let bare := r.resultOf t (outcomeData outcome)
  let result := { bare with formatted := a.format bare }
  let r := (r.draw 1).keepSlice a slice
  match outcome with
  | .ok _ => r.setPhase i (.succeeding slice result (a.onSuccess result t.view))
  | .error _ => r.complete i result

/-- A step of the hook after a success. Its own outcome has no consequence. -/
def stepSucceeding? (i : Nat) (t : CallTask) (slice : Json) (result : Entry.Result)
    (script : Script (Except RunError Unit)) (r : Run) : Option Run :=
  match script.step (r.scene slice) with
  | .waiting => none
  | .moved script scene =>
    some ((r.absorb scene).setPhase i (.succeeding scene.slice result script))
  | .finished _ => some (r.complete i result)
  | .crashed => some (r.breakDown i t)

/-- One step of a task; none if it waits or is over. -/
def stepTask? (i : Nat) (r : Run) : Option Run :=
  r.tasks[i]?.bind fun t =>
    match t.phase with
    | .resolving payload [] => some (r.stepPrepared i t payload)
    | .resolving payload (template :: rest) => r.stepResolving? i t payload template rest
    | .loading => some (r.stepLoading i t)
    | .working slice job => r.stepWorking? i t slice job
    | .recovering slice script => r.stepRecovering? i t slice script
    | .concluding slice outcome => some (r.stepConcluding i t slice outcome)
    | .succeeding slice result script => r.stepSucceeding? i t slice result script
    | .ended => none

def stepTask (i : Nat) (r : Run) : Run := (r.stepTask? i).getD r

def canStep (r : Run) (i : Nat) : Bool := (r.stepTask? i).isSome

def isOver (r : Run) (i : Nat) : Bool :=
  match r.tasks[i]? with
  | none => true
  | some t => t.isOver

def wakeTime? (r : Run) (i : Nat) : Option Nat := r.tasks[i]?.bind CallTask.wakeTime?

end Run

end TagLedger
