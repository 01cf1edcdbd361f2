import TagLedger.Entry.Degraded
import TagLedger.Run.Commit

/-!
Routes of finished entries. Inputs and outputs pass through their handlers, calls are dispatched as
tasks, and all other entries are committed as they are.
-/

namespace TagLedger.Run

/-- An input is committed if its handler accepts it. One that cannot be used is dropped; any other
error is an error of the run. -/
def routeInput (e : Entry.Input) (r : Run) : Run :=
  let handled :=
    InputHandler.handleInput r.setup.catalog.inputs r.setup.context r.ledger.memory
      r.ledger.archive e
  let r :=
    { r with ledger := { r.ledger with memory := handled.memory, archive := handled.archive } }
  match handled.outcome with
  | .ok e => r.commit (.input e)
  | .error err => if err.isRecoverable then r else r.recordError err

/-- Commits what stands in for an entry that an error is about. -/
def commitSubstitutes (err : RunError) (r : Run) : Run :=
  (r.draw 1).commitAll (Entry.ofError r.nextId r.time err)

/-- The entries that its handler makes of an output are committed, or what stands in for it. -/
def routeOutput (e : Entry.Output) (r : Run) : Run :=
  match
    OutputHandler.handleOutput r.ledger.outputs r.setup.config.tagNames r.freshIds r.setup.context
      r.ledger.memory e with
  | .ok es => (r.draw es.length).commitAll (es.map .output)
  | .error err =>
    let r := r.recordError err
    if err.isRecoverable then r.commitSubstitutes err
    else (r.draw 1).commitAll (Entry.ofFailedHandler r.nextId r.time e err)

def openSlot (call : Entry.Call) (r : Run) : Run :=
  { r with ledger := { r.ledger with slots := CallSlot.add r.ledger.slots call.name call.id } }

/-- Starts the task of a call that is prepared. The slot is the number of calls before it. -/
def spawn (call : Entry.Call) (p : PreparedCall) (slot : Nat) (r : Run) : Run :=
  { r with
    ledger := { r.ledger with inFlight := r.ledger.inFlight + 1 }
    tasks := r.tasks ++
      [CallTask.mk call p.action (r.contextFor p.action.contextId) r.ledger.memory slot
        (.resolving p.payload p.templates)] }

/-- A call that can be prepared gets a slot and a task; any other is committed with what stands in
for it. -/
def dispatch (call : Entry.Call) (r : Run) : Run :=
  match PreparedCall.ofCall r.ledger.actions call with
  | .error err => ((r.recordError err).commit (.call call)).commitSubstitutes err
  | .ok p => ((r.openSlot call).commit (.call call)).spawn call p r.ledger.slots.length

def route (e : Entry) (r : Run) : Run :=
  match e with
  | .input e => r.routeInput e
  | .output e => r.routeOutput e
  | .call e => r.dispatch e
  | e => r.commit e

/-- Routes an entry that comes from outside the stream. -/
def push (e : Entry) (r : Run) : Run := r.route e.finished

end TagLedger.Run
