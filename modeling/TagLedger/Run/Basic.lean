import TagLedger.Audit.Record
import TagLedger.Call.Payload
import TagLedger.Call.Source
import TagLedger.Catalog
import TagLedger.Config.Basic
import TagLedger.Entry.Open
import TagLedger.Memory.Archive
import TagLedger.Memory.Snapshot
import TagLedger.Runner.Job
import TagLedger.Subscriber

/-!
A run: one dispatcher, which alone writes the ledger, and the tasks of the dispatched calls, which
tell the dispatcher what they do through messages. Everything that happens to a run is a function
from its state to its state; nothing says in which order tasks and dispatcher take their turns.
-/

namespace TagLedger

/-- Decides from the chain and the errors whether there should be another step. -/
abbrev ContinuePolicy := List Entry → List String → Bool

/-- Another step is wanted while the last one has a call in it. -/
def ContinuePolicy.onCalls : ContinuePolicy := fun chain _ =>
  (chain.reverse.takeWhile fun e => e.kind != .step).any fun e => e.kind == .call

/-- What is fixed for a run. -/
structure Setup where
  config : Config
  catalog : Catalog
  context : ContextState
  subContexts : List ContextState
  resolver : Option Resolver
  policy : ContinuePolicy
  /-- The identifiers that the run gives out, in order. -/
  ids : Nat → Uuid
  /-- The time at which the clock of the run stands at zero. -/
  epoch : Timestamp

/-- From a task to the dispatcher. -/
inductive Message where
  | push (entry : Entry)
  /-- The payload of a call is complete. -/
  | prepared (callId : Uuid) (data : Json)
  /-- A call never reached its action. -/
  | failed (callId : Uuid) (error : RunError)
  /-- A call has ended. -/
  | completed (result : Entry.Result)

/-- Where the task of a call stands. -/
inductive Phase where
  /-- Replaces templates: the payload so far and the templates that are left. -/
  | resolving (payload : Json) (todo : List Template)
  /-- The payload is complete; the memory of the action comes next. -/
  | loading
  /-- Under the limit on tasks, with the memory slice as it is now. -/
  | working (slice : Json) (job : Runner.Job)
  | recovering (slice : Json) (script : Script (Except RunError Json))
  /-- The outcome is known; formatting and the writing of memory come next. -/
  | concluding (slice : Json) (outcome : Except RunError Json)
  /-- The hook after a success; the result is settled. -/
  | succeeding (slice : Json) (result : Entry.Result) (script : Script (Except RunError Unit))
  | ended

structure CallTask where
  call : Entry.Call
  action : BoundAction
  context : ContextState
  /-- Working memory when the call was dispatched. -/
  memory : WorkingMemory
  /-- How many calls were dispatched before. -/
  slot : Nat
  phase : Phase

/-- What the dispatcher alone writes. -/
structure Ledger where
  memory : WorkingMemory
  openEntries : OpenEntries
  chain : List Entry
  errors : List String
  slots : List CallSlot
  inFlight : Nat
  actions : List BoundAction
  outputs : List OutputHandler
  step : Nat
  runId : Uuid
  startedAt : Timestamp
  archive : Archive
  subscribers : Subscribers

structure Run where
  setup : Setup
  ledger : Ledger
  store : Store
  /-- Messages that the dispatcher has not taken yet, the oldest first. -/
  inbox : List Message
  tasks : List CallTask
  permits : Runner.Permits
  executions : List (String × Nat)
  cancelled : Bool
  /-- Milliseconds since the epoch of the run. -/
  now : Nat
  drawn : Nat
  /-- The parser of the stream that is being taken in. -/
  stream : Option Markup.Parser

namespace Ledger

def empty (archive : Archive) (subscribers : Subscribers) (now : Timestamp) : Ledger where
  memory := WorkingMemory.empty
  openEntries := OpenEntries.empty
  chain := []
  errors := []
  slots := []
  inFlight := 0
  actions := []
  outputs := []
  step := 0
  runId := Uuid.nil
  startedAt := now
  archive := archive
  subscribers := subscribers

end Ledger

namespace Run

def new (setup : Setup) (store : Store) (archive : Archive) (subscribers : Subscribers) : Run where
  setup := setup
  ledger := Ledger.empty archive subscribers setup.epoch
  store := store
  inbox := []
  tasks := []
  permits := Runner.Permits.new setup.config.maxConcurrentTasks
  executions := []
  cancelled := false
  now := 0
  drawn := 0
  stream := none

def time (r : Run) : Timestamp := r.setup.epoch.addMillis r.now

/-- The identifiers that have not been given out. -/
def freshIds (r : Run) (i : Nat) : Uuid := r.setup.ids (r.drawn + i)

def nextId (r : Run) : Uuid := r.freshIds 0

def draw (count : Nat) (r : Run) : Run := { r with drawn := r.drawn + count }

def memoryKey (r : Run) : String := r.setup.config.workingMemoryKey r.setup.context.id

/-- The context of the run and those inside it. -/
def contexts (r : Run) : List ContextState := r.setup.context :: r.setup.subContexts

/-- The context of that identifier; those inside the run are looked at first. -/
def contextFor (r : Run) (id : String) : ContextState :=
  (r.setup.subContexts.find? (·.id == id)).getD r.setup.context

def shouldContinue (r : Run) : Bool :=
  !r.cancelled && r.setup.policy r.ledger.chain r.ledger.errors

def cancel (r : Run) : Run := { r with cancelled := true }

def wait (ms : Nat) (r : Run) : Run := { r with now := r.now + ms }

def record (r : Run) : RunRecord where
  runId := r.ledger.runId
  contextId := r.setup.context.id
  contextType := r.setup.context.type
  chain := r.ledger.chain
  errors := r.ledger.errors
  steps := r.ledger.step
  startedAt := r.ledger.startedAt
  finishedAt := r.time
  chainHash := chainHash r.ledger.chain

end Run

end TagLedger
