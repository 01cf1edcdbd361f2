import TagLedger.Run.Message
import TagLedger.Run.Stream
import TagLedger.Run.Task

/-!
Moves: everything that can happen to a run, one at a time. A schedule is a list of moves; the moves
of the host are left out while a stream is being taken in. In a stream, cancellation comes first,
then messages, then the next piece; a piece may bring cancellation with it.
-/

namespace TagLedger

inductive Move where
  | start
  | nextStep
  | push (entry : Entry)
  | openStream
  /-- The next piece of the stream; the run may be cancelled while it is fetched. -/
  | feed (chunk : Text) (cancels : Bool)
  | closeStream (cancels : Bool)
  | dropStream
  | deliver
  | task (i : Nat)
  | cancel
  | wait (ms : Nat)

namespace Run

def nextStep (r : Run) : Run :=
  let r := { r with ledger := { r.ledger with step := r.ledger.step + 1 } }
  (r.draw 1).commit (.step
    { toHeader := Header.final r.nextId r.time, step := r.ledger.step,
      type := r.setup.context.type })

/-- Binds the catalog to the loaded working memory. -/
def bindCatalog (m : WorkingMemory) (r : Run) : Run :=
  { r with
    ledger := { r.ledger with
      memory := m
      actions := Action.prepare r.setup.catalog.actions r.setup.context r.setup.subContexts m
      outputs := OutputHandler.prepare r.setup.catalog.outputs r.setup.context m
      startedAt := r.time } }

def openRun (r : Run) : Run :=
  let r := { r with ledger := { r.ledger with runId := r.nextId } }
  (r.draw 1).commit (.run
    { toHeader := Header.final r.nextId r.time, contextType := r.setup.context.type })

/-- Loads working memory, binds the catalog and opens the run and its first step. Memory that cannot
be loaded is an error, and nothing is opened. -/
def start (r : Run) : Option RunError × Run :=
  match WorkingMemory.load r.memoryKey r.store with
  | (.error err, store) => (some err, { r with store })
  | (.ok m, store) => (none, (bindCatalog m { r with store }).openRun.nextStep)

def streamReady (r : Run) : Bool := r.stream.isSome && !r.cancelled && r.inbox.isEmpty

/-- The effect of a move; a move that is not possible has none. -/
def apply (r : Run) : Move → Run
  | .start => if r.stream.isNone then r.start.2 else r
  | .nextStep => if r.stream.isNone then r.nextStep else r
  | .push e => if r.stream.isNone then r.push e else r
  | .openStream => if r.stream.isNone then r.openStream else r
  | .feed chunk cancels =>
    if r.streamReady then (if cancels then r.cancel else r).feed chunk else r
  | .closeStream cancels =>
    if r.streamReady then (if cancels then r.cancel else r).closeStream else r
  | .dropStream => if r.cancelled then r.dropStream else r
  | .deliver => if r.stream.isSome && r.cancelled then r else r.deliver
  | .task i => r.stepTask i
  | .cancel => r.cancel
  | .wait ms => r.wait ms

def applyAll (r : Run) (moves : List Move) : Run := moves.foldl apply r

end Run

end TagLedger
