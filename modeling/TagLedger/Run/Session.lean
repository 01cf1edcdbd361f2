import TagLedger.Run.Move
import TagLedger.Runner.Fifo

/-!
A session drives a run with one schedule of its moves. Tasks run in the order in which they become
ready, and only while the host waits; the host then takes all messages that are there; and the clock
moves only when nothing else can.
-/

namespace TagLedger

/-- A piece of a stream as it arrives. -/
inductive StreamItem where
  | chunk (text : Text)
  | wait (ms : Nat)
  | abort
deriving Repr

/-- A run and whose turn it is among its tasks. -/
structure Session where
  turns : Runner.Fifo Run

namespace Session

open Runner (Tasks patience)

def schedule : Tasks Run where
  step := fun r i => r.apply (.task i)
  canStep := Run.canStep
  isOver := Run.isOver
  wakeTime? := Run.wakeTime?

def new (r : Run) : Session := ⟨⟨r, [], []⟩⟩

def run (s : Session) : Run := s.turns.state

/-- A change by the host. Tasks that it starts become ready last. -/
def change (f : Run → Run) (s : Session) : Session :=
  let before := s.run.tasks.length
  let turns := s.turns.update schedule f
  ⟨{ turns with
    ready := turns.ready ++ List.range' before (turns.state.tasks.length - before) }⟩

def move (m : Move) (s : Session) : Session := s.change fun r => r.apply m

def setTime (t : Nat) (s : Session) : Session := s.move (.wait (t - s.run.now))

def drain (s : Session) : Session :=
  (List.range s.run.inbox.length).foldl (fun s _ => s.move .deliver) s

def runReady (s : Session) : Session := ⟨s.turns.runReady schedule patience⟩

def nextWake? (s : Session) : Option Nat := s.turns.nextWake? schedule

/-- Waits until every dispatched call has ended. -/
def settleWithin : (fuel : Nat) → Session → Session
  | 0, s => s
  | fuel + 1, s =>
    let s := s.drain
    if s.run.ledger.inFlight = 0 then s
    else
      let s := s.runReady
      if s.run.inbox.isEmpty then
        match s.nextWake? with
        | none => s
        | some t => settleWithin fuel (s.setTime t)
      else settleWithin fuel s

def settle (s : Session) : Session := settleWithin patience s

def finish (s : Session) : RunRecord × Session :=
  let s := s.settle
  (s.run.record, s)

/-- Lets tasks run until a point of time; no messages are taken. -/
def sleepUntil (time : Nat) : (fuel : Nat) → Session → Session
  | 0, s => s
  | fuel + 1, s =>
    let s := s.runReady
    match s.nextWake? with
    | none => s.setTime time
    | some t => if t < time then sleepUntil time fuel (s.setTime t) else s.setTime time

def sleep (ms : Nat) (s : Session) : Session :=
  if ms = 0 then s else sleepUntil (s.run.now + ms) patience s

/-- What asking a stream for its next piece comes to. -/
inductive Fetch where
  | chunk (text : Text) (cancels : Bool) (rest : List StreamItem)
  | pause (time : Nat) (cancels : Bool) (rest : List StreamItem)
  | finished (cancels : Bool)

/-- Asks a stream for its next piece. Orders to abort and pauses of no length are passed over on the
way. -/
def fetch (now : Nat) (cancels : Bool) : List StreamItem → Fetch
  | [] => .finished cancels
  | .chunk t :: rest => .chunk t cancels rest
  | .wait ms :: rest => if ms = 0 then fetch now cancels rest else .pause (now + ms) cancels rest
  | .abort :: rest => fetch now true rest

/-- Waits for messages, cancellation or a point of time, whichever comes first. -/
def await (time : Nat) (s : Session) : Session :=
  let s := s.runReady
  if s.run.cancelled || !s.run.inbox.isEmpty then s
  else
    match s.nextWake? with
    | none => s.setTime time
    | some t => s.setTime (min t time)

/-- Takes in a stream whose next piece may be held back until a point of time. -/
def consumeWithin : (fuel : Nat) → (pause : Option Nat) → List StreamItem → Session →
    Option RunError × Session
  | 0, _, _, s => (none, s)
  | fuel + 1, pause, items, s =>
    if s.run.cancelled then (some .aborted, s.move .dropStream)
    else if !s.run.inbox.isEmpty then consumeWithin fuel pause items (s.move .deliver)
    else
      match pause with
      | some t =>
        if s.run.now < t then consumeWithin fuel pause items (s.await t)
        else consumeWithin fuel none items s
      | none =>
        match fetch s.run.now false items with
        | .chunk text cancels rest => consumeWithin fuel none rest (s.move (.feed text cancels))
        | .finished cancels => (none, s.move (.closeStream cancels))
        | .pause t cancels rest =>
          consumeWithin fuel (some t) rest ((if cancels then s.move .cancel else s).await t)

/-- Takes in a stream to its end. Cancellation ends it with an error. -/
def consume (items : List StreamItem) (s : Session) : Option RunError × Session :=
  consumeWithin patience none items (s.move .openStream)

def start (s : Session) : Option RunError × Session := (s.run.start.1, s.move .start)

end Session

end TagLedger
