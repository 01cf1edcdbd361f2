import TagLedger.Entry.Codec
import TagLedger.Error

/-!
Slots of dispatched calls. Calls are numbered in the order of dispatch; a slot tells what became of
its call.
-/

namespace TagLedger

inductive CallState where
  | waiting
  | completed (result : Entry.Result)
  /-- The call never reached its action. -/
  | failed (reason : String)
  /-- A later call took over the identifier before this one ended. -/
  | dropped
deriving DecidableEq, Repr

structure CallSlot where
  name : String
  callId : Uuid
  state : CallState
deriving DecidableEq, Repr

namespace CallSlot

def isWaiting (s : CallSlot) : Bool := s.state == .waiting

/-- A slot that waits for the call of that identifier. -/
def awaits (id : Uuid) (s : CallSlot) : Bool := s.callId == id && s.isWaiting

def description (s : CallSlot) : String := "call " ++ s.name ++ " (" ++ s.callId.toString ++ ")"

/-- What one learns by waiting for the call; nothing as long as it has not ended. -/
def report? (s : CallSlot) : Option (Except RunError Entry.Result) :=
  match s.state with
  | .waiting => none
  | .completed r => some (.ok r)
  | .failed reason =>
    some (.error (.failure .template (s.description ++ " failed: " ++ reason)))
  | .dropped =>
    some (.error (.failure .template (s.description ++ " was dropped before completing")))

/-- Adds a slot at the end; slots that wait under the same identifier are dropped. -/
def add (slots : List CallSlot) (name : String) (id : Uuid) : List CallSlot :=
  (slots.map fun s => if s.awaits id then { s with state := .dropped } else s) ++
    [⟨name, id, .waiting⟩]

/-- Ends the call that is waited for under that identifier. -/
def resolve (id : Uuid) (state : CallState) (slots : List CallSlot) : List CallSlot :=
  slots.map fun s => if s.awaits id then { s with state } else s

end CallSlot

end TagLedger
