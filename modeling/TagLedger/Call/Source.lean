import TagLedger.Call.Slot
import TagLedger.Memory.Slice
import TagLedger.Template.Basic

/-!
Where templates get their values from: the results of earlier calls, the memory of a context of a
certain type, and for all other keys an outside resolver.
-/

namespace TagLedger

inductive Reply where
  | answer (answer : Template.Answer)
  | crashed

/-- A resolver of keys that are not known here. -/
abbrev Resolver := String → String → Reply

structure Sources where
  /-- The calls dispatched before the one that asks. -/
  slots : List CallSlot
  contexts : List ContextState
  /-- The type of the context whose memory can be read. -/
  memoryContext : String
  external : Option Resolver

namespace Sources

def callsKey : String := "calls"

def memoryKey : String := "shortTermMemory"

/-- A value in the result of the call with the number that the path begins with. Nothing as long as
the call has not ended. -/
def askCall (s : Sources) (path : String) : Option Template.Answer :=
  match Path.segments path with
  | [] => some (.ok none)
  | first :: rest =>
    match (Path.index? first).bind fun i => s.slots[i]? with
    | none => some (.ok none)
    | some slot =>
      slot.report?.map fun report => report.map fun r => (Json.obj r.members).follow? rest

/-- A value in the memory of the first context of the readable type. -/
def askMemory (s : Sources) (path : String) : Option Json :=
  (s.contexts.find? (·.type == s.memoryContext)).bind fun c => c.memory.lookup? path

/-- Asks for a key and a path. Nothing as long as a call that is asked about has not ended. -/
def ask (s : Sources) (key path : String) : Option Reply :=
  if key = callsKey then (s.askCall path).map .answer
  else if key = memoryKey then some (.answer (.ok (s.askMemory path)))
  else
    match s.external with
    | some resolver => some (resolver key path)
    | none =>
      some (.answer (.error (.failure .unimplemented ("template primary key " ++ key))))

end Sources

end TagLedger
