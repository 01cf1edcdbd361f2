import TagLedger.Json.Basic
import TagLedger.Timestamp
import TagLedger.Uuid

/-!
Entries of the execution log. Every entry has a header; the body depends on the kind.
-/

namespace TagLedger

inductive EntryKind where
  | thought
  | input
  | output
  | call
  | result
  | event
  | step
  | run
deriving DecidableEq, Repr

namespace EntryKind

def name : EntryKind → String
  | .thought => "thought"
  | .input => "input"
  | .output => "output"
  | .call => "action_call"
  | .result => "action_result"
  | .event => "event"
  | .step => "step"
  | .run => "run"

def all : List EntryKind := [.thought, .input, .output, .call, .result, .event, .step, .run]

def ofName? (s : String) : Option EntryKind := all.find? (·.name == s)

theorem ofName?_name (k : EntryKind) : ofName? k.name = some k := by cases k <;> decide

end EntryKind

/-- What all entries have. The index is that of the parsed element the entry came from. -/
structure Header where
  id : Uuid
  index : Option Nat
  timestamp : Timestamp
  done : Bool
  processed : Bool
deriving DecidableEq, Repr, Inhabited

namespace Header

/-- The header of an entry that is still being written. -/
def streaming (id : Uuid) (index : Nat) (now : Timestamp) : Header :=
  ⟨id, some index, now, false, false⟩

/-- The header of an entry that is final from the start. -/
def final (id : Uuid) (now : Timestamp) : Header := ⟨id, none, now, true, false⟩

end Header

namespace Entry

structure Thought extends Header where
  content : String
deriving DecidableEq, Repr

/-- What a user or another system sends in. -/
structure Input extends Header where
  type : String
  content : String
  data : Option Json
  params : Json.Members
  formatted : Option String
deriving DecidableEq, Repr

/-- What the model sends out. -/
structure Output extends Header where
  type : String
  content : String
  data : Option Json
  params : Json.Members
  formatted : Option String
deriving DecidableEq, Repr

/-- A request to run an action. Its data is the payload after templates are resolved. -/
structure Call extends Header where
  name : String
  content : String
  data : Option Json
  params : Json.Members
deriving DecidableEq, Repr

/-- What an action produced for a call. -/
structure Result extends Header where
  callId : Uuid
  name : String
  data : Json
  formatted : Option String
deriving DecidableEq, Repr

structure Event extends Header where
  name : String
  data : Json
  params : Json.Members
deriving DecidableEq, Repr

structure Step extends Header where
  step : Nat
  type : String
deriving DecidableEq, Repr

structure Run extends Header where
  contextType : String
deriving DecidableEq, Repr

def Event.final (id : Uuid) (now : Timestamp) (name : String) (data : Json)
    (params : Json.Members) : Event :=
  { toHeader := Header.final id now, name, data, params }

def Result.ofCall (id : Uuid) (now : Timestamp) (call : Call) (data : Json) : Result :=
  { toHeader := Header.final id now, callId := call.id, name := call.name, data,
    formatted := none }

/-- The data of a result that stands for an error. -/
def Result.errorData (message : String) : Json := .obj [("error", .str message)]

/-- Whether the data of a result has an `error` member. -/
def Result.isError (r : Result) : Bool := (r.data.get? "error").isSome

end Entry

inductive Entry where
  | thought (body : Entry.Thought)
  | input (body : Entry.Input)
  | output (body : Entry.Output)
  | call (body : Entry.Call)
  | result (body : Entry.Result)
  | event (body : Entry.Event)
  | step (body : Entry.Step)
  | run (body : Entry.Run)
deriving DecidableEq, Repr

namespace Entry

def kind : Entry → EntryKind
  | .thought _ => .thought
  | .input _ => .input
  | .output _ => .output
  | .call _ => .call
  | .result _ => .result
  | .event _ => .event
  | .step _ => .step
  | .run _ => .run

def header : Entry → Header
  | .thought e => e.toHeader
  | .input e => e.toHeader
  | .output e => e.toHeader
  | .call e => e.toHeader
  | .result e => e.toHeader
  | .event e => e.toHeader
  | .step e => e.toHeader
  | .run e => e.toHeader

/-- The entry with another header. -/
def withHeader (h : Header) : Entry → Entry
  | .thought e => .thought { e with toHeader := h }
  | .input e => .input { e with toHeader := h }
  | .output e => .output { e with toHeader := h }
  | .call e => .call { e with toHeader := h }
  | .result e => .result { e with toHeader := h }
  | .event e => .event { e with toHeader := h }
  | .step e => .step { e with toHeader := h }
  | .run e => .run { e with toHeader := h }

def id (e : Entry) : Uuid := e.header.id

def isDone (e : Entry) : Bool := e.header.done

/-- The entry marked as final. -/
def finished (e : Entry) : Entry := e.withHeader { e.header with done := true }

@[simp] theorem header_withHeader (h : Header) (e : Entry) : (e.withHeader h).header = h := by
  cases e <;> rfl

@[simp] theorem isDone_finished (e : Entry) : e.finished.isDone = true := by
  simp [finished, isDone]

/-- The name or type of an entry, if it has one that is not empty. -/
def name? (e : Entry) : Option String :=
  let n :=
    match e with
    | .thought _ => ""
    | .input e => e.type
    | .output e => e.type
    | .call e => e.name
    | .result e => e.name
    | .event e => e.name
    | .step e => e.type
    | .run e => e.contextType
  if n.isEmpty then none else some n

/-- The streamed text of the kinds that have one. -/
def content? : Entry → Option String
  | .thought e => some e.content
  | .input e => some e.content
  | .output e => some e.content
  | .call e => some e.content
  | _ => none

/-- An empty entry of a kind for a parsed element. -/
def streaming (kind : EntryKind) (id : Uuid) (index : Nat) (now : Timestamp) : Entry :=
  let h := Header.streaming id index now
  match kind with
  | .thought => .thought { toHeader := h, content := "" }
  | .input =>
    .input { toHeader := h, type := "", content := "", data := none, params := [],
             formatted := none }
  | .output =>
    .output { toHeader := h, type := "", content := "", data := none, params := [],
              formatted := none }
  | .call => .call { toHeader := h, name := "", content := "", data := none, params := [] }
  | .result =>
    .result { toHeader := h, callId := Uuid.nil, name := "", data := .null, formatted := none }
  | .event => .event { toHeader := h, name := "", data := .null, params := [] }
  | .step => .step { toHeader := h, step := 0, type := "" }
  | .run => .run { toHeader := h, contextType := "" }

end Entry

end TagLedger
