import TagLedger.Error
import TagLedger.Json.Fenced
import TagLedger.Memory.Slice
import TagLedger.Memory.Working
import TagLedger.Schema.Basic

/-!
Handlers of outputs. Content that is blank, that is leaked markup or that is no JSON counts as the
empty value of the handler's schema. A handler sees the validated data and answers with changes to
the entry, with several entries in its place, or with nothing to change.
-/

namespace TagLedger

/-- The value of content under a schema; texts are taken as they are. -/
def OutputContent.recover (s : Schema) (tags : List String) (content : String) : Json :=
  if s.isString then .str content
  else
    let trimmed := Text.trim content.toList
    if trimmed.isEmpty || isLeakedMarkup trimmed tags then s.emptyValue
    else
      match Json.parseFenced trimmed with
      | .ok j => j
      | .error _ => s.emptyValue

/-- What a handler changes in an entry. -/
structure OutputResponse where
  data : Option Json
  params : Json.Members
  processed : Option Bool

inductive OutputReply where
  | unchanged
  | single (response : OutputResponse)
  /-- One entry for each response, with identifiers of their own. -/
  | fanOut (responses : List OutputResponse)

/-- What a handler of outputs can look at. -/
structure OutputView where
  context : ContextState
  memory : WorkingMemory
  entry : Entry.Output

structure OutputHandler where
  type : String
  schema : Option Schema
  enabled : ContextState → WorkingMemory → Bool
  handle : Json → OutputView → Except RunError OutputReply
  format : Json → Option String

namespace OutputHandler

/-- The handlers that are enabled for a context. -/
def prepare (handlers : List OutputHandler) (context : ContextState) (memory : WorkingMemory) :
    List OutputHandler :=
  handlers.filter fun h => h.enabled context memory

/-- An entry changed by a response. -/
def respond (h : OutputHandler) (e : Entry.Output) (r : OutputResponse) : Entry.Output :=
  let data := r.data.or e.data
  { e with
    data
    params := e.params.extend r.params
    processed := r.processed.getD true
    formatted := data.bind h.format }

/-- The entries that a reply leads to; the identifiers are for the entries of a fan-out. -/
def replyEntries (h : OutputHandler) (ids : Nat → Uuid) (e : Entry.Output) (data : Json) :
    OutputReply → List Entry.Output
  | .unchanged => [{ e with processed := true, formatted := h.format data }]
  | .single r => [h.respond e r]
  | .fanOut rs => rs.zipIdx.map fun r => h.respond { e with id := ids r.2 } r.1

/-- The data of an entry as its handler's schema wants it. -/
def validated (h : OutputHandler) (tags : List String) (e : Entry.Output) :
    Except RunError Json :=
  match h.schema with
  | none => .ok (.str e.content)
  | some s =>
    let recovered := OutputContent.recover s tags e.content
    match s.validate recovered with
    | .ok data => .ok data
    | .error f => .error (.malformed (.output { e with data := some recovered }) f.toError.message)

/-- The entries to commit for an output. -/
def handleOutput (handlers : List OutputHandler) (tags : List String) (ids : Nat → Uuid)
    (context : ContextState) (memory : WorkingMemory) (e : Entry.Output) :
    Except RunError (List Entry.Output) :=
  match handlers.find? (·.type == e.type) with
  | none => .error (.unknown (.output e))
  | some h => do
    let data ← h.validated tags e
    let e := { e with data := some data }
    let reply ← h.handle data ⟨context, memory, e⟩
    return h.replyEntries ids e data reply

end OutputHandler

end TagLedger
