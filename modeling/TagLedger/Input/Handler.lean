import TagLedger.Json.Fenced
import TagLedger.Memory.Archive
import TagLedger.Memory.Slice
import TagLedger.Memory.Working
import TagLedger.Schema.Basic

/-!
Handlers of inputs. Before a handler runs, the episodes that the input brings back are put into
working memory.
-/

namespace TagLedger

/-- What a handler makes of an input. -/
structure InputResponse where
  data : Json
  params : Json.Members

/-- What a handler of inputs can look at. -/
structure InputView where
  context : ContextState
  memory : WorkingMemory

structure InputHandler where
  type : String
  /-- Content is a plain text when there is no schema. -/
  schema : Option Schema
  handle : Json → InputView → Except RunError (Option InputResponse)
  format : Entry.Input → Option String

namespace InputHandler

/-- The value that the content of an entry writes. -/
def contentValue (s : Schema) (e : Entry.Input) : Except RunError Json :=
  if s.isString then .ok (.str e.content)
  else
    match Json.parseFenced e.content.toList with
    | .ok j => .ok j
    | .error err => .error (.malformed (.input e) err.message)

/-- The data of an entry as its handler's schema wants it. -/
def validated (h : InputHandler) (e : Entry.Input) : Except RunError Json := do
  let s := h.schema.getD .string
  let raw ← contentValue s e
  match s.validate raw with
  | .ok data => .ok data
  | .error f => .error (.malformed (.input e) f.toError.message)

/-- The entry with the handler's response. -/
def respond (h : InputHandler) (e : Entry.Input) (data : Json) (r : Option InputResponse) :
    Entry.Input :=
  let e :=
    match r with
    | none => { e with data := some data }
    | some r => { e with data := some r.data, params := e.params.extend r.params }
  { e with formatted := h.format e, processed := true }

/-- A handled input, with working memory and archive after it. -/
structure Handled where
  outcome : Except RunError Entry.Input
  memory : WorkingMemory
  archive : Archive

/-- Checks an input, recalls episodes for it and runs its handler. -/
def handleInput (handlers : List InputHandler) (context : ContextState) (memory : WorkingMemory)
    (archive : Archive) (e : Entry.Input) : Handled :=
  match handlers.find? (·.type == e.type) with
  | none => ⟨.error (.unknown (.input e)), memory, archive⟩
  | some h =>
    match h.validated e with
    | .error err => ⟨.error err, memory, archive⟩
    | .ok data =>
      match archive.query context.id data.toText with
      | (.error err, archive) => ⟨.error err, memory, archive⟩
      | (.ok episodes, archive) =>
        let memory := { memory with episodes := some episodes }
        ⟨(h.handle data ⟨context, memory⟩).map (h.respond e data), memory, archive⟩

end InputHandler

end TagLedger
