import TagLedger.Action.Basic
import TagLedger.Json.Fenced
import TagLedger.Template.Basic

/-!
Payloads of calls. The content of a call is read as JSON, blank content as an empty object; after
its templates are replaced, the payload is brought into the form that the action's schema wants.
-/

namespace TagLedger

/-- A call whose action is known and whose content is read. -/
structure PreparedCall where
  action : BoundAction
  payload : Json
  templates : List Template

namespace PreparedCall

/-- The payload that content writes. -/
def readPayload (content : String) : Except Json.ReadError Json :=
  let trimmed := Text.trim content.toList
  if trimmed.isEmpty then .ok (.obj []) else Json.parseFenced trimmed

/-- Looks the action up and reads the content. -/
def ofCall (actions : List BoundAction) (call : Entry.Call) : Except RunError PreparedCall :=
  match actions.find? (·.name == call.name) with
  | none => .error (.unknown (.call call))
  | some action =>
    match readPayload call.content with
    | .error e => .error (.malformed (.call call) e.message)
    | .ok payload => .ok ⟨action, payload, Template.detect payload⟩

/-- The data that the action is given. -/
def validated (action : Action) (call : Entry.Call) (payload : Json) : Except RunError Json :=
  match action.schema with
  | none => .ok payload
  | some s =>
    match s.validate payload with
    | .ok data => .ok data
    | .error f => .error (.malformed (.call call) f.toError.message)

end PreparedCall

end TagLedger
