import TagLedger.Entry.Codec
import TagLedger.Error

/-!
What is committed in place of an output or a call that could not be used: for an output, the entry
itself with the reason among its parameters and an event; for a call, an event alone, as the call is
in the log already. Other entries and other errors leave nothing behind.
-/

namespace TagLedger

namespace Entry

/-- An event that reports on another entry. -/
def reportEvent (id : Uuid) (now : Timestamp) (name : String) (data : Json) (param : String)
    (about : Uuid) : Entry :=
  .event { Event.final id now name data [(param, about.toJson)] with processed := true }

/-- An output that was not handled, with its identifier and the reason as parameters. -/
def Output.degraded (e : Output) (reason : String) : Output :=
  { e with
    done := true
    processed := false
    params := (e.params.insert "id" e.id.toJson).insert "error" (.str reason) }

/-- A degraded output and the event about it. -/
def degradedOutput (id : Uuid) (now : Timestamp) (e : Output) (reason event : String)
    (data : Json) : List Entry :=
  [.output (e.degraded reason), reportEvent id now event data "outputId" e.id]

/-- What stands in for an output whose handler failed. -/
def ofFailedHandler (id : Uuid) (now : Timestamp) (e : Output) (error : RunError) : List Entry :=
  degradedOutput id now e "handlerError" "error:output"
    (.obj [("error", .str "handlerError"), ("message", .str error.message)])

/-- What stands in for an entry that an error is about. The identifier is for the event. -/
def ofError (id : Uuid) (now : Timestamp) : RunError → List Entry
  | .unknown (.output e) =>
    degradedOutput id now e "OutputTypeNotFound" "error:output"
      (.obj [("error", .str "OutputTypeNotFound"), ("type", .str e.type)])
  | .unknown (.call e) =>
    [reportEvent id now "error:action_call"
      (.obj [("error", .str "ActionNameNotFound"), ("name", .str e.name)]) "callId" e.id]
  | .malformed (.output e) m =>
    degradedOutput id now e "parsingError" "error:output:parsingError"
      (.obj [("message", .str m)])
  | .malformed (.call e) m =>
    [reportEvent id now "error:action_call:parsingError" (.obj [("message", .str m)]) "callId" e.id]
  | _ => []

end Entry

end TagLedger
