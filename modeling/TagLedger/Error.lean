import TagLedger.Entry.Basic

/-!
The errors of a run. An error that concerns an entry carries it; all others are told by an area and
a text.
-/

namespace TagLedger

/-- What an error that carries no entry is about. -/
inductive Area where
  | template
  | unimplemented
  | action
  | schema
  | registry
  | config
  | store
  | serialization
  | io
deriving DecidableEq, Repr

/-- The words that stand before the text of an error. -/
def Area.heading : Area → String
  | .template => "Template resolution error: "
  | .unimplemented => "Not implemented: "
  | .action => "Action failed: "
  | .schema => "Schema violation: "
  | .registry => "Invalid registry: "
  | .config => "Invalid configuration: "
  | .store => "Store error: "
  | .serialization => "Serialization error: "
  | .io => "IO error: "

inductive RunError where
  /-- Nothing is registered for the entry. -/
  | unknown (entry : Entry)
  /-- The content of the entry cannot be used. -/
  | malformed (entry : Entry) (message : String)
  | aborted
  | failure (area : Area) (message : String)
deriving DecidableEq, Repr

namespace RunError

def message : RunError → String
  | .unknown e => e.kind.name ++ " not found: " ++ e.name?.getD "undefined"
  | .malformed e m => "Parsing error for " ++ e.kind.name ++ ": " ++ m
  | .aborted => "Run aborted"
  | .failure area m => area.heading ++ m

/-- Errors that concern an entry can be made up for by other entries. -/
def isRecoverable : RunError → Bool
  | .unknown _ => true
  | .malformed _ _ => true
  | _ => false

def entry? : RunError → Option Entry
  | .unknown e => some e
  | .malformed e _ => some e
  | _ => none

end RunError

end TagLedger
