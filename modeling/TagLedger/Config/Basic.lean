import TagLedger.Error
import TagLedger.Markup.Element
import TagLedger.Memory.Retention

/-!
The configuration of a run: the tags of the stream, retention, and the limits of action tasks.
-/

namespace TagLedger

/-- A tag of the stream and the kind of entry its elements become; elements of a tag without a kind
only hold others. -/
structure TagConfig where
  name : String
  kind : Option EntryKind
  reentrant : Bool
  container : Bool
deriving DecidableEq, Repr

/-- What the parser needs to know about a tag. -/
def TagConfig.rule (t : TagConfig) : Markup.TagRule := ⟨t.name.toList, t.reentrant, t.container⟩

structure Config where
  tags : List TagConfig
  retention : Retention
  maxConcurrentTasks : Nat
  /-- Retries of actions that do not say how often they are retried. -/
  defaultRetry : Nat
  /-- Milliseconds before the first retry; later ones wait twice as long each time. -/
  retryDelayMs : Nat
  /-- The type of the context whose memory templates can read. -/
  shortTermMemoryContext : String
  workingMemoryKeyPrefix : String
deriving DecidableEq, Repr

namespace Config

def standardTags : List TagConfig := [
  ⟨"think", some .thought, false, false⟩,
  ⟨"thinking", some .thought, true, false⟩,
  ⟨"reasoning", some .thought, false, false⟩,
  ⟨"response", none, false, true⟩,
  ⟨"output", some .output, true, false⟩,
  ⟨"action_call", some .call, true, false⟩]

def standard : Config where
  tags := standardTags
  retention := Retention.standard
  maxConcurrentTasks := 8
  defaultRetry := 0
  retryDelayMs := 250
  shortTermMemoryContext := "shortTermMemory"
  workingMemoryKeyPrefix := "working-memory"

/-- What makes a configuration unusable. -/
inductive Fault where
  | noTasks
  | blankTag
  | duplicateTag (name : String)
  | badVariable (name value : String)
deriving DecidableEq, Repr

def Fault.message : Fault → String
  | .noTasks => "max_concurrent_tasks must be at least 1"
  | .blankTag => "tag names must not be empty"
  | .duplicateTag name => "duplicate tag: " ++ name
  | .badVariable name value => name ++ " has an invalid value: " ++ value

def Fault.toError (f : Fault) : RunError := .failure .config f.message

/-- The first tag whose name is blank or was seen before. -/
def checkTags : (seen : List String) → List TagConfig → Except Fault Unit
  | _, [] => .ok ()
  | seen, t :: ts =>
    if Text.allBlank t.name.toList then .error .blankTag
    else if seen.contains t.name then .error (.duplicateTag t.name)
    else checkTags (t.name :: seen) ts

def validate (c : Config) : Except Fault Unit :=
  if c.maxConcurrentTasks = 0 then .error .noTasks else checkTags [] c.tags

def tag? (c : Config) (name : String) : Option TagConfig := c.tags.find? (·.name == name)

def tagNames (c : Config) : List String := c.tags.map (·.name)

/-- The tags as the parser knows them. -/
def vocabulary (c : Config) : Markup.Vocabulary := c.tags.map TagConfig.rule

/-- The key under which the working memory of a context is stored. -/
def workingMemoryKey (c : Config) (contextId : String) : String :=
  c.workingMemoryKeyPrefix ++ ":" ++ contextId

end Config

end TagLedger
