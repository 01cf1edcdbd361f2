import TagLedger.Config.Basic
import TagLedger.Text.Basic

/-!
Configurations written as JSON, and configurations changed by the environment.
-/

namespace TagLedger

open Json.Scan (FieldReader natural)

namespace TagConfig

def toJson (t : TagConfig) : Json :=
  .obj [("name", .str t.name), ("kind", Json.ofOption (fun k => .str k.name) t.kind),
    ("reentrant", .bool t.reentrant), ("container", .bool t.container)]

def fields : List (FieldReader TagConfig) := [
  ⟨"name", true, fun t => do return { t with name := ← Json.Scan.string }⟩,
  ⟨"kind", false, fun t => do
    return { t with kind := ← Json.Scan.optional (Json.Scan.variant EntryKind.choose) }⟩,
  ⟨"reentrant", false, fun t => do return { t with reentrant := ← Json.Scan.bool }⟩,
  ⟨"container", false, fun t => do return { t with container := ← Json.Scan.bool }⟩]

def scan : Json.Scan TagConfig :=
  Json.Scan.record "struct TagConfig" fields ⟨"", none, false, false⟩

end TagConfig

namespace Config

def toJson (c : Config) : Json :=
  .obj [("tags", .arr (c.tags.map TagConfig.toJson)), ("retention", c.retention.toJson),
    ("max_concurrent_tasks", Json.ofNat c.maxConcurrentTasks),
    ("default_retry", Json.ofNat c.defaultRetry), ("retry_delay_ms", Json.ofNat c.retryDelayMs),
    ("short_term_memory_context", .str c.shortTermMemoryContext),
    ("working_memory_key_prefix", .str c.workingMemoryKeyPrefix)]

def fields : List (FieldReader Config) := [
  ⟨"tags", false, fun c => do return { c with tags := ← Json.Scan.list TagConfig.scan }⟩,
  ⟨"retention", false, fun c => do return { c with retention := ← Retention.scan }⟩,
  ⟨"max_concurrent_tasks", false, fun c => do
    return { c with maxConcurrentTasks := ← natural "usize" maxU64 }⟩,
  ⟨"default_retry", false, fun c => do
    return { c with defaultRetry := ← natural "u32" maxU32 }⟩,
  ⟨"retry_delay_ms", false, fun c => do
    return { c with retryDelayMs := ← natural "u64" maxU64 }⟩,
  ⟨"short_term_memory_context", false, fun c => do
    return { c with shortTermMemoryContext := ← Json.Scan.string }⟩,
  ⟨"working_memory_key_prefix", false, fun c => do
    return { c with workingMemoryKeyPrefix := ← Json.Scan.string }⟩]

def scan : Json.Scan Config := Json.Scan.record "struct RuntimeConfig" fields standard

/-- A configuration that has passed its checks. -/
def validated (c : Config) : Except RunError Config :=
  match c.validate with
  | .ok _ => .ok c
  | .error f => .error f.toError

/-- Reads a configuration; what is not given is standard. -/
def parse (t : Text) : Except RunError Config :=
  match Json.Scan.run scan t with
  | .ok c => c.validated
  | .error e => .error (.failure .serialization e.message)

/-- Variables and their values; of two values for one name the later one holds. -/
abbrev Environment := List (String × String)

namespace Environment

def get? (env : Environment) (name : String) : Option String := env.reverse.lookup name

/-- The number that a variable holds, at most `max`. -/
def number? (env : Environment) (name : String) (max : Nat) : Except Fault (Option Nat) :=
  match env.get? name with
  | none => .ok none
  | some raw =>
    match (Text.decimal? (Text.trim raw.toList)).bind fun n => if n ≤ max then some n else none with
    | some n => .ok (some n)
    | none => .error (.badVariable name raw)

end Environment

/-- The variables that are looked at. -/
def variableNames : List String := [
  "AGENT_MAX_CONCURRENT_TASKS", "AGENT_DEFAULT_RETRY", "AGENT_RETRY_DELAY_MS",
  "AGENT_SHORT_TERM_MEMORY_CONTEXT", "AGENT_WORKING_MEMORY_KEY_PREFIX", "AGENT_MAX_THOUGHTS",
  "AGENT_MAX_CALLS"]

/-- The standard configuration changed by the variables of an environment. -/
def fromEnvironment (env : Environment) : Except Fault Config := do
  let c := standard
  let tasks ← env.number? "AGENT_MAX_CONCURRENT_TASKS" maxU64
  let c := { c with maxConcurrentTasks := tasks.getD c.maxConcurrentTasks }
  let retry ← env.number? "AGENT_DEFAULT_RETRY" maxU32
  let c := { c with defaultRetry := retry.getD c.defaultRetry }
  let delay ← env.number? "AGENT_RETRY_DELAY_MS" maxU64
  let c := { c with retryDelayMs := delay.getD c.retryDelayMs }
  let c := { c with
    shortTermMemoryContext :=
      (env.get? "AGENT_SHORT_TERM_MEMORY_CONTEXT").getD c.shortTermMemoryContext
    workingMemoryKeyPrefix :=
      (env.get? "AGENT_WORKING_MEMORY_KEY_PREFIX").getD c.workingMemoryKeyPrefix }
  let thoughts ← env.number? "AGENT_MAX_THOUGHTS" maxU64
  let calls ← env.number? "AGENT_MAX_CALLS" maxU64
  let r := c.retention
  let c := { c with
    retention := { r with
      maxThoughts := thoughts.getD r.maxThoughts
      maxCalls := calls.getD r.maxCalls
      maxResults := calls.getD r.maxResults } }
  c.validate
  return c

end Config

end TagLedger
