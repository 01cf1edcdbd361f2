import TagLedger.Memory.Working

/-!
Retention: how many entries of each kind working memory keeps. Trimming drops the oldest.
-/

namespace TagLedger

structure Retention where
  maxRuns : Nat
  maxInputs : Nat
  maxOutputs : Nat
  maxCalls : Nat
  maxResults : Nat
  maxEvents : Nat
  maxThoughts : Nat
  /-- Steps are not kept from one trimming to the next. -/
  clearSteps : Bool
deriving DecidableEq, Repr

namespace Retention

def standard : Retention := ⟨3, 1, 1, 5, 5, 3, 50, true⟩

def keepLast {α : Type} (max : Nat) (xs : List α) : List α := xs.drop (xs.length - max)

/-- The working memory with every category cut to its last elements. -/
def trim (r : Retention) (m : WorkingMemory) : WorkingMemory :=
  { m with
    runs := keepLast r.maxRuns m.runs
    steps := if r.clearSteps then [] else m.steps
    inputs := keepLast r.maxInputs m.inputs
    outputs := keepLast r.maxOutputs m.outputs
    calls := keepLast r.maxCalls m.calls
    results := keepLast r.maxResults m.results
    events := keepLast r.maxEvents m.events
    thoughts := keepLast r.maxThoughts m.thoughts }

def dropped (r : Retention) (m : WorkingMemory) : Nat :=
  (if r.clearSteps then m.steps.length else 0) + (m.runs.length - r.maxRuns) +
    (m.inputs.length - r.maxInputs) + (m.outputs.length - r.maxOutputs) +
    (m.calls.length - r.maxCalls) + (m.results.length - r.maxResults) +
    (m.events.length - r.maxEvents) + (m.thoughts.length - r.maxThoughts)

def toJson (r : Retention) : Json :=
  .obj [("max_runs", Json.ofNat r.maxRuns), ("max_inputs", Json.ofNat r.maxInputs),
    ("max_outputs", Json.ofNat r.maxOutputs), ("max_calls", Json.ofNat r.maxCalls),
    ("max_results", Json.ofNat r.maxResults), ("max_events", Json.ofNat r.maxEvents),
    ("max_thoughts", Json.ofNat r.maxThoughts), ("clear_steps", .bool r.clearSteps)]

open Json.Scan (FieldReader natural bool) in
/-- The fields of a written retention. -/
def fields : List (FieldReader Retention) :=
  let count := natural "usize" maxU64
  [⟨"max_runs", false, fun r => do return { r with maxRuns := ← count }⟩,
   ⟨"max_inputs", false, fun r => do return { r with maxInputs := ← count }⟩,
   ⟨"max_outputs", false, fun r => do return { r with maxOutputs := ← count }⟩,
   ⟨"max_calls", false, fun r => do return { r with maxCalls := ← count }⟩,
   ⟨"max_results", false, fun r => do return { r with maxResults := ← count }⟩,
   ⟨"max_events", false, fun r => do return { r with maxEvents := ← count }⟩,
   ⟨"max_thoughts", false, fun r => do return { r with maxThoughts := ← count }⟩,
   ⟨"clear_steps", false, fun r => do return { r with clearSteps := ← bool }⟩]

/-- Reads a retention; what is not given is standard. -/
def scan : Json.Scan Retention := Json.Scan.record "struct RetentionConfig" fields standard

def parse (t : Text) : Except Json.ReadError Retention := Json.Scan.run scan t

end Retention

end TagLedger
