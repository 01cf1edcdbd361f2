import TagLedger.Entry.Codec

/-!
Working memory of a context: the committed entries of each kind, in the order in which they were
committed, and the episodes recalled for the last input.
-/

namespace TagLedger

open Json.Decode (FieldDecoder)
open Json (Mismatch)

structure WorkingMemory where
  runs : List Entry.Run
  steps : List Entry.Step
  inputs : List Entry.Input
  outputs : List Entry.Output
  calls : List Entry.Call
  results : List Entry.Result
  events : List Entry.Event
  thoughts : List Entry.Thought
  episodes : Option (List Json)
deriving DecidableEq, Repr

namespace WorkingMemory

def empty : WorkingMemory := ⟨[], [], [], [], [], [], [], [], none⟩

/-- Adds a committed entry to its category. -/
def push (m : WorkingMemory) : Entry → WorkingMemory
  | .run e => { m with runs := m.runs ++ [e] }
  | .step e => { m with steps := m.steps ++ [e] }
  | .input e => { m with inputs := m.inputs ++ [e] }
  | .output e => { m with outputs := m.outputs ++ [e] }
  | .call e => { m with calls := m.calls ++ [e] }
  | .result e => { m with results := m.results ++ [e] }
  | .event e => { m with events := m.events ++ [e] }
  | .thought e => { m with thoughts := m.thoughts ++ [e] }

def lastThought? (m : WorkingMemory) : Option Entry.Thought := m.thoughts.getLast?

def lastCall? (m : WorkingMemory) : Option Entry.Call := m.calls.getLast?

def call? (m : WorkingMemory) (id : Uuid) : Option Entry.Call := m.calls.find? (·.id == id)

/-- Changes the first element that satisfies `p`. -/
def updateFirst {α : Type} (p : α → Bool) (f : α → α) : List α → List α
  | [] => []
  | a :: as => if p a then f a :: as else a :: updateFirst p f as

def setCallData (m : WorkingMemory) (id : Uuid) (data : Json) : WorkingMemory :=
  { m with calls := updateFirst (·.id == id) (fun c => { c with data := some data }) m.calls }

structure Sizes where
  runs : Nat
  steps : Nat
  inputs : Nat
  outputs : Nat
  calls : Nat
  results : Nat
  events : Nat
  thoughts : Nat
deriving DecidableEq, Repr

def sizes (m : WorkingMemory) : Sizes :=
  ⟨m.runs.length, m.steps.length, m.inputs.length, m.outputs.length, m.calls.length,
    m.results.length, m.events.length, m.thoughts.length⟩

def Sizes.toJson (s : Sizes) : Json :=
  .obj [("runs", Json.ofNat s.runs), ("steps", Json.ofNat s.steps),
    ("inputs", Json.ofNat s.inputs), ("outputs", Json.ofNat s.outputs),
    ("calls", Json.ofNat s.calls), ("results", Json.ofNat s.results),
    ("events", Json.ofNat s.events), ("thoughts", Json.ofNat s.thoughts)]

def episodesJson (episodes : List Json) : Json := .obj [("episodes", .arr episodes)]

/-- The snapshot of a working memory. Recalled episodes are left out when there are none. -/
def toJson (m : WorkingMemory) : Json :=
  .obj ([("runs", .arr (m.runs.map fun e => .obj e.members)),
    ("steps", .arr (m.steps.map fun e => .obj e.members)),
    ("inputs", .arr (m.inputs.map fun e => .obj e.members)),
    ("outputs", .arr (m.outputs.map fun e => .obj e.members)),
    ("calls", .arr (m.calls.map fun e => .obj e.members)),
    ("results", .arr (m.results.map fun e => .obj e.members)),
    ("events", .arr (m.events.map fun e => .obj e.members)),
    ("thoughts", .arr (m.thoughts.map fun e => .obj e.members))] ++
    (match m.episodes with
      | none => []
      | some es => [("episodic_memory", episodesJson es)]))

def decodeEpisodes : Json → Except Mismatch (List Json) :=
  Json.Decode.record "struct EpisodicMemory"
    [⟨"episodes", true, fun j _ => Json.Decode.list .ok j⟩] []

def fields : List (FieldDecoder WorkingMemory) := [
  ⟨"runs", false, fun j m => do return { m with runs := ← Json.Decode.list Entry.Run.decode j }⟩,
  ⟨"steps", false, fun j m => do
    return { m with steps := ← Json.Decode.list Entry.Step.decode j }⟩,
  ⟨"inputs", false, fun j m => do
    return { m with inputs := ← Json.Decode.list Entry.Input.decode j }⟩,
  ⟨"outputs", false, fun j m => do
    return { m with outputs := ← Json.Decode.list Entry.Output.decode j }⟩,
  ⟨"calls", false, fun j m => do
    return { m with calls := ← Json.Decode.list Entry.Call.decode j }⟩,
  ⟨"results", false, fun j m => do
    return { m with results := ← Json.Decode.list Entry.Result.decode j }⟩,
  ⟨"events", false, fun j m => do
    return { m with events := ← Json.Decode.list Entry.Event.decode j }⟩,
  ⟨"thoughts", false, fun j m => do
    return { m with thoughts := ← Json.Decode.list Entry.Thought.decode j }⟩,
  ⟨"episodic_memory", false, fun j m => do
    return { m with episodes := ← Json.Decode.optional decodeEpisodes j }⟩]

/-- Reads a snapshot; categories that are missing are empty. -/
def decode : Json → Except Mismatch WorkingMemory :=
  Json.Decode.record "struct WorkingMemory" fields empty

end WorkingMemory

end TagLedger
