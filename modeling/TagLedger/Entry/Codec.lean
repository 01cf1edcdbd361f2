import TagLedger.Entry.Basic
import TagLedger.Json.Decode

/-!
The JSON form of entries: an object that begins with the kind under `ref`, then the header, then
the body. Inside working memory, where the category tells the kind, `ref` is left out.

An entry is read from text in two steps. First the object is read as it stands and `ref` is looked
at, then the body is read from the members; so only what is wrong with the first step has a place
in the text.
-/

namespace TagLedger

open Json (Members Mismatch)
open Json.Decode (FieldDecoder)

/-- An optional text; null when absent. -/
def Json.ofOption (f : α → Json) : Option α → Json
  | none => .null
  | some a => f a

def Uuid.toJson (u : Uuid) : Json := .str u.toString

def Timestamp.toJson (t : Timestamp) : Json := .str (String.ofList t.toText)

def maxU64 : Nat := Nat.pow 2 64 - 1

def maxU32 : Nat := Nat.pow 2 32 - 1

def Uuid.decode : Json → Except Mismatch Uuid
  | .str s =>
    match Uuid.parse s.toList with
    | .ok u => .ok u
    | .error e => .error (.unreadable ("UUID parsing failed: " ++ e.message))
  | j => .error (.wrongType j "a formatted UUID string")

def Timestamp.decode : Json → Except Mismatch Timestamp
  | .str s =>
    match Timestamp.parse s.toList with
    | .ok t => .ok t
    | .error e => .error (.unreadable e.message)
  | j => .error (.wrongType j "an RFC 3339 formatted date and time string")

namespace Header

/-- The index is left out when there is none. -/
def members (h : Header) : Members :=
  ("id", h.id.toJson) ::
    ((match h.index with
      | none => []
      | some i => [("index", Json.ofNat i)]) ++
    [("timestamp", h.timestamp.toJson), ("done", .bool h.done), ("processed", .bool h.processed)])

def fields : List (FieldDecoder Header) := [
  ⟨"id", true, fun j h => do return { h with id := ← Uuid.decode j }⟩,
  ⟨"index", false, fun j h => do
    return { h with index := ← Json.Decode.optional (Json.Decode.natural "u64" maxU64) j }⟩,
  ⟨"timestamp", true, fun j h => do return { h with timestamp := ← Timestamp.decode j }⟩,
  ⟨"done", false, fun j h => do return { h with done := ← Json.Decode.bool j }⟩,
  ⟨"processed", false, fun j h => do return { h with processed := ← Json.Decode.bool j }⟩]

/-- A header before any field is read. -/
def blank : Header := ⟨Uuid.nil, none, ⟨0, 0⟩, false, false⟩

def decode (ms : Members) : Except Mismatch Header := Json.Decode.fields fields ms [] blank

end Header

namespace Entry

/-- Reads a body and then the header from the same members. -/
def decodeWith {σ : Type} (expected : String) (known : List (FieldDecoder σ)) (start : σ)
    (setHeader : Header → σ → σ) : Json → Except Mismatch σ
  | .obj ms => do
    let body ← Json.Decode.fields known ms [] start
    let h ← Header.decode ms
    return setHeader h body
  | j => .error (.wrongType j expected)

/-- Reads a string into a record. -/
def stringField {σ : Type} (name : String) (required : Bool) (set : String → σ → σ) :
    FieldDecoder σ :=
  ⟨name, required, fun j s => do return set (← Json.Decode.string j) s⟩

/-- Reads an optional value into a record; null counts as absent. -/
def optionalValueField {σ : Type} (name : String) (set : Option Json → σ → σ) : FieldDecoder σ :=
  ⟨name, false, fun j s => do return set (← Json.Decode.optional .ok j) s⟩

def optionalStringField {σ : Type} (name : String) (set : Option String → σ → σ) : FieldDecoder σ :=
  ⟨name, false, fun j s => do return set (← Json.Decode.optional Json.Decode.string j) s⟩

def membersField {σ : Type} (name : String) (set : Members → σ → σ) : FieldDecoder σ :=
  ⟨name, false, fun j s => do return set (← Json.Decode.members j) s⟩

namespace Thought

def members (e : Thought) : Members := e.toHeader.members ++ [("content", .str e.content)]

def fields : List (FieldDecoder Thought) := [
  stringField "content" true fun v e => { e with content := v }]

def decode : Json → Except Mismatch Thought :=
  decodeWith "struct Thought" fields { toHeader := Header.blank, content := "" }
    fun h e => { e with toHeader := h }

end Thought

namespace Input

def members (e : Input) : Members :=
  e.toHeader.members ++
    [("type", .str e.type), ("content", .str e.content), ("data", Json.ofOption (·) e.data),
     ("params", .obj e.params), ("formatted", Json.ofOption .str e.formatted)]

def fields : List (FieldDecoder Input) := [
  stringField "type" true fun v e => { e with type := v },
  stringField "content" true fun v e => { e with content := v },
  optionalValueField "data" fun v e => { e with data := v },
  membersField "params" fun v e => { e with params := v },
  optionalStringField "formatted" fun v e => { e with formatted := v }]

def decode : Json → Except Mismatch Input :=
  decodeWith "struct InputEntry" fields
    { toHeader := Header.blank, type := "", content := "", data := none, params := [],
      formatted := none }
    fun h e => { e with toHeader := h }

end Input

namespace Output

def members (e : Output) : Members :=
  e.toHeader.members ++
    [("type", .str e.type), ("content", .str e.content), ("data", Json.ofOption (·) e.data),
     ("params", .obj e.params), ("formatted", Json.ofOption .str e.formatted)]

def fields : List (FieldDecoder Output) := [
  stringField "type" true fun v e => { e with type := v },
  stringField "content" true fun v e => { e with content := v },
  optionalValueField "data" fun v e => { e with data := v },
  membersField "params" fun v e => { e with params := v },
  optionalStringField "formatted" fun v e => { e with formatted := v }]

def decode : Json → Except Mismatch Output :=
  decodeWith "struct OutputEntry" fields
    { toHeader := Header.blank, type := "", content := "", data := none, params := [],
      formatted := none }
    fun h e => { e with toHeader := h }

end Output

namespace Call

def members (e : Call) : Members :=
  e.toHeader.members ++
    [("name", .str e.name), ("content", .str e.content), ("data", Json.ofOption (·) e.data),
     ("params", .obj e.params)]

def fields : List (FieldDecoder Call) := [
  stringField "name" true fun v e => { e with name := v },
  stringField "content" true fun v e => { e with content := v },
  optionalValueField "data" fun v e => { e with data := v },
  membersField "params" fun v e => { e with params := v }]

def decode : Json → Except Mismatch Call :=
  decodeWith "struct ActionCall" fields
    { toHeader := Header.blank, name := "", content := "", data := none, params := [] }
    fun h e => { e with toHeader := h }

end Call

namespace Result

def members (e : Result) : Members :=
  e.toHeader.members ++
    [("call_id", e.callId.toJson), ("name", .str e.name), ("data", e.data),
     ("formatted", Json.ofOption .str e.formatted)]

def fields : List (FieldDecoder Result) := [
  ⟨"call_id", true, fun j e => do return { e with callId := ← Uuid.decode j }⟩,
  stringField "name" true fun v e => { e with name := v },
  ⟨"data", true, fun j e => return { e with data := j }⟩,
  optionalStringField "formatted" fun v e => { e with formatted := v }]

def decode : Json → Except Mismatch Result :=
  decodeWith "struct ActionResult" fields
    { toHeader := Header.blank, callId := Uuid.nil, name := "", data := .null, formatted := none }
    fun h e => { e with toHeader := h }

end Result

namespace Event

def members (e : Event) : Members :=
  e.toHeader.members ++ [("name", .str e.name), ("data", e.data), ("params", .obj e.params)]

def fields : List (FieldDecoder Event) := [
  stringField "name" true fun v e => { e with name := v },
  ⟨"data", true, fun j e => return { e with data := j }⟩,
  membersField "params" fun v e => { e with params := v }]

def decode : Json → Except Mismatch Event :=
  decodeWith "struct EventEntry" fields
    { toHeader := Header.blank, name := "", data := .null, params := [] }
    fun h e => { e with toHeader := h }

end Event

namespace Step

def members (e : Step) : Members :=
  e.toHeader.members ++ [("step", Json.ofNat e.step), ("type", .str e.type)]

def fields : List (FieldDecoder Step) := [
  ⟨"step", true, fun j e => do return { e with step := ← Json.Decode.natural "u32" maxU32 j }⟩,
  stringField "type" true fun v e => { e with type := v }]

def decode : Json → Except Mismatch Step :=
  decodeWith "struct StepEntry" fields { toHeader := Header.blank, step := 0, type := "" }
    fun h e => { e with toHeader := h }

end Step

namespace Run

def members (e : Run) : Members := e.toHeader.members ++ [("type", .str e.contextType)]

def fields : List (FieldDecoder Run) := [
  stringField "type" true fun v e => { e with contextType := v }]

def decode : Json → Except Mismatch Run :=
  decodeWith "struct RunEntry" fields { toHeader := Header.blank, contextType := "" }
    fun h e => { e with toHeader := h }

end Run

/-- Header and body without the kind. -/
def bodyMembers : Entry → Members
  | .thought e => e.members
  | .input e => e.members
  | .output e => e.members
  | .call e => e.members
  | .result e => e.members
  | .event e => e.members
  | .step e => e.members
  | .run e => e.members

def toJson (e : Entry) : Json := .obj (("ref", .str e.kind.name) :: e.bodyMembers)

/-- Reads an entry of a known kind. -/
def decodeKind (kind : EntryKind) (j : Json) : Except Mismatch Entry :=
  match kind with
  | .thought => (Thought.decode j).map .thought
  | .input => (Input.decode j).map .input
  | .output => (Output.decode j).map .output
  | .call => (Call.decode j).map .call
  | .result => (Result.decode j).map .result
  | .event => (Event.decode j).map .event
  | .step => (Step.decode j).map .step
  | .run => (Run.decode j).map .run

end Entry

def EntryKind.choose (s : String) : Except Mismatch EntryKind :=
  match EntryKind.ofName? s with
  | some k => .ok k
  | none => .error (.unknownVariant s (EntryKind.all.map EntryKind.name))

namespace Entry

open Json (Scan)
open Json.Scan (nextKey nextItem colon peekToken skipChar closing placing reject)

/-- The members of an entry's object: the kind, and the other members as they stand. -/
def scanMembers : (fuel : Nat) → (first : Bool) → Option EntryKind → Members →
    Scan (EntryKind × Members)
  | 0, _, _, _ => Json.Scan.failPeek .endInObject
  | fuel + 1, first, kind, others => do
    match ← nextKey first with
    | none =>
      match kind with
      | some k => pure (k, others.reverse)
      | none => reject (.missing "ref")
    | some "ref" =>
      match kind with
      | some _ => reject (.duplicate "ref")
      | none =>
        colon
        let k ← Json.Scan.stringWith "variant identifier" EntryKind.choose
        scanMembers fuel false (some k) others
    | some key =>
      colon
      let v ← Json.Scan.value (Json.Scan.depthLimit - 1)
      scanMembers fuel false kind ((key, v) :: others)

/-- The items of an entry's list: the kind, and the other items. -/
def scanItems : Scan (EntryKind × List Json) := do
  if ← nextItem true then
    let k ← Json.Scan.stringWith "variant identifier" EntryKind.choose
    let n ← Json.Scan.steps
    let rest ← Json.Scan.items (Json.Scan.value (Json.Scan.depthLimit - 1)) n false
    pure (k, rest)
  else reject (.missing "ref")

/-- The kind of an entry and the value its body is read from. -/
def scanTagged : Scan (EntryKind × Json) := do
  match ← peekToken with
  | some '\x7b' => placing do
    skipChar
    let n ← Json.Scan.steps
    let (k, ms) ← closing (scanMembers n true none []) Json.Scan.closeObject
    pure (k, .obj ms)
  | some '[' => placing do
    skipChar
    let (k, xs) ← closing scanItems Json.Scan.closeList
    pure (k, .arr xs)
  | _ => placing do
    let j ← Json.Scan.value Json.Scan.depthLimit
    reject (.wrongType j "internally tagged enum LogEntry")

def parse (t : Text) : Except Json.ReadError Entry :=
  Json.Scan.run (do
    let (k, body) ← scanTagged
    match decodeKind k body with
    | .ok e => pure e
    | .error m => reject m) t

/-- Reads an entry of a known kind, without `ref`, from text. -/
def parseKind (kind : EntryKind) (t : Text) : Except Json.ReadError Entry := do
  let j ← Json.parse t
  match decodeKind kind j with
  | .ok e => .ok e
  | .error m => .error ⟨.mismatch m, none⟩

end Entry

end TagLedger
