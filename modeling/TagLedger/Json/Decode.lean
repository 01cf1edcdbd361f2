import TagLedger.Json.Reader

/-!
Reading typed data from JSON values. A mismatch names what was found and what was expected.
-/

namespace TagLedger.Json.Decode

def string : Json → Except Mismatch String
  | .str s => .ok s
  | j => .error (.wrongType j "a string")

def bool : Json → Except Mismatch Bool
  | .bool b => .ok b
  | j => .error (.wrongType j "a boolean")

/-- A whole number from zero to `max`. -/
def natural (expected : String) (max : Nat) : Json → Except Mismatch Nat
  | .num (.whole (.ofNat n)) =>
    if n ≤ max then .ok n else .error (.wrongValue (.num (.whole n)) expected)
  | .num (.whole n) => .error (.wrongValue (.num (.whole n)) expected)
  | j => .error (.wrongType j expected)

def optional {α : Type} (read : Json → Except Mismatch α) : Json → Except Mismatch (Option α)
  | .null => .ok none
  | j => (read j).map some

def members : Json → Except Mismatch Members
  | .obj ms => .ok ms
  | j => .error (.wrongType j "a map")

def list {α : Type} (read : Json → Except Mismatch α) : Json → Except Mismatch (List α)
  | .arr xs => xs.mapM read
  | j => .error (.wrongType j "a sequence")

/-- A field of a record: its name, whether it must be given, and how its value changes the
record. -/
structure FieldDecoder (σ : Type) where
  name : String
  required : Bool
  read : Json → σ → Except Mismatch σ

/-- Reads the known fields in the order of the members, then asks for those that are missing. -/
def fields {σ : Type} (known : List (FieldDecoder σ)) : Members → (seen : List String) → σ →
    Except Mismatch σ
  | [], seen, s =>
    match known.find? fun f => f.required && !seen.contains f.name with
    | some f => .error (.missing f.name)
    | none => .ok s
  | (k, v) :: ms, seen, s =>
    match known.find? fun f => f.name == k with
    | none => fields known ms seen s
    | some f =>
      if seen.contains k then .error (.duplicate k)
      else do
        let s' ← f.read v s
        fields known ms (k :: seen) s'

/-- Reads fields by position. Left-over items are counted against the length of the list. -/
def placed {σ : Type} (known : List (FieldDecoder σ)) (name : String) (items : List Json) (s : σ) :
    Except Mismatch σ :=
  go 0 known items s
where
  go (position : Nat) : List (FieldDecoder σ) → List Json → σ → Except Mismatch σ
    | [], [], s => .ok s
    | [], _ :: _, _ => .error (.wrongLength items.length "fewer elements in array")
    | f :: fs, [], s =>
      if f.required then
        let size := toString known.length ++
          (if known.length = 1 then " element" else " elements")
        .error (.wrongLength position (name ++ " with " ++ size))
      else go (position + 1) fs [] s
    | f :: fs, x :: xs, s => do
      let s' ← f.read x s
      go (position + 1) fs xs s'

/-- A record from an object or, by position, from a list. -/
def record {σ : Type} (name : String) (known : List (FieldDecoder σ)) (start : σ) :
    Json → Except Mismatch σ
  | .obj ms => fields known ms [] start
  | .arr xs => placed known name xs start
  | j => .error (.wrongType j name)

end TagLedger.Json.Decode
