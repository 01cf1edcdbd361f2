import TagLedger.Json.Scalar

/-!
Reading JSON values, and records of known fields straight from text. At most 127 containers may be
open at once in a value that is kept. A value that is passed over may nest deeper, and neither the
size of its numbers nor the pairing of its surrogates is looked at.
-/

namespace TagLedger.Json

namespace Scan

open Text (isDigit)

/-- How many containers a value may open, and one more. -/
def depthLimit : Nat := 128

def closeList : Scan Unit := do
  match ← peekToken with
  | some ']' => skipChar
  | some ',' =>
    skipChar
    match ← peekToken with
    | some ']' => failPeek .trailingComma
    | _ => failPeek .trailingText
  | some _ => failPeek .trailingText
  | none => failPeek .endInList

def closeObject : Scan Unit := do
  match ← peekToken with
  | some '\x7d' => skipChar
  | some ',' => failPeek .trailingComma
  | some _ => failPeek .trailingText
  | none => failPeek .endInObject

/-- Whether another item of a list follows; reading then stands at the item. -/
def nextItem (first : Bool) : Scan Bool := do
  match ← peekToken with
  | none => failPeek .endInList
  | some ']' => pure false
  | some c =>
    if first then pure true
    else if c = ',' then
      skipChar
      match ← peekToken with
      | some ']' => failPeek .trailingComma
      | some _ => pure true
      | none => failPeek .endInValue
    else failPeek .expectedCommaOrBracket

/-- The name of the next member of an object. -/
def nextKey (first : Bool) : Scan (Option String) := do
  match ← peekToken with
  | none => failPeek .endInObject
  | some '\x7d' => pure none
  | some c =>
    if first then
      if c = '"' then quotedKey else failPeek .keyNotString
    else if c = ',' then
      skipChar
      match ← peekToken with
      | some '"' => quotedKey
      | some '\x7d' => failPeek .trailingComma
      | some _ => failPeek .keyNotString
      | none => failPeek .endInValue
    else failPeek .expectedCommaOrBrace
where
  quotedKey : Scan (Option String) := do
    skipChar
    let k ← stringRest
    pure (some k)

/-- The colon between the name and the value of a member. -/
def colon : Scan Unit := do
  match ← peekToken with
  | some ':' => skipChar
  | some _ => failPeek .expectedColon
  | none => failPeek .endInObject

/-- The items of a list, up to its end. -/
def items {α : Type} (item : Scan α) : (fuel : Nat) → (first : Bool) → Scan (List α)
  | 0, _ => failPeek .endInList
  | fuel + 1, first => do
    if ← nextItem first then
      let a ← item
      let rest ← items item fuel false
      return a :: rest
    else return []

/-- The members of an object in document order, up to its end. -/
def members {α : Type} (member : Scan α) :
    (fuel : Nat) → (first : Bool) → Scan (List (String × α))
  | 0, _ => failPeek .endInObject
  | fuel + 1, first => do
    match ← nextKey first with
    | none => return []
    | some k =>
      colon
      let a ← member
      let rest ← members member fuel false
      return (k, a) :: rest

/-- As many steps as there are characters left, and one more. -/
def steps : Scan Nat := do
  let t ← remaining
  return t.length + 1

def value : (depth : Nat) → Scan Json
  | 0 => failPeek .tooDeep
  | depth + 1 => do
    match ← peekToken with
    | none => failPeek .endInValue
    | some 'n' => skipChar; word "ull".toList; pure .null
    | some 't' => skipChar; word "rue".toList; pure (.bool true)
    | some 'f' => skipChar; word "alse".toList; pure (.bool false)
    | some '"' =>
      skipChar
      let s ← stringRest
      pure (.str s)
    | some '[' =>
      if depth = 0 then failPeek .tooDeep
      else
        skipChar
        let n ← steps
        let xs ← closing (items (value depth) n true) closeList
        pure (.arr xs)
    | some '\x7b' =>
      if depth = 0 then failPeek .tooDeep
      else
        skipChar
        let n ← steps
        let ms ← closing (members (value depth) n true) closeObject
        pure (.obj (Members.ofPairs ms))
    | some c =>
      if c = '-' ∨ isDigit c then
        let n ← number
        pure (.num n)
      else failPeek .expectedValue

mutual

def skipValue : (fuel : Nat) → Scan Unit
  | 0 => failPeek .endInValue
  | fuel + 1 => do
    match ← peekToken with
    | none => failPeek .endInValue
    | some 'n' => skipChar; word "ull".toList
    | some 't' => skipChar; word "rue".toList
    | some 'f' => skipChar; word "alse".toList
    | some '"' => skipChar; skipStringRest
    | some '[' =>
      skipChar
      match ← peekToken with
      | none => failPeek .endInList
      | some ']' => skipChar
      | some _ => skipItems fuel
    | some '\x7b' =>
      skipChar
      match ← peekToken with
      | none => failPeek .endInObject
      | some '\x7d' => skipChar
      | some _ => skipMembers fuel
    | some '-' => skipChar; skipNumber
    | some c => if isDigit c then skipNumber else failPeek .expectedValue

/-- Passes over the items of a list and its end. -/
def skipItems : (fuel : Nat) → Scan Unit
  | 0 => failPeek .endInList
  | fuel + 1 => do
    skipValue fuel
    match ← peekToken with
    | some ',' => skipChar; skipItems fuel
    | some ']' => skipChar
    | some _ => failPeek .expectedCommaOrBracket
    | none => failPeek .endInList

/-- Passes over the members of an object and its end. -/
def skipMembers : (fuel : Nat) → Scan Unit
  | 0 => failPeek .endInObject
  | fuel + 1 => do
    match ← peekToken with
    | some '"' => skipChar; skipStringRest
    | some _ => failPeek .keyNotString
    | none => failPeek .endInObject
    colon
    skipValue fuel
    match ← peekToken with
    | some ',' => skipChar; skipMembers fuel
    | some '\x7d' => skipChar
    | some _ => failPeek .expectedCommaOrBrace
    | none => failPeek .endInObject

end

/-- Passes over the value that comes next. -/
def skip : Scan Unit := do
  let t ← remaining
  skipValue (2 * t.length + 2)

/-- Fails because the value that comes next is not what was expected. A scalar is read first, a
container is only looked at. -/
def wrongType {α : Type} (expected : String) : Scan α :=
  placing do
    match ← peek with
    | some 'n' => skipChar; word "ull".toList; reject (.wrongType .null expected)
    | some 't' => skipChar; word "rue".toList; reject (.wrongType (.bool true) expected)
    | some 'f' => skipChar; word "alse".toList; reject (.wrongType (.bool false) expected)
    | some '"' =>
      skipChar
      let s ← stringRest
      reject (.wrongType (.str s) expected)
    | some '[' => reject (.wrongType (.arr []) expected)
    | some '\x7b' => reject (.wrongType (.obj []) expected)
    | some c =>
      if c = '-' ∨ isDigit c then
        let n ← number
        reject (.wrongType (.num n) expected)
      else failPeek .expectedValue
    | none => failPeek .expectedValue

/-- Dispatches on the first character of the value that comes next. -/
def expecting {α : Type} (read : Char → Option (Scan α)) (expected : String) : Scan α := do
  match ← peekToken with
  | none => failPeek .endInValue
  | some c => ((read c).getD (wrongType expected))

def bool : Scan Bool :=
  expecting (fun
    | 't' => some do skipChar; word "rue".toList; pure true
    | 'f' => some do skipChar; word "alse".toList; pure false
    | _ => none) "a boolean"

/-- A string, further examined by `check`. -/
def stringWith {α : Type} (expected : String) (check : String → Except Mismatch α) : Scan α :=
  expecting (fun
    | '"' => some <| placing do
      skipChar
      let s ← stringRest
      match check s with
      | .ok a => pure a
      | .error m => reject m
    | _ => none) expected

def string : Scan String := stringWith "a string" .ok

/-- A whole number from zero to `max`. -/
def natural (expected : String) (max : Nat) : Scan Nat :=
  expecting (fun c =>
    if c = '-' ∨ isDigit c then
      some <| placing do
        match ← number with
        | .whole (.ofNat n) =>
          if n ≤ max then pure n else reject (.wrongValue (.num (.whole n)) expected)
        | .whole n => reject (.wrongValue (.num (.whole n)) expected)
        | .real x => reject (.wrongType (.num (.real x)) expected)
    else none) expected

def optional {α : Type} (read : Scan α) : Scan (Option α) := do
  match ← peekToken with
  | some 'n' => skipChar; word "ull".toList; pure none
  | _ =>
    let a ← read
    pure (some a)

def list {α : Type} (item : Scan α) : Scan (List α) :=
  expecting (fun
    | '[' => some <| placing do
      skipChar
      let n ← steps
      closing (items item n true) closeList
    | _ => none) "a sequence"

/-- A field of a record: its name, whether it must be given, and how its value changes the
record. -/
structure FieldReader (σ : Type) where
  name : String
  required : Bool
  read : σ → Scan σ

/-- The fields of a record given by name. Unknown members are passed over. -/
def namedFields {σ : Type} (fields : List (FieldReader σ)) :
    (fuel : Nat) → (first : Bool) → (seen : List String) → σ → Scan σ
  | 0, _, _, _ => failPeek .endInObject
  | fuel + 1, first, seen, s => do
    match ← nextKey first with
    | none =>
      match fields.find? fun f => f.required && !seen.contains f.name with
      | some f => reject (.missing f.name)
      | none => pure s
    | some k =>
      match fields.find? fun f => f.name == k with
      | none =>
        colon
        skip
        namedFields fields fuel false seen s
      | some f =>
        if seen.contains k then reject (.duplicate k)
        else
          colon
          let s' ← f.read s
          namedFields fields fuel false (k :: seen) s'

/-- The fields of a record given by position; `expected` describes the full length. -/
def placedFields {σ : Type} (expected : String) :
    (position : Nat) → List (FieldReader σ) → σ → Scan σ
  | _, [], s => pure s
  | i, f :: fs, s => do
    if ← nextItem (i == 0) then
      let s' ← f.read s
      placedFields expected (i + 1) fs s'
    else if f.required then reject (.wrongLength i expected)
    else placedFields expected (i + 1) fs s

/-- A record from an object or, by position, from a list. -/
def record {σ : Type} (name : String) (fields : List (FieldReader σ)) (start : σ) : Scan σ :=
  expecting (fun
    | '[' => some <| placing do
      skipChar
      let size := toString fields.length ++ (if fields.length = 1 then " element" else " elements")
      closing (placedFields (name ++ " with " ++ size) 0 fields start) closeList
    | '\x7b' => some <| placing do
      skipChar
      let n ← steps
      closing (namedFields fields n true [] start) closeObject
    | _ => none) name

/-- One of the given names, or an object whose only member has such a name and a null value. -/
def variant {α : Type} (choose : String → Except Mismatch α) : Scan α := do
  let name := stringWith "variant identifier" choose
  match ← peekToken with
  | some '\x7b' =>
    skipChar
    match ← peekToken with
    | some '"' => pure ()
    | some _ => failPeek .keyNotString
    | none => failPeek .endInObject
    let a ← name
    colon
    expecting (fun
      | 'n' => some do skipChar; word "ull".toList
      | _ => none) "unit"
    match ← peekToken with
    | some '\x7d' => skipChar; pure a
    | some _ => fail .expectedValue
    | none => fail .endInObject
  | some '"' => name
  | some _ => failPeek .expectedValue
  | none => failPeek .endInValue

end Scan

def parse (t : Text) : Except ReadError Json := Scan.run (Scan.value Scan.depthLimit) t

end TagLedger.Json
