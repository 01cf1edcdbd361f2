import TagLedger.Json.Scan
import TagLedger.Text.Basic

/-!
Reading the parts of a JSON text that hold no other values: words, numbers and strings.
-/

namespace TagLedger.Json.Scan

open Text (isDigit)

/-- The rest of a word whose first character has been read. -/
def word : Text → Scan Unit
  | [] => pure ()
  | w :: ws => do
    match ← peek with
    | none => fail .endInValue
    | some c =>
      if c = w then
        skipChar
        word ws
      else failPeek .expectedIdent

def digitValue (c : Char) : Nat := c.toNat - '0'.toNat

def digits : Scan Text := do
  let t ← remaining
  skipWhile isDigit
  return t.takeWhile isDigit

/-- Largest whole number that is kept digit by digit. -/
def maxWhole : Nat := Nat.pow 2 64 - 1

/-- Largest exponent that is kept digit by digit. -/
def maxExponent : Nat := Nat.pow 2 31 - 1

/-- Appends digits to a number up to a limit; the digits from the first one that goes beyond it are
left over. -/
def absorb (limit : Nat) : Nat → Text → Nat × Text
  | n, [] => (n, [])
  | n, d :: ds =>
    let n' := 10 * n + digitValue d
    if limit < n' then (n, d :: ds) else absorb limit n' ds

/-- A double from its parts. -/
def real (negative : Bool) (significand : Nat) (exponent : Int) : Scan Number :=
  match Binary64.ofDecimal negative significand exponent with
  | none => fail .numberOutOfRange
  | some x => pure (.real x)

/-- The digits of an exponent after the first one. -/
def exponentDigits : Nat → Text → Scan (Option Nat)
  | e, [] => pure (some e)
  | e, d :: ds => do
    skipChar
    let e' := 10 * e + digitValue d
    if maxExponent < e' then pure none else exponentDigits e' ds

/-- A number that goes on with an exponent. -/
def exponentPart (negative : Bool) (significand : Nat) (start : Int) : Scan Number := do
  skipChar
  let positive ← do
    match ← peek with
    | some '+' => skipChar; pure true
    | some '-' => skipChar; pure false
    | _ => pure true
  match ← peek with
  | none => fail .endInValue
  | some c =>
    if isDigit c then
      skipChar
      let t ← remaining
      match ← exponentDigits (digitValue c) (t.takeWhile isDigit) with
      | some e =>
        real negative significand (if positive then start + e else start - e)
      | none =>
        if significand ≠ 0 ∧ positive then fail .numberOutOfRange
        else
          skipWhile isDigit
          pure (.real (Binary64.zero negative))
    else failPeek .badNumber

/-- Ends a double, with an exponent if one follows. -/
def realEnd (negative : Bool) (significand : Nat) (exponent : Int) : Scan Number := do
  match ← peek with
  | some 'e' | some 'E' => exponentPart negative significand exponent
  | _ => real negative significand exponent

/-- A number that goes on with a point. -/
def fractionPart (negative : Bool) (significand : Nat) (exponent : Int) : Scan Number := do
  skipChar
  let ds ← digits
  if ds.isEmpty then
    match ← peek with
    | some _ => failPeek .badNumber
    | none => failPeek .endInValue
  else
    let (n, excess) := absorb maxWhole significand ds
    realEnd negative n (exponent - (ds.length - excess.length : Nat))

/-- The value of whole digits: zero with a sign, and what is below the least 64-bit number, are
doubles. -/
def wholeNumber (negative : Bool) (n : Nat) : Scan Number :=
  if negative then
    if n = 0 ∨ Nat.pow 2 63 < n then real true n 0 else pure (.whole (-n))
  else pure (.whole n)

/-- A number after its sign. -/
def unsignedNumber (negative : Bool) : Scan Number := do
  match ← peek with
  | none => fail .endInValue
  | some c =>
    if c = '0' then
      skipChar
      match ← peek with
      | some d => if isDigit d then failPeek .badNumber else numberEnd 0 []
      | none => numberEnd 0 []
    else if isDigit c then
      let ds ← digits
      let (n, excess) := absorb maxWhole 0 ds
      numberEnd n excess
    else failPeek .badNumber
where
  numberEnd (n : Nat) (excess : Text) : Scan Number := do
    match ← peek with
    | some '.' => fractionPart negative n excess.length
    | some 'e' | some 'E' => exponentPart negative n excess.length
    | _ => if excess.isEmpty then wholeNumber negative n else real negative n excess.length

/-- A number whose first character comes next. -/
def number : Scan Number := do
  match ← peek with
  | some '-' => skipChar; unsignedNumber true
  | _ => unsignedNumber false

/-- The value of four hexadecimal digits. -/
def hexValue? (c : Char) : Option Nat :=
  if '0' ≤ c ∧ c ≤ '9' then some (c.toNat - '0'.toNat)
  else if 'a' ≤ c ∧ c ≤ 'f' then some (c.toNat - 'a'.toNat + 10)
  else if 'A' ≤ c ∧ c ≤ 'F' then some (c.toNat - 'A'.toNat + 10)
  else none

/-- Four hexadecimal digits, taken as four bytes. -/
def hexUnit : Scan Nat := fun c =>
  if Text.byteSize c.rest < 4 then fail .endInString c.atEnd
  else
    let bad : Except Failure (Nat × Cursor) :=
      failAt .badEscape (Cursor.placeAfter 4 c.rest c.place) c
    match c.rest with
    | a :: b :: d :: e :: _ =>
      match hexValue? a, hexValue? b, hexValue? d, hexValue? e with
      | some a, some b, some d, some e =>
        .ok (((a * 16 + b) * 16 + d) * 16 + e, c.advance.advance.advance.advance)
      | _, _, _, _ => bad
    | _ => bad

/-- One byte that must be the given one inside a pair of escapes. -/
def pairByte (expected : Char) : Scan Unit := do
  match ← peek with
  | none => fail .endInString
  | some c => if c = expected then skipChar else failPeek .endInSurrogatePair

/-- A character given by its code unit, or by two units in a row. -/
def unicodeEscape : Scan Char := do
  let n ← hexUnit
  if 0xDC00 ≤ n ∧ n ≤ 0xDFFF then fail .loneSurrogate
  else if n < 0xD800 ∨ 0xDBFF < n then pure (Char.ofNat n)
  else
    pairByte '\\'
    pairByte 'u'
    let low ← hexUnit
    if low < 0xDC00 ∨ 0xDFFF < low then fail .loneSurrogate
    else pure (Char.ofNat ((n - 0xD800) * 0x400 + (low - 0xDC00) + 0x10000))

/-- The character that a short escape stands for. -/
def shortEscape? (c : Char) : Option Char :=
  match c with
  | '"' => some '"'
  | '\\' => some '\\'
  | '/' => some '/'
  | 'b' => some '\x08'
  | 'f' => some '\x0c'
  | 'n' => some '\n'
  | 'r' => some '\r'
  | 't' => some '\t'
  | _ => none

/-- The byte after a backslash. -/
def escapeKind : Scan Char := fun c =>
  match c.rest with
  | [] => fail .endInString c
  | ch :: _ =>
    if ch = 'u' ∨ (shortEscape? ch).isSome then .ok (ch, c.advance)
    else failPeek .badEscape c

/-- An escape after its backslash. -/
def escape : Scan Char := do
  let kind ← escapeKind
  match shortEscape? kind with
  | some c => pure c
  | none => unicodeEscape

/-- The characters of a string up to the closing quote, in reverse, put before `acc`. -/
def stringChars : (fuel : Nat) → Text → Scan Text
  | 0, _ => fail .endInString
  | fuel + 1, acc => do
    match ← peek with
    | none => fail .endInString
    | some c =>
      if c = '"' then
        skipChar
        pure acc
      else if c = '\\' then
        skipChar
        let e ← escape
        stringChars fuel (e :: acc)
      else
        skipChar
        if c.val.toNat < 0x20 then fail .controlInString else stringChars fuel (c :: acc)

/-- A string after its opening quote. -/
def stringRest : Scan String := do
  let t ← remaining
  let chars ← stringChars (t.length + 1) []
  return String.ofList chars.reverse

/-- Passes over an escape: the code unit of a character is not looked at. -/
def skipEscape : Scan Unit := do
  let kind ← escapeKind
  if kind = 'u' then
    let _ ← hexUnit

/-- Passes over the characters of a string up to the closing quote. -/
def skipStringChars : (fuel : Nat) → Scan Unit
  | 0 => fail .endInString
  | fuel + 1 => do
    match ← peek with
    | none => fail .endInString
    | some c =>
      if c = '"' then skipChar
      else if c = '\\' then
        skipChar
        skipEscape
        skipStringChars fuel
      else if c.val.toNat < 0x20 then fail .controlInString
      else
        skipChar
        skipStringChars fuel

def skipStringRest : Scan Unit := do
  let t ← remaining
  skipStringChars (t.length + 1)

/-- Passes over the digits and the exponent that end a number. -/
def skipExponent : Scan Unit := do
  skipChar
  match ← peek with
  | some '+' | some '-' => skipChar
  | _ => pure ()
  match ← peek with
  | some c => if isDigit c then skipWhile isDigit else failPeek .badNumber
  | none => fail .badNumber

def skipFraction : Scan Unit := do
  skipChar
  let ds ← digits
  if ds.isEmpty then failPeek .badNumber
  else
    match ← peek with
    | some 'e' | some 'E' => skipExponent
    | _ => pure ()

/-- Passes over a number after its sign; its size does not matter. -/
def skipNumber : Scan Unit := do
  match ← peek with
  | none => fail .badNumber
  | some c =>
    if c = '0' then
      skipChar
      match ← peek with
      | some d => if isDigit d then failPeek .badNumber else pure ()
      | none => pure ()
    else if isDigit c then skipWhile isDigit
    else failPeek .badNumber
  match ← peek with
  | some '.' => skipFraction
  | some 'e' | some 'E' => skipExponent
  | _ => pure ()

end TagLedger.Json.Scan
