import TagLedger.Text.Printable

/-!
Universally unique identifiers and their written forms. A text is read with or without hyphens; the
hyphenated form may stand in braces or after `urn:uuid:`. An identifier is always written in lower
case with hyphens.
-/

namespace TagLedger

structure Uuid where
  value : BitVec 128
deriving DecidableEq, Repr, Inhabited

namespace Uuid

def nil : Uuid := ⟨0#128⟩

/-- Identifiers with a fixed first half that vary in their last 62 bits, in the layout of version
four. -/
def numbered (n : Nat) : Uuid :=
  ⟨BitVec.ofNat 128 (0xe7c5a9b14d2f4b8a8000000000000000 + (0x1f6ec3d100000000 + n) % Nat.pow 2 62)⟩

/-- The 32 hexadecimal digits. -/
def hexDigits (u : Uuid) : Text :=
  (List.range 32).map fun i => Text.hexDigit (u.value.toNat / Nat.pow 16 (31 - i) % 16)

/-- The written form: groups of 8, 4, 4, 4 and 12 digits. -/
def toText (u : Uuid) : Text :=
  let ds := u.hexDigits
  ds.take 8 ++ '-' :: ((ds.drop 8).take 4 ++ '-' :: ((ds.drop 12).take 4 ++
    '-' :: ((ds.drop 16).take 4 ++ '-' :: ds.drop 20)))

def toString (u : Uuid) : String := String.ofList u.toText

/-- Why a text is no identifier. -/
inductive ParseError where
  | badCharacter (c : Char) (position : Nat)
  | badLength (length : Nat)
  | badGroupCount (count : Nat)
  | badGroupLength (group length : Nat)
deriving DecidableEq, Repr

/-- The lengths of the five groups. -/
def groupLength (group : Nat) : Nat := [8, 4, 4, 4, 12].getD group 0

def ParseError.message : ParseError → String
  | .badCharacter c i =>
    "invalid character: found `" ++ String.singleton c ++ "` at " ++ ToString.toString i
  | .badLength n => "invalid length: found " ++ ToString.toString n
  | .badGroupCount n => "invalid group count: expected 5, found " ++ ToString.toString n
  | .badGroupLength g n =>
    "invalid group length in group " ++ ToString.toString g ++ ": expected " ++
      ToString.toString (groupLength g) ++ ", found " ++ ToString.toString n

def hexValue? (c : Char) : Option Nat :=
  if '0' ≤ c ∧ c ≤ '9' then some (c.toNat - '0'.toNat)
  else if 'a' ≤ c ∧ c ≤ 'f' then some (c.toNat - 'a'.toNat + 10)
  else if 'A' ≤ c ∧ c ≤ 'F' then some (c.toNat - 'A'.toNat + 10)
  else none

/-- The number that hexadecimal digits write. -/
def ofHex? (digits : Text) : Option Nat :=
  digits.foldlM (fun acc c => (hexValue? c).map (acc * 16 + ·)) 0

/-- Where hyphens stand in the hyphenated form: after the digits 8, 12, 16 and 20. -/
def hyphenPlaces : List Nat := [8, 13, 18, 23]

/-- The size of the hyphenated form. -/
def hyphenatedSize : Nat := 36

/-- Whether a text has the size of the hyphenated form and its hyphens. -/
def hyphenated (t : Text) : Bool :=
  t.length == hyphenatedSize && hyphenPlaces.all fun i => t[i]? == some '-'

/-- The text inside braces or after `urn:uuid:` in either case, and how many characters stand before
it. -/
def unframed? (t : Text) : Option (Text × Nat) :=
  match t with
  | '\x7b' :: rest => if rest.getLast? = some '\x7d' then some (rest.dropLast, 1) else none
  | _ => if (t.take 9).map Char.toLower = "urn:uuid:".toList then some (t.drop 9, 9) else none

/-- The text that is read as an identifier: what stands in a frame when that has the size of the
hyphenated form, and the text as it stands otherwise. -/
def core (t : Text) : Text :=
  match unframed? t with
  | some (body, _) => if Text.byteSize body = hyphenatedSize then body else t
  | none => t

/-- The digits of the accepted forms. -/
def digits? (t : Text) : Option Text :=
  if t.length = 32 then some t
  else
    let body := core t
    if hyphenated body then
      some (body.take 8 ++ (body.drop 9).take 4 ++ (body.drop 14).take 4 ++
        (body.drop 19).take 4 ++ body.drop 24)
    else none

/-- The byte offsets of the hyphens, or the first character that is neither a hyphen nor a
digit. -/
def hyphens (offset : Nat) : Text → Except (Char × Nat) (List Nat)
  | [] => .ok []
  | c :: t =>
    if c = '-' then (hyphens (offset + 1) t).map (offset :: ·)
    else if (hexValue? c).isSome then hyphens (offset + 1) t
    else .error (c, offset)

/-- The size of the longest accepted form. -/
def maxSize : Nat := 45

/-- What is wrong with a text that is no identifier. A text without hyphens fails by its length,
unless a frame or the size of the hyphenated form tells that groups were meant. -/
def diagnose (t : Text) : ParseError :=
  if maxSize < Text.byteSize t then .badLength (Text.byteSize t)
  else
    let whole := core t
    let size := Text.byteSize whole
    let (body, before) := (unframed? whole).getD (whole, 0)
    match hyphens 0 body with
    | .error (c, i) => .badCharacter c (i + before)
    | .ok places =>
      if places.isEmpty ∧ before = 0 ∧ size ≠ hyphenatedSize then .badLength size
      else if places.length ≠ 4 then .badGroupCount (places.length + 1)
      else
        match (List.range 4).find? fun g => places.getD g 0 ≠ hyphenPlaces.getD g 0 with
        | some g => .badGroupLength g (places.getD g 0 - [0, 9, 14, 19].getD g 0)
        | none => .badGroupLength 4 (size - 24)

/-- Reads an identifier. -/
def parse (t : Text) : Except ParseError Uuid :=
  match (digits? t).bind ofHex? with
  | some n => .ok ⟨BitVec.ofNat 128 n⟩
  | none => .error (diagnose t)

end Uuid

end TagLedger
