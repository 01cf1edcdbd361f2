import TagLedger.Text.Basic
import TagLedger.Text.Blank

/-!
Points in time, written and read in the internet date format. Reading is tolerant: blanks may stand
around the numbers, any of `T`, `t` and a blank separates date and time, and the offset may be `Z`,
`UTC` or hours and minutes. Times are kept in UTC and written with as many groups of three digits
after the point as they need.
-/

namespace TagLedger

/-- Seconds since 1970 in UTC, and nanoseconds, which reach a second further in a leap second. -/
structure Timestamp where
  seconds : Int
  nanos : Nat
deriving DecidableEq, Repr, Inhabited

namespace Timestamp

/-- Order in time. -/
def le (a b : Timestamp) : Bool :=
  a.seconds < b.seconds || (a.seconds == b.seconds && a.nanos ≤ b.nanos)

/-- The point in time some milliseconds later. -/
def addMillis (t : Timestamp) (ms : Nat) : Timestamp :=
  let nanos := t.nanos + ms * 1000000
  ⟨t.seconds + (nanos / 1000000000 : Nat), nanos % 1000000000⟩

/-- Why a text is no point in time. -/
inductive ParseError where
  | outOfRange
  | impossible
  | invalid
  | tooShort
  | tooLong
deriving DecidableEq, Repr

def ParseError.message : ParseError → String
  | .outOfRange => "input is out of range"
  | .impossible => "no possible date and time matching input"
  | .invalid => "input contains invalid characters"
  | .tooShort => "premature end of input"
  | .tooLong => "trailing input"

/-- Days from 1970-01-01 to a date of the Gregorian calendar. Years are counted from March, in
cycles of 400 years. -/
def daysFromDate (year : Int) (month day : Nat) : Int :=
  let y := if month ≤ 2 then year - 1 else year
  let cycle := y.fdiv 400
  let yearOfCycle := y - cycle * 400
  let monthFromMarch := (month + 9) % 12
  let dayOfYear : Int := (153 * monthFromMarch + 2) / 5 + day - 1
  cycle * 146097 + yearOfCycle * 365 + yearOfCycle / 4 - yearOfCycle / 100 + dayOfYear - 719468

/-- Year, month and day of a day counted from 1970-01-01. -/
def dateFromDays (days : Int) : Int × Nat × Nat :=
  let z := days + 719468
  let cycle := z.fdiv 146097
  let dayOfCycle := (z - cycle * 146097).toNat
  let yearOfCycle :=
    (dayOfCycle - dayOfCycle / 1460 + dayOfCycle / 36524 - dayOfCycle / 146096) / 365
  let dayOfYear := dayOfCycle - (365 * yearOfCycle + yearOfCycle / 4 - yearOfCycle / 100)
  let monthFromMarch := (5 * dayOfYear + 2) / 153
  let day := dayOfYear - (153 * monthFromMarch + 2) / 5 + 1
  let month := if monthFromMarch < 10 then monthFromMarch + 3 else monthFromMarch - 9
  let year : Int := yearOfCycle + cycle * 400
  (if month ≤ 2 then year + 1 else year, month, day)

def isLeapYear (year : Int) : Bool := year % 4 == 0 && (year % 100 != 0 || year % 400 == 0)

def daysInMonth (year : Int) (month : Nat) : Nat :=
  if month = 2 then (if isLeapYear year then 29 else 28)
  else if month = 4 ∨ month = 6 ∨ month = 9 ∨ month = 11 then 30
  else 31

/-- Between one and `width` digits, and the text after them. -/
def number (width : Nat) (t : Text) : Except ParseError (Nat × Text) :=
  match t with
  | [] => .error .tooShort
  | _ =>
    let ds := (t.take width).takeWhile Text.isDigit
    if ds.isEmpty then .error .invalid
    else
      let n := Text.digitsValue ds
      if Nat.pow 2 63 ≤ n then .error .outOfRange else .ok (n, t.drop ds.length)

/-- A number of two digits in a range, after blanks. -/
def field (lo hi : Nat) (t : Text) : Except ParseError (Nat × Text) := do
  let (n, t) ← number 2 (Text.trimLeft t)
  if lo ≤ n ∧ n ≤ hi then .ok (n, t) else .error .outOfRange

/-- A year of four digits, or of any length after a sign. -/
def yearField (t : Text) : Except ParseError (Int × Text) := do
  let (y, t) ← (match Text.trimLeft t with
    | '-' :: rest => (number rest.length rest).map fun r => (-(r.1 : Int), r.2)
    | '+' :: rest => (number rest.length rest).map fun r => ((r.1 : Int), r.2)
    | rest => (number 4 rest).map fun r => ((r.1 : Int), r.2) : Except ParseError (Int × Text))
  if -2147483648 ≤ y ∧ y < 2147483648 then .ok (y, t) else .error .outOfRange

/-- A separator, after blanks. -/
def separator (c : Char) (t : Text) : Except ParseError Text :=
  match Text.trimLeft t with
  | [] => .error .tooShort
  | d :: rest => if d = c then .ok rest else .error .invalid

/-- An optional fraction of a second in nanoseconds; digits after the ninth are dropped. -/
def fraction (t : Text) : Except ParseError (Nat × Text) :=
  match t with
  | '.' :: rest => do
    let (n, after) ← number 9 rest
    let used := rest.length - after.length
    .ok (n * Nat.pow 10 (9 - used), after.dropWhile Text.isDigit)
  | _ => .ok (0, t)

/-- Two decimal digits of an offset. -/
def twoDigits (t : Text) : Option (Char × Char) :=
  match t with
  | a :: b :: _ => some (a, b)
  | _ => none

/-- Whether the text begins with the letters of `UTC` in either case. -/
def startsUtc (t : Text) : Bool := (t.take 3).map Char.toUpper == ['U', 'T', 'C']

/-- The offset from UTC in seconds. -/
def offset (t : Text) : Except ParseError (Int × Text) :=
  if startsUtc t then .ok (0, t.drop 3)
  else
    match t with
    | [] => .error .tooShort
    | c :: rest =>
      if c = 'Z' ∨ c = 'z' then .ok (0, rest)
      else if c = '+' ∨ c = '-' ∨ c = '\u2212' then do
        if Text.byteSize rest < 2 then .error .tooShort
        else
          match twoDigits rest with
          | none => .error .invalid
          | some (h1, h2) =>
            if !(Text.isDigit h1 && Text.isDigit h2) then .error .invalid
            else
              let hours := Text.digitsValue [h1, h2]
              let afterColon := (rest.drop 2).dropWhile fun c => c == ':' || Text.isBlank c
              if Text.byteSize afterColon < 2 then .error .tooShort
              else
                match twoDigits afterColon with
                | none => .error .invalid
                | some (m1, m2) =>
                  if !(Text.isDigit m1 && Text.isDigit m2) then .error .invalid
                  else if '6' ≤ m1 then .error .outOfRange
                  else
                    let seconds : Int := hours * 3600 + Text.digitsValue [m1, m2] * 60
                    .ok (if c = '+' then seconds else -seconds, afterColon.drop 2)
      else .error .invalid

/-- The first and the last year that a date may have. -/
def firstYear : Int := -262143

def lastYear : Int := 262142

def yearInRange (year : Int) : Bool := firstYear ≤ year && year ≤ lastYear

/-- Whether the year in UTC is in range, which an offset may move it out of. -/
def inRange (t : Timestamp) : Bool :=
  daysFromDate firstYear 1 1 * 86400 ≤ t.seconds &&
    t.seconds < (daysFromDate lastYear 12 31 + 1) * 86400

/-- Reads a point in time. -/
def parse (t : Text) : Except ParseError Timestamp := do
  let (year, t) ← yearField t
  let t ← separator '-' t
  let (month, t) ← field 1 12 t
  let t ← separator '-' t
  let (day, t) ← field 1 31 t
  let t ← (match t with
    | [] => .error .tooShort
    | c :: rest => if c = 'T' ∨ c = 't' ∨ c = ' ' then .ok rest else .error .invalid
      : Except ParseError Text)
  let (hour, t) ← field 0 23 t
  let t ← separator ':' t
  let (minute, t) ← field 0 59 t
  let t ← separator ':' t
  let (second, t) ← field 0 60 t
  let (nanos, t) ← fraction t
  let (shift, t) ← offset (Text.trimLeft t)
  if !(Text.trimLeft t).isEmpty then .error .tooLong
  else if !yearInRange year || daysInMonth year month < day then .error .outOfRange
  else if 86400 ≤ shift.natAbs then .error .outOfRange
  else
    let leap := second == 60
    let s : Int := hour * 3600 + minute * 60 + (if leap then 59 else second)
    let result : Timestamp := ⟨daysFromDate year month day * 86400 + s - shift,
      if leap then nanos + 1000000000 else nanos⟩
    if result.inRange then .ok result else .error .impossible

/-- A number with leading zeros. -/
def padded (width n : Nat) : Text :=
  let ds := (toString n).toList
  List.replicate (width - ds.length) '0' ++ ds

/-- A year: four digits, with a sign outside the four-digit years. -/
def yearText (year : Int) : Text :=
  if 0 ≤ year ∧ year ≤ 9999 then padded 4 year.toNat
  else (if year < 0 then '-' else '+') :: padded 4 year.natAbs

/-- The written form. -/
def toText (ts : Timestamp) : Text :=
  let days := ts.seconds.fdiv 86400
  let s := (ts.seconds - days * 86400).toNat
  let (year, month, day) := dateFromDays days
  let leap := 1000000000 ≤ ts.nanos
  let second := s % 60 + (if leap then 1 else 0)
  let nanos := if leap then ts.nanos - 1000000000 else ts.nanos
  let part :=
    if nanos = 0 then []
    else if nanos % 1000000 = 0 then '.' :: padded 3 (nanos / 1000000)
    else if nanos % 1000 = 0 then '.' :: padded 6 (nanos / 1000)
    else '.' :: padded 9 nanos
  yearText year ++ '-' :: (padded 2 month ++ '-' :: (padded 2 day ++ 'T' ::
    (padded 2 (s / 3600) ++ ':' :: (padded 2 (s / 60 % 60) ++ ':' ::
      (padded 2 second ++ part ++ ['Z'])))))

end Timestamp

end TagLedger
