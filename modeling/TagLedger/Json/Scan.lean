import TagLedger.Json.Printer

/-!
Reading JSON text from left to right: places in the text, what can be wrong with a text or with a
value in it, and the basic steps of a reader.

A failure remembers where reading stopped. A value that is well formed but not what was asked for
has no place of its own; it gets the place where the reader of the enclosing value stands after it
has tried to close that value.
-/

namespace TagLedger.Json

/-- Line and column, the column in bytes; a line begins at column zero. -/
structure Place where
  line : Nat
  column : Nat
deriving DecidableEq, Repr

/-- What makes a text no JSON text. -/
inductive Fault where
  | endInList
  | endInObject
  | endInString
  | endInValue
  | expectedColon
  | expectedCommaOrBracket
  | expectedCommaOrBrace
  | expectedIdent
  | expectedValue
  | badEscape
  | badNumber
  | numberOutOfRange
  | controlInString
  | keyNotString
  | loneSurrogate
  | endInSurrogatePair
  | trailingComma
  | trailingText
  | tooDeep
deriving DecidableEq, Repr

def Fault.message : Fault → String
  | .endInList => "EOF while parsing a list"
  | .endInObject => "EOF while parsing an object"
  | .endInString => "EOF while parsing a string"
  | .endInValue => "EOF while parsing a value"
  | .expectedColon => "expected `:`"
  | .expectedCommaOrBracket => "expected `,` or `]`"
  | .expectedCommaOrBrace => "expected `,` or `\x7d`"
  | .expectedIdent => "expected ident"
  | .expectedValue => "expected value"
  | .badEscape => "invalid escape"
  | .badNumber => "invalid number"
  | .numberOutOfRange => "number out of range"
  | .controlInString => "control character (\\u0000-\\u001F) found while parsing a string"
  | .keyNotString => "key must be a string"
  | .loneSurrogate => "lone leading surrogate in hex escape"
  | .endInSurrogatePair => "unexpected end of hex escape"
  | .trailingComma => "trailing comma"
  | .trailingText => "trailing characters"
  | .tooDeep => "recursion limit exceeded"

/-- What makes a JSON value unfit for what was asked for. -/
inductive Mismatch where
  | wrongType (found : Json) (expected : String)
  | wrongValue (found : Json) (expected : String)
  | wrongLength (length : Nat) (expected : String)
  | missing (field : String)
  | duplicate (field : String)
  | unknownVariant (name : String) (variants : List String)
  | unreadable (message : String)
deriving DecidableEq

/-- How a diagnostic names a value it has found. -/
def foundText : Json → String
  | .null => "null"
  | .bool true => "boolean `true`"
  | .bool false => "boolean `false`"
  | .num (.whole n) => "integer `" ++ toString n ++ "`"
  | .num (.real x) => "floating point `" ++ String.ofList x.toText ++ "`"
  | .str s => "string " ++ String.ofList (Text.quoted s.toList)
  | .arr _ => "sequence"
  | .obj _ => "map"

def Mismatch.message : Mismatch → String
  | .wrongType found expected => "invalid type: " ++ foundText found ++ ", expected " ++ expected
  | .wrongValue found expected => "invalid value: " ++ foundText found ++ ", expected " ++ expected
  | .wrongLength n expected => "invalid length " ++ toString n ++ ", expected " ++ expected
  | .missing field => "missing field `" ++ field ++ "`"
  | .duplicate field => "duplicate field `" ++ field ++ "`"
  | .unknownVariant name variants =>
    "unknown variant `" ++ name ++ "`, expected one of " ++
      ", ".intercalate (variants.map fun v => "`" ++ v ++ "`")
  | .unreadable message => message

inductive Cause where
  | fault (f : Fault)
  | mismatch (m : Mismatch)
deriving DecidableEq

def Cause.message : Cause → String
  | .fault f => f.message
  | .mismatch m => m.message

/-- Why a text was not read, and where, if the place is known. -/
structure ReadError where
  cause : Cause
  place : Option Place
deriving DecidableEq

def ReadError.message (e : ReadError) : String :=
  match e.place with
  | none => e.cause.message
  | some p =>
    e.cause.message ++ " at line " ++ toString p.line ++ " column " ++ toString p.column

/-- The unread part of a text and its place. -/
structure Cursor where
  rest : Text
  place : Place

namespace Cursor

def start (t : Text) : Cursor := ⟨t, ⟨1, 0⟩⟩

/-- The place one byte after a place, over a given character. -/
def placeAfterByte (p : Place) (c : Char) : Place :=
  if c = '\n' then ⟨p.line + 1, 0⟩ else ⟨p.line, p.column + 1⟩

def advance (c : Cursor) : Cursor :=
  match c.rest with
  | [] => c
  | '\n' :: t => ⟨t, ⟨c.place.line + 1, 0⟩⟩
  | ch :: t => ⟨t, ⟨c.place.line, c.place.column + ch.utf8Size⟩⟩

/-- The place just after the next byte. -/
def peekPlace (c : Cursor) : Place :=
  match c.rest with
  | [] => c.place
  | ch :: _ => placeAfterByte c.place ch

/-- The place some bytes further on, possibly inside a character. -/
def placeAfter : Nat → Text → Place → Place
  | 0, _, p => p
  | _, [], p => p
  | n + 1, c :: t, p =>
    if c.utf8Size ≤ n + 1 then
      placeAfter (n + 1 - c.utf8Size) t
        (if c = '\n' then ⟨p.line + 1, 0⟩ else ⟨p.line, p.column + c.utf8Size⟩)
    else ⟨p.line, p.column + (n + 1)⟩
termination_by n => n
decreasing_by
  have := c.utf8Size_pos
  omega

def atEnd (c : Cursor) : Cursor := ⟨[], placeAfter (Text.byteSize c.rest) c.rest c.place⟩

end Cursor

/-- A failed reading: the error and where reading stopped. -/
structure Failure where
  error : ReadError
  stop : Cursor

/-- A reader of a part of a text. -/
def Scan (α : Type) := Cursor → Except Failure (α × Cursor)

namespace Scan

protected def pure {α : Type} (a : α) : Scan α := fun c => .ok (a, c)

protected def bind {α β : Type} (m : Scan α) (f : α → Scan β) : Scan β := fun c =>
  match m c with
  | .ok (a, c') => f a c'
  | .error e => .error e

instance : Monad Scan where
  pure := Scan.pure
  bind := Scan.bind

def failAt {α : Type} (f : Fault) (p : Place) : Scan α := fun c =>
  .error ⟨⟨.fault f, some p⟩, c⟩

def fail {α : Type} (f : Fault) : Scan α := fun c => failAt f c.place c

/-- Fails just after the next byte. -/
def failPeek {α : Type} (f : Fault) : Scan α := fun c => failAt f c.peekPlace c

def reject {α : Type} (m : Mismatch) : Scan α := fun c => .error ⟨⟨.mismatch m, none⟩, c⟩

def peek : Scan (Option Char) := fun c => .ok (c.rest.head?, c)

def remaining : Scan Text := fun c => .ok (c.rest, c)

def skipChar : Scan Unit := fun c => .ok ((), c.advance)

def isJsonBlank (c : Char) : Bool := c == ' ' || c == '\n' || c == '\t' || c == '\r'

/-- The cursor after the leading characters of a class. -/
def dropWhileFrom (p : Char → Bool) : Text → Place → Cursor
  | [], q => ⟨[], q⟩
  | c :: t, q =>
    if p c then
      dropWhileFrom p t
        (if c = '\n' then ⟨q.line + 1, 0⟩ else ⟨q.line, q.column + c.utf8Size⟩)
    else ⟨c :: t, q⟩

def skipWhile (p : Char → Bool) : Scan Unit := fun c => .ok ((), dropWhileFrom p c.rest c.place)

/-- Skips blanks and looks at the next character. -/
def peekToken : Scan (Option Char) := do
  skipWhile isJsonBlank
  peek

/-- Gives a failure without a place the place where it stopped. -/
def placing {α : Type} (m : Scan α) : Scan α := fun c =>
  match m c with
  | .error ⟨⟨cause, none⟩, stop⟩ => .error ⟨⟨cause, some stop.place⟩, stop⟩
  | r => r

/-- Reads the inside of a bracketed value and then its end. When the inside fails without a place,
the end is still tried, which moves the place of the failure. -/
def closing {α : Type} (inside : Scan α) (close : Scan Unit) : Scan α := fun c =>
  match inside c with
  | .ok (a, c') =>
    match close c' with
    | .ok (_, c'') => .ok (a, c'')
    | .error e => .error e
  | .error ⟨⟨cause, none⟩, stop⟩ =>
    match close stop with
    | .ok (_, c'') => .error ⟨⟨cause, none⟩, c''⟩
    | .error e => .error ⟨⟨cause, none⟩, e.stop⟩
  | .error e => .error e

/-- Reads a whole text, after which only blanks may follow. -/
def run {α : Type} (m : Scan α) (t : Text) : Except ReadError α :=
  let whole : Scan α := do
    let a ← m
    match ← peekToken with
    | some _ => failPeek .trailingText
    | none => pure a
  match whole (Cursor.start t) with
  | .ok (a, _) => .ok a
  | .error e => .error e.error

end Scan

end TagLedger.Json
