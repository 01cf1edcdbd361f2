/-!
Running text as a list of characters: its length in bytes, removing a known beginning, cutting it at
separators, and reading whole numbers; and sets of characters given as ranges of code points.
-/

namespace TagLedger

/-- Running text, read one character at a time. -/
abbrev Text := List Char

namespace Text

/-- Length in UTF-8 bytes. -/
def byteSize : Text → Nat
  | [] => 0
  | c :: t => c.utf8Size + byteSize t

@[simp] theorem byteSize_nil : byteSize [] = 0 := rfl

@[simp] theorem byteSize_cons (c : Char) (t : Text) :
    byteSize (c :: t) = c.utf8Size + byteSize t := rfl

@[simp] theorem byteSize_append (s t : Text) : byteSize (s ++ t) = byteSize s + byteSize t := by
  induction s with
  | nil => simp
  | cons c s ih => simp [ih, Nat.add_assoc]

/-- `dropPrefix? p t` is what follows `p` in `t`, if `t` begins with `p`. -/
def dropPrefix? : Text → Text → Option Text
  | [], t => some t
  | _ :: _, [] => none
  | p :: ps, c :: cs => if p = c then dropPrefix? ps cs else none

theorem dropPrefix?_eq_some_iff {p t r : Text} : dropPrefix? p t = some r ↔ t = p ++ r := by
  induction p generalizing t with
  | nil => simp [dropPrefix?]
  | cons a p ih =>
    cases t with
    | nil => simp [dropPrefix?]
    | cons c t =>
      by_cases h : a = c
      · simp [dropPrefix?, h, ih]
      · simp [dropPrefix?, h, Ne.symm h]

/-- The pieces of a text between characters that satisfy `sep`; always at least one piece. -/
def splitBy (sep : Char → Bool) : Text → List Text
  | [] => [[]]
  | c :: t =>
    match splitBy sep t with
    | [] => [[c]]
    | piece :: rest => if sep c then [] :: piece :: rest else (c :: piece) :: rest

theorem splitBy_ne_nil (sep : Char → Bool) (t : Text) : splitBy sep t ≠ [] := by
  cases t with
  | nil => simp [splitBy]
  | cons c t =>
    simp only [splitBy]
    split
    · simp
    · split <;> simp

def isDigit (c : Char) : Bool := '0' ≤ c && c ≤ '9'

/-- The number that digits write, the most significant first. -/
def digitsValue (ds : Text) : Nat := ds.foldl (fun n d => 10 * n + (d.toNat - '0'.toNat)) 0

/-- A number of at least one digit, possibly after a plus sign. -/
def decimal? (t : Text) : Option Nat :=
  let ds := match t with
    | '+' :: rest => rest
    | _ => t
  if ds.isEmpty || !ds.all isDigit then none else some (digitsValue ds)

theorem digitsValue_eq (ds : Text) : digitsValue ds = Nat.ofDigitChars 10 ds 0 :=
  Nat.ofDigitChars_eq_foldl.symm

theorem isDigit_eq (c : Char) : isDigit c = c.isDigit := by
  simp [isDigit, Char.isDigit, Char.le_def]

/-- Whether a code point lies in one of the ranges, which are ascending and include both ends. -/
def inRanges (ranges : List (Nat × Nat)) (n : Nat) : Bool :=
  ranges.any fun r => r.1 ≤ n && n ≤ r.2

end Text

end TagLedger
