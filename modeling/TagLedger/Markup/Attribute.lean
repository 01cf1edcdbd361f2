import TagLedger.Text.Blank

/-!
Attributes of an open tag. A name stands alone or is followed by `=` and a value in double quotes,
in single quotes or bare. Whatever is neither a name nor a value is passed over.
-/

namespace TagLedger.Markup

/-- Attribute values by name, the names in ascending order. -/
abbrev Attributes := List (Text × Text)

namespace Attributes

def insert : Attributes → Text → Text → Attributes
  | [], name, value => [(name, value)]
  | (n, v) :: rest, name, value =>
    if n = name then (name, value) :: rest
    else if name < n then (name, value) :: (n, v) :: rest
    else (n, v) :: insert rest name value

def ofList (pairs : List (Text × Text)) : Attributes :=
  pairs.foldl (fun acc p => acc.insert p.1 p.2) []

def get? (attributes : Attributes) (name : Text) : Option Text := attributes.lookup name

end Attributes

def isNameStart (c : Char) : Bool := c.isAlpha || c == '_' || c == ':'

def isNameRest (c : Char) : Bool := c.isAlphanum || c == '-' || c == '_' || c == ':' || c == '.'

def isBareValue (c : Char) : Bool :=
  !Text.isBlank c && c != '"' && c != '\'' && c != '=' && c != '<' && c != '>' && c != '\x60'

/-- The text up to a quote and the text after it, if the quote occurs. -/
def untilQuote (q : Char) : Text → Option (Text × Text)
  | [] => none
  | c :: t => if c = q then some ([], t) else (untilQuote q t).map fun r => (c :: r.1, r.2)

/-- The value after an `=` sign and the text after the value. -/
def attributeValue? (t : Text) : Option (Text × Text) :=
  match Text.trimLeft t with
  | [] => none
  | c :: rest =>
    if c = '"' ∨ c = '\'' then untilQuote c rest
    else
      let value := (c :: rest).takeWhile isBareValue
      if value.isEmpty then none else some (value, (c :: rest).dropWhile isBareValue)

/-- The value of an attribute, empty if it has none, and the text after it, given the text after
the name. -/
def attributeTail (t : Text) : Text × Text :=
  let t' := Text.trimLeft t
  match t' with
  | '=' :: rest => (attributeValue? rest).getD ([], t')
  | _ => ([], t')

theorem untilQuote_length {q : Char} {t v r : Text} (h : untilQuote q t = some (v, r)) :
    r.length ≤ t.length := by
  induction t generalizing v r with
  | nil => simp [untilQuote] at h
  | cons c t ih =>
    by_cases hc : c = q
    · simp [untilQuote, hc] at h
      simp [h.2]
    · simp only [untilQuote, if_neg hc, Option.map_eq_some_iff] at h
      obtain ⟨⟨v', r'⟩, hv, he⟩ := h
      have := ih hv
      simp only [Prod.mk.injEq] at he
      simp only [List.length_cons, ← he.2]
      omega

theorem length_dropWhile_le (p : Char → Bool) (t : Text) : (t.dropWhile p).length ≤ t.length :=
  (List.dropWhile_sublist p).length_le

theorem attributeValue?_length {t v r : Text} (h : attributeValue? t = some (v, r)) :
    r.length ≤ t.length := by
  have hl : (Text.trimLeft t).length ≤ t.length := length_dropWhile_le _ _
  unfold attributeValue? at h
  split at h
  · cases h
  · rename_i c rest heq
    rw [heq] at hl
    split at h
    · have := untilQuote_length h
      simp only [List.length_cons] at hl
      omega
    · dsimp only at h
      split at h
      · cases h
      · simp only [Option.some.injEq, Prod.mk.injEq] at h
        rw [← h.2]
        exact Nat.le_trans (length_dropWhile_le _ _) hl

theorem attributeTail_length (t : Text) : (attributeTail t).2.length ≤ t.length := by
  have hl : (Text.trimLeft t).length ≤ t.length := length_dropWhile_le _ _
  unfold attributeTail
  dsimp only
  split
  · rename_i rest heq
    cases hv : attributeValue? rest with
    | none => simpa using hl
    | some p =>
      have := attributeValue?_length (v := p.1) (r := p.2) hv
      rw [heq] at hl
      simp only [List.length_cons] at hl
      simp only [Option.getD_some]
      omega
  · exact hl

/-- The attributes written in the inside of a tag, in order and with repetitions. -/
def attributePairs : Text → List (Text × Text)
  | [] => []
  | c :: t =>
    if isNameStart c then
      let tail := attributeTail (t.dropWhile isNameRest)
      (c :: t.takeWhile isNameRest, tail.1) :: attributePairs tail.2
    else attributePairs t
termination_by t => t.length
decreasing_by
  · have h1 := attributeTail_length (t.dropWhile isNameRest)
    have h2 := length_dropWhile_le isNameRest t
    simp only [List.length_cons]
    omega
  · simp

/-- The attributes written in the inside of a tag. -/
def readAttributes (t : Text) : Attributes := Attributes.ofList (attributePairs t)

end TagLedger.Markup
