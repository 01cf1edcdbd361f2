import TagLedger.Markup.Attribute

/-!
Tokens of tagged text. Only tags whose name is in a fixed vocabulary are tags, everything else is
text. A token is taken from the buffer only when no further input can change it.
-/

namespace TagLedger.Markup

inductive Token where
  | text (content : Text)
  | opening (name : Text) (attributes : Attributes) (selfClosing : Bool) (raw : Text)
  | closing (name : Text) (raw : Text)
deriving DecidableEq, Repr

/-- The input a token was made from. -/
def Token.source : Token → Text
  | .text t => t
  | .opening _ _ _ raw => raw
  | .closing _ raw => raw

/-- An open tag that is not closed within this many bytes is text. -/
def maxTagLength : Nat := 4096

def isNameChar (c : Char) : Bool := c.isAlphanum || c == '_' || c == '-' || c == ':'

/-- What the start of a text, a `<` sign, turns out to be. -/
inductive TagScan where
  | tag (token : Token) (rest : Text)
  | undecided
  | noTag

/-- The end of an open tag. -/
inductive TagEnd where
  | found (inside rest : Text)
  | undecided
  | tooLong

/-- Looks for the first `>` outside quotes. The offset counts bytes from the start of the tag. -/
def findTagEnd (quote : Option Char) (offset : Nat) : Text → TagEnd
  | [] => .undecided
  | c :: t =>
    if quote = none ∧ c = '>' then .found [] t
    else
      let quote' :=
        match quote with
        | some q => if c = q then none else some q
        | none => if c = '"' ∨ c = '\'' then some c else none
      if maxTagLength < offset + c.utf8Size then .tooLong
      else
        match findTagEnd quote' (offset + c.utf8Size) t with
        | .found inside rest => .found (c :: inside) rest
        | .undecided => .undecided
        | .tooLong => .tooLong

/-- Splits a final slash off the inside of an open tag. -/
def splitSlash (inside : Text) : Text × Bool :=
  match (Text.trimRight inside).reverse with
  | '/' :: before => (before.reverse, true)
  | _ => (Text.trimRight inside, false)

/-- Whether some name of the vocabulary begins with the given text. -/
def couldBecomeTag (names : List Text) (start : Text) : Bool :=
  names.any fun n => start.isPrefixOf n

def scanClosing (names : List Text) (t : Text) : TagScan :=
  let name := t.takeWhile isNameChar
  let afterName := t.dropWhile isNameChar
  if afterName.isEmpty then
    if couldBecomeTag names name then .undecided else .noTag
  else if name.isEmpty ∨ !names.contains name then .noTag
  else
    match afterName.dropWhile Text.isAsciiBlank with
    | [] => .undecided
    | '>' :: rest =>
      .tag (.closing name
        ('<' :: '/' :: (name ++ afterName.takeWhile Text.isAsciiBlank ++ ['>']))) rest
    | _ => .noTag

def scanOpening (names : List Text) (t : Text) : TagScan :=
  let name := t.takeWhile isNameChar
  match t.dropWhile isNameChar with
  | [] => if couldBecomeTag names name then .undecided else .noTag
  | c :: afterName =>
    if name.isEmpty ∨ !names.contains name then .noTag
    else if !(Text.isAsciiBlank c || c == '>' || c == '/') then .noTag
    else
      match findTagEnd none (1 + name.length) (c :: afterName) with
      | .undecided => .undecided
      | .tooLong => .noTag
      | .found inside rest =>
        let (inner, selfClosing) := splitSlash inside
        .tag (.opening name (readAttributes inner) selfClosing
          ('<' :: (name ++ inside ++ ['>']))) rest

def scanTag (names : List Text) : Text → TagScan
  | '/' :: t => scanClosing names t
  | t => scanOpening names t

/-- The next token of a buffer and the rest of the buffer; none if more input is needed. -/
def nextToken? (names : List Text) : Text → Option (Token × Text)
  | [] => none
  | '<' :: t =>
    match scanTag names t with
    | .tag token rest => some (token, rest)
    | .undecided => none
    | .noTag => some (.text ['<'], t)
  | c :: t => some (.text (c :: t.takeWhile (· != '<')), t.dropWhile (· != '<'))

theorem findTagEnd_length {quote : Option Char} {offset : Nat} {t inside rest : Text}
    (h : findTagEnd quote offset t = .found inside rest) : rest.length < t.length := by
  induction t generalizing quote offset inside with
  | nil => simp [findTagEnd] at h
  | cons c t ih =>
    unfold findTagEnd at h
    split at h
    · cases h
      simp
    · dsimp only at h
      split at h
      · cases h
      · split at h
        · rename_i heq
          cases h
          have := ih heq
          simp only [List.length_cons]
          omega
        · cases h
        · cases h

theorem scanTag_length {names : List Text} {t : Text} {token : Token} {rest : Text}
    (h : scanTag names t = .tag token rest) : rest.length < t.length + 1 := by
  have closing {u : Text} (h : scanClosing names u = .tag token rest) :
      rest.length < u.length + 1 := by
    unfold scanClosing at h
    dsimp only at h
    split at h
    · split at h <;> cases h
    · split at h
      · cases h
      · split at h
        · cases h
        · rename_i heq
          cases h
          have h1 := length_dropWhile_le Text.isAsciiBlank (u.dropWhile isNameChar)
          have h2 := length_dropWhile_le isNameChar u
          rw [heq] at h1
          simp only [List.length_cons] at h1
          omega
        · cases h
  have opening (h : scanOpening names t = .tag token rest) : rest.length < t.length + 1 := by
    unfold scanOpening at h
    dsimp only at h
    split at h
    · split at h <;> cases h
    · rename_i heq
      split at h
      · cases h
      · split at h
        · cases h
        · split at h
          · cases h
          · cases h
          · rename_i hend
            cases h
            have h1 := findTagEnd_length hend
            have h2 := length_dropWhile_le isNameChar t
            rw [heq] at h2
            omega
  unfold scanTag at h
  split at h
  · have := closing h
    simp only [List.length_cons]
    omega
  · exact opening h

/-- Every token uses up some input. -/
theorem nextToken?_length {names : List Text} {buffer rest : Text} {token : Token}
    (h : nextToken? names buffer = some (token, rest)) : rest.length < buffer.length := by
  unfold nextToken? at h
  split at h
  · cases h
  · split at h
    · rename_i heq
      cases h
      simpa using scanTag_length heq
    · cases h
    · cases h
      simp
  · cases h
    rename_i c t _
    have := length_dropWhile_le (· != '<') t
    simp only [List.length_cons]
    omega

/-- All tokens that a buffer holds, and what stays buffered. -/
def drain (names : List Text) (buffer : Text) : List Token × Text :=
  match _h : nextToken? names buffer with
  | none => ([], buffer)
  | some (token, rest) =>
    let later := drain names rest
    (token :: later.1, later.2)
termination_by buffer.length
decreasing_by exact nextToken?_length _h

/-- What is still buffered at the end of the input is text. -/
def flush : Text → Option Token
  | [] => none
  | t => some (.text t)

end TagLedger.Markup
