import Mathlib.Tactic.Common
import TagLedger.Proofs.Markup.Padding
import TagLedger.Proofs.Markup.Sources
import TagLedger.Proofs.Text.Bytes

/-!
Tokens taken off by offsets in bytes. The buffer is read byte after byte, and what is read is cut
out between two offsets, which fails if one of them is inside a character. It never is: reading by
offsets gives for every buffer the tokens that reading by characters gives.
-/

namespace TagLedger.Markup

namespace Offsets

open Text (bytes sign skip splitAt? slice? byteSize)

/-- What the `<` at the start of a buffer turns out to be, a tag with its length. -/
inductive Scan where
  | complete (token : Token) (length : Nat)
  | undecided
  | noTag

inductive Stop where
  | found (offset : Nat)
  | undecided
  | tooLong

def findStop (quote : Option Char) (offset : Nat) : List UInt8 → Stop
  | [] => .undecided
  | b :: rest =>
    if quote = none ∧ sign b = '>' then .found offset
    else if maxTagLength < offset + 1 then .tooLong
    else findStop (quoteAfter quote (sign b)) (offset + 1) rest

/-- The end of a close tag, from the end of its name on. -/
def scanClosing (t name : Text) (nameStop : Nat) : Option Scan :=
  let stop := skip Text.isAsciiBlank (bytes t) nameStop
  match (bytes t)[stop]? with
  | none => return .undecided
  | some b =>
    if sign b = '>' then do
      let raw ← slice? t 0 (stop + 1)
      return .complete (.closing name raw) (stop + 1)
    else return .noTag

/-- The inside and the end of an open tag, from the end of its name on. -/
def scanOpening (t name : Text) (nameStop : Nat) : Option Scan := do
  let after ← (bytes t)[nameStop]?
  if !(Text.isAsciiBlank (sign after) || sign after == '>' || sign after == '/') then
    return .noTag
  else
    match findStop none nameStop ((bytes t).drop nameStop) with
    | .undecided => return .undecided
    | .tooLong => return .noTag
    | .found stop => do
      let inside ← slice? t (1 + byteSize name) stop
      let raw ← slice? t 0 (stop + 1)
      let (inner, selfClosing) := splitSlash inside
      return .complete (.opening name (readAttributes inner) selfClosing raw) (stop + 1)

def scanName (names : List Text) (t : Text) (closes : Bool) (nameStart : Nat) : Option Scan := do
  let nameStop := skip isNameChar (bytes t) nameStart
  let name ← slice? t nameStart nameStop
  if nameStop = (bytes t).length then
    return if couldBecomeTag names name then .undecided else .noTag
  else if name.isEmpty ∨ !names.contains name then return .noTag
  else if closes then scanClosing t name nameStop
  else scanOpening t name nameStop

def scanTag (names : List Text) (t : Text) : Option Scan :=
  if ((bytes t)[1]?.map sign) = some '/' then scanName names t true 2
  else scanName names t false 1

/-- The next token of a buffer and the rest of the buffer, if no more input is needed. It fails
where the buffer cannot be cut. -/
def next? (names : List Text) (t : Text) : Option (Option (Token × Text)) :=
  if t.isEmpty then return none
  else
    match (bytes t).findIdx? (fun b => sign b == '<') with
    | none => return some (.text t, [])
    | some 0 => do
      match ← scanTag names t with
      | .complete token length => do
        let parts ← splitAt? t length
        return some (token, parts.2)
      | .undecided => return none
      | .noTag => do
        let parts ← splitAt? t 1
        return some (.text ['<'], parts.2)
    | some start => do
      let parts ← splitAt? t start
      return some (.text parts.1, parts.2)

section Plain

open Text (Plain)

theorem plain_of_ascii {p : Char → Bool} (h : ∀ c, p c = true → c.val.toNat < 128) : Plain p := by
  have hfalse (c : Char) (hc : 128 ≤ c.val.toNat) : p c = false := by
    by_contra hp
    have := h c (by simpa using hp)
    omega
  intro c d hc hd
  rw [hfalse c hc, hfalse d hd]

theorem plain_beq {s : Char} (hs : s.val.toNat < 128) : Plain (· == s) := by
  refine plain_of_ascii fun c hc => ?_
  rwa [beq_iff_eq.mp hc]

theorem plain_isNameChar : Plain isNameChar := by
  refine plain_of_ascii fun c hc => ?_
  have hle := UInt32.le_iff_toNat_le.mp (Char.utf8Size_eq_one_iff.mp (utf8Size_of_isNameChar hc))
  exact Nat.lt_succ_of_le hle

theorem plain_isAsciiBlank : Plain Text.isAsciiBlank := by
  refine plain_of_ascii fun c hc => ?_
  simp only [Text.isAsciiBlank, Bool.or_eq_true, beq_iff_eq] at hc
  rcases hc with (((rfl | rfl) | rfl) | rfl) | rfl <;> decide

end Plain

section TagEnd

def AsciiQuote (quote : Option Char) : Prop := ∀ q, quote = some q → q.val.toNat < 128

theorem asciiQuote_quoteAfter {quote : Option Char} (h : AsciiQuote quote) (c : Char) :
    AsciiQuote (quoteAfter quote c) := by
  intro q hq
  cases quote with
  | none =>
    simp only [quoteAfter] at hq
    split_ifs at hq with hc
    cases hq
    rcases hc with rfl | rfl <;> decide
  | some r =>
    simp only [quoteAfter] at hq
    split_ifs at hq
    cases hq
    exact h q rfl

/-- What is beyond ASCII neither opens quotes nor closes them. -/
theorem quoteAfter_of_beyond {quote : Option Char} (h : AsciiQuote quote) {c : Char}
    (hc : 128 ≤ c.val.toNat) : quoteAfter quote c = quote := by
  have hne {d : Char} (hd : d.val.toNat < 128) : c ≠ d := by
    rintro rfl
    omega
  cases quote with
  | none =>
    have hdouble : c ≠ '"' := hne (by decide)
    have hsingle : c ≠ '\'' := hne (by decide)
    simp [quoteAfter, hdouble, hsingle]
  | some q => simp [quoteAfter, hne (h q rfl)]

/-- The bytes of a character beyond ASCII are passed over, unless they exceed the limit. -/
theorem findStop_beyond {quote : Option Char} (h : AsciiQuote quote) {bs : List UInt8}
    (hne : bs ≠ []) (hbs : ∀ b ∈ bs, 128 ≤ (sign b).val.toNat) (offset : Nat)
    (rest : List UInt8) :
    findStop quote offset (bs ++ rest) =
      if maxTagLength < offset + bs.length then .tooLong
      else findStop quote (offset + bs.length) rest := by
  induction bs generalizing offset with
  | nil => contradiction
  | cons b bs ih =>
    obtain ⟨hb, hmore⟩ := List.forall_mem_cons.mp hbs
    have hend : ¬ (quote = none ∧ sign b = '>') := by
      rintro ⟨-, heq⟩
      rw [heq] at hb
      exact absurd hb (by decide)
    have hfirst : findStop quote offset (b :: (bs ++ rest)) =
        if maxTagLength < offset + 1 then .tooLong
        else findStop quote (offset + 1) (bs ++ rest) := by
      rw [findStop, if_neg hend, quoteAfter_of_beyond h hb]
    rw [List.cons_append, hfirst, List.length_cons]
    by_cases hnil : bs = []
    · simp [hnil]
    · rw [ih hnil hmore, Nat.add_assoc, Nat.add_comm 1]
      by_cases hlong : maxTagLength < offset + 1
      · rw [if_pos hlong, if_pos (by omega)]
      · rw [if_neg hlong]

/-- The end of a tag as an offset. -/
def Stop.ofEnd (offset : Nat) : TagEnd → Stop
  | .found inside _ => .found (offset + byteSize inside)
  | .undecided => .undecided
  | .tooLong => .tooLong

theorem Stop.ofEnd_prepend (offset : Nat) (c : Char) (e : TagEnd) :
    Stop.ofEnd offset (e.prepend [c]) = Stop.ofEnd (offset + c.utf8Size) e := by
  cases e <;> simp [TagEnd.prepend, ofEnd, Nat.add_assoc]

/-- The end of a tag is found at the same place byte by byte. -/
theorem findStop_bytes {quote : Option Char} (h : AsciiQuote quote) (offset : Nat) (t : Text) :
    findStop quote offset (bytes t) = Stop.ofEnd offset (findTagEnd quote offset t) := by
  induction t generalizing quote offset with
  | nil => rfl
  | cons c t ih =>
    rw [findTagEnd_cons, Text.bytes_cons]
    rcases Text.signs_utf8EncodeChar c with hone | ⟨hc, hall⟩
    · obtain ⟨b, hb, rfl⟩ := List.map_eq_singleton_iff.mp hone
      have hsize : (sign b).utf8Size = 1 := by
        rw [← String.length_utf8EncodeChar, hb, List.length_singleton]
      rw [hb, List.singleton_append, findStop, hsize]
      split_ifs
      · rfl
      · rfl
      · rw [ih (asciiQuote_quoteAfter h (sign b)), Stop.ofEnd_prepend, hsize]
    · have hend : ¬ (quote = none ∧ c = '>') := by
        rintro ⟨-, rfl⟩
        exact absurd hc (by decide)
      rw [findStop_beyond h String.utf8EncodeChar_ne_nil hall, String.length_utf8EncodeChar,
        if_neg hend]
      split_ifs
      · rfl
      · rw [quoteAfter_of_beyond h hc, Stop.ofEnd_prepend, ih h]

end TagEnd

section Scan

/-- What a scan by characters says, with the length of a tag. -/
def Scan.ofScan : TagScan → Scan
  | .tag token _ => .complete token (byteSize token.source)
  | .undecided => .undecided
  | .noTag => .noTag

variable (names : List Text)

theorem byteSize_tag (t : Text) : byteSize (t ++ ['>']) = byteSize t + 1 := by
  have hsize : ('>' : Char).utf8Size = 1 := by decide
  rw [Text.byteSize_append, Text.byteSize_cons, hsize, Text.byteSize_nil]

/-- The text of a tag is what the buffer holds up to its end. -/
theorem slice?_tag (t rest : Text) :
    slice? (t ++ '>' :: rest) 0 (byteSize t + 1) = some (t ++ ['>']) := by
  rw [← byteSize_tag]
  simpa using Text.slice?_append [] (t ++ ['>']) rest

/-- The byte behind an offset between two characters is a sign of the tag syntax just when the
character is. -/
theorem getElem?_sign (s : Text) (c : Char) (t : Text) :
    ∃ b, (bytes (s ++ c :: t))[byteSize s]? = some b ∧
      Text.isAsciiBlank (sign b) = Text.isAsciiBlank c ∧
      ∀ d : Char, d.val.toNat < 128 → (sign b = d ↔ c = d) := by
  obtain ⟨b, hb, hplain⟩ := Text.getElem?_bytes s c t
  refine ⟨b, hb, hplain _ plain_isAsciiBlank, fun d hd => ?_⟩
  have heq := hplain _ (plain_beq hd)
  rw [← beq_iff_eq, heq, beq_iff_eq]

/-- The end of a close tag by offsets, the text split behind the name. -/
theorem scanClosing_append (before name after : Text) :
    scanClosing (before ++ after) name (byteSize before) =
      some (match after.dropWhile Text.isAsciiBlank with
        | [] => .undecided
        | '>' :: _ =>
          let raw := before ++ after.takeWhile Text.isAsciiBlank ++ ['>']
          .complete (.closing name raw) (byteSize raw)
        | _ => .noTag) := by
  have hstop : skip Text.isAsciiBlank (bytes (before ++ after)) (byteSize before) =
      byteSize (before ++ after.takeWhile Text.isAsciiBlank) :=
    Text.skip_bytes plain_isAsciiBlank before after
  have hsplit : before ++ after = before ++ after.takeWhile Text.isAsciiBlank ++
      after.dropWhile Text.isAsciiBlank := by
    rw [List.append_assoc, List.takeWhile_append_dropWhile]
  rw [scanClosing, hstop, hsplit]
  generalize before ++ after.takeWhile Text.isAsciiBlank = read
  cases hrest : after.dropWhile Text.isAsciiBlank with
  | nil =>
    have hnone : (bytes (read ++ []))[byteSize read]? = none := by
      rw [List.append_nil, List.getElem?_eq_none_iff, Text.length_bytes]
    rw [hnone]
    rfl
  | cons c rest =>
    obtain ⟨b, hb, -, hsign⟩ := getElem?_sign read c rest
    simp only [hb, hsign '>' (by decide)]
    by_cases hc : c = '>'
    · subst hc
      simp only [if_true, slice?_tag, byteSize_tag]
      rfl
    · simp [hc]

/-- The inside and the end of an open tag by offsets, the text split behind the name. -/
theorem scanOpening_append (name : Text) (c : Char) (after : Text) :
    scanOpening ('<' :: name ++ c :: after) name (byteSize ('<' :: name)) =
      some (if !(Text.isAsciiBlank c || c == '>' || c == '/') then .noTag
        else match findTagEnd none (byteSize ('<' :: name)) (c :: after) with
          | .undecided => .undecided
          | .tooLong => .noTag
          | .found inside _ =>
            let raw := '<' :: name ++ inside ++ ['>']
            .complete (.opening name (readAttributes (splitSlash inside).1) (splitSlash inside).2
              raw) (byteSize raw)) := by
  have hsize : ('<' : Char).utf8Size = 1 := by decide
  obtain ⟨b, hb, hblank, hsign⟩ := getElem?_sign ('<' :: name) c after
  have hquote : AsciiQuote none := fun q hq => nomatch hq
  have hgt : (sign b == '>') = (c == '>') := by simp [hsign '>' (by decide)]
  have hslash : (sign b == '/') = (c == '/') := by simp [hsign '/' (by decide)]
  rw [scanOpening, hb, Text.drop_bytes, findStop_bytes hquote]
  simp only [Option.bind_eq_bind, Option.bind_some, hblank, hgt, hslash]
  split_ifs
  · rfl
  cases hend : findTagEnd none (byteSize ('<' :: name)) (c :: after) with
  | undecided => rfl
  | tooLong => rfl
  | found inside rest =>
    have hsplit : '<' :: name ++ c :: after = '<' :: name ++ inside ++ '>' :: rest := by
      rw [findTagEnd_splits hend, List.append_assoc]
    have hinside : slice? ('<' :: name ++ inside ++ '>' :: rest) (1 + byteSize name)
        (byteSize ('<' :: name ++ inside)) = some inside := by
      rw [← hsize, Text.byteSize_append]
      exact Text.slice?_append ('<' :: name) inside ('>' :: rest)
    simp only [Stop.ofEnd, hsplit, hinside, ← Text.byteSize_append, slice?_tag, byteSize_tag,
      Option.bind_some]
    rfl

/-- A name by offsets, the text split before it. -/
theorem scanName_append (before : Text) (closes : Bool) (u : Text) :
    scanName names (before ++ u) closes (byteSize before) =
      let name := u.takeWhile isNameChar
      let after := u.dropWhile isNameChar
      if after = [] then some (if couldBecomeTag names name then .undecided else .noTag)
      else if name.isEmpty ∨ !names.contains name then some .noTag
      else if closes then scanClosing (before ++ name ++ after) name (byteSize (before ++ name))
      else scanOpening (before ++ name ++ after) name (byteSize (before ++ name)) := by
  have hsplit : before ++ u = before ++ u.takeWhile isNameChar ++ u.dropWhile isNameChar := by
    rw [List.append_assoc, List.takeWhile_append_dropWhile]
  have hstop := Text.skip_bytes plain_isNameChar before u
  rw [hsplit] at hstop ⊢
  generalize u.takeWhile isNameChar = name, u.dropWhile isNameChar = after at hstop ⊢
  have hname : slice? (before ++ name ++ after) (byteSize before) (byteSize (before ++ name)) =
      some name := by
    rw [Text.byteSize_append]
    exact Text.slice?_append before name after
  have hend : byteSize (before ++ name) = (bytes (before ++ name ++ after)).length ↔
      after = [] := by
    rw [Text.length_bytes, Text.byteSize_append _ after]
    have hle := length_le_byteSize after
    constructor
    · intro h
      exact List.eq_nil_of_length_eq_zero (by omega)
    · intro h
      simp [h]
  rw [scanName, hstop, hname]
  exact if_congr hend rfl rfl

theorem scanName_closing (u : Text) :
    scanName names ('<' :: '/' :: u) true 2 = some (Scan.ofScan (Markup.scanClosing names u)) := by
  have hname := scanName_append names ['<', '/'] true u
  have hsize : byteSize ['<', '/'] = 2 := by decide
  rw [hsize] at hname
  refine hname.trans ?_
  simp only [scanClosing_append, Markup.scanClosing, List.isEmpty_iff, if_true]
  split_ifs
  · rfl
  · rfl
  · rfl
  · cases (u.dropWhile isNameChar).dropWhile Text.isAsciiBlank with
    | nil => rfl
    | cons c rest =>
      by_cases hc : c = '>'
      · subst hc
        simp [Scan.ofScan, Token.source]
      · simp [Scan.ofScan, hc]

theorem scanName_opening (u : Text) :
    scanName names ('<' :: u) false 1 = some (Scan.ofScan (Markup.scanOpening names u)) := by
  have hname := scanName_append names ['<'] false u
  have hsize : byteSize ['<'] = 1 := by decide
  rw [hsize] at hname
  refine hname.trans ?_
  have hlength : byteSize ('<' :: u.takeWhile isNameChar) =
      1 + (u.takeWhile isNameChar).length := by
    rw [← List.singleton_append, Text.byteSize_append, hsize,
      byteSize_of_isNameChar fun c hc => List.mem_takeWhile_imp hc]
  simp only [Markup.scanOpening]
  cases hafter : u.dropWhile isNameChar with
  | nil =>
    simp only [if_true]
    split_ifs <;> rfl
  | cons c after =>
    have hopening := scanOpening_append (u.takeWhile isNameChar) c after
    rw [hlength] at hopening
    simp only [List.cons_append, List.nil_append, hlength, reduceCtorEq, Bool.false_eq_true,
      if_false]
    rw [← List.cons_append, hopening]
    split_ifs
    · rfl
    · rfl
    · cases findTagEnd none (1 + (u.takeWhile isNameChar).length) (c :: after) with
      | found inside rest => rfl
      | undecided => rfl
      | tooLong => rfl

/-- The scan of a tag by offsets never fails, and finds what the scan by characters finds. -/
theorem scanTag_cons (t : Text) :
    scanTag names ('<' :: t) = some (Scan.ofScan (Markup.scanTag names t)) := by
  have hsize : byteSize ['<'] = 1 := by decide
  have hslash : (bytes ('<' :: t))[1]?.map sign = some '/' ↔ t.head? = some '/' := by
    cases t with
    | nil => decide
    | cons c t =>
      obtain ⟨b, hb, -, hsign⟩ := getElem?_sign ['<'] c t
      rw [hsize] at hb
      rw [← List.singleton_append, hb]
      simp [hsign '/' (by decide)]
  rw [scanTag, if_congr hslash rfl rfl]
  by_cases hcloses : t.head? = some '/'
  · obtain ⟨u, rfl⟩ := List.head?_eq_some_iff.mp hcloses
    rw [if_pos hcloses, scanName_closing]
    rfl
  · rw [if_neg hcloses, scanName_opening, scanTag_eq_scanOpening hcloses]

/-- The first `<` byte of a text stands where its first `<` does. -/
theorem findIdx?_bytes (t : Text) :
    (bytes t).findIdx? (fun b => sign b == '<') =
      if t.dropWhile (· != '<') = [] then none else some (byteSize (t.takeWhile (· != '<'))) := by
  have hplain : Text.Plain (· != '<') := by
    intro c d hc hd
    have heq : (c == '<') = (d == '<') := plain_beq (by decide) c d hc hd
    simp only [bne, heq]
  have hbefore : ∀ b ∈ bytes (t.takeWhile (· != '<')), (sign b == '<') = false := by
    rw [← Text.takeWhile_bytes hplain]
    intro b hb
    simpa using List.mem_takeWhile_imp hb
  have hsplit : bytes t =
      bytes (t.takeWhile (· != '<')) ++ bytes (t.dropWhile (· != '<')) := by
    rw [← Text.bytes_append, List.takeWhile_append_dropWhile]
  rw [hsplit, List.findIdx?_append, List.findIdx?_eq_none_iff.mpr hbefore, Text.length_bytes,
    Option.none_or]
  cases hrest : t.dropWhile (· != '<') with
  | nil => rfl
  | cons c rest =>
    have hc : c = '<' := by
      have hstop := List.head?_dropWhile_not (· != '<') t
      rw [hrest] at hstop
      simpa using hstop
    subst hc
    have hbyte : String.utf8EncodeChar '<' = [60] := by decide
    have hsign : (sign 60 == '<') = true := by decide
    rw [Text.bytes_cons, hbyte, List.singleton_append, List.findIdx?_cons, if_pos hsign]
    simp

/-- Reading by offsets never cuts inside a character, and takes off the token that reading by
characters takes off. -/
theorem next?_eq (t : Text) : next? names t = some (nextToken? names t) := by
  cases t with
  | nil => rfl
  | cons c t =>
    rw [next?, List.isEmpty_cons, if_neg Bool.false_ne_true, findIdx?_bytes]
    by_cases hc : c = '<'
    · subst hc
      have htake : ('<' :: t).takeWhile (· != '<') = [] := List.takeWhile_cons_of_neg (by decide)
      have hdrop : ('<' :: t).dropWhile (· != '<') = '<' :: t :=
        List.dropWhile_cons_of_neg (by decide)
      rw [htake, hdrop, if_neg (List.cons_ne_nil _ _), Text.byteSize_nil, scanTag_cons, nextToken?]
      cases hscan : Markup.scanTag names t with
      | tag token rest =>
        have hcut := Text.splitAt?_append token.source rest
        rw [← scanTag_splits hscan] at hcut
        simp [Scan.ofScan, hcut]
      | undecided => rfl
      | noTag =>
        have hcut : splitAt? ('<' :: t) 1 = some (['<'], t) := Text.splitAt?_append ['<'] t
        simp [Scan.ofScan, hcut]
    · have hpos : (c != '<') = true := by simpa using hc
      have htake : (c :: t).takeWhile (· != '<') = c :: t.takeWhile (· != '<') :=
        List.takeWhile_cons_of_pos hpos
      have hdrop : (c :: t).dropWhile (· != '<') = t.dropWhile (· != '<') :=
        List.dropWhile_cons_of_pos hpos
      have hsplit : t.takeWhile (· != '<') ++ t.dropWhile (· != '<') = t :=
        List.takeWhile_append_dropWhile
      rw [nextToken?_text names hc, htake, hdrop]
      by_cases hrest : t.dropWhile (· != '<') = []
      · rw [hrest, List.append_nil] at hsplit
        simp [hrest, hsplit]
      · have hcut := Text.splitAt?_append (c :: t.takeWhile (· != '<')) (t.dropWhile (· != '<'))
        rw [List.cons_append, hsplit] at hcut
        have hsize := c.utf8Size_pos
        obtain ⟨n, hn⟩ : ∃ n, byteSize (c :: t.takeWhile (· != '<')) = n + 1 :=
          Nat.exists_eq_succ_of_ne_zero (by rw [Text.byteSize_cons]; omega)
        rw [if_neg hrest, hn]
        rw [hn] at hcut
        simp [hcut]

end Scan

end Offsets

end TagLedger.Markup
