import Mathlib.Data.Char
import Mathlib.Data.List.Lex
import Mathlib.Data.List.TakeWhile
import Mathlib.Tactic.Common
import TagLedger.Proofs.Markup.Chunking

/-!
Tags as they are written, and how they are read back. The scanner finds the end of a written open
tag behind the quotes of its last value, the attributes are read as they were written, and the token
does not depend on the text behind the tag.
-/

namespace TagLedger.Markup

namespace Attributes

def Ascending (attributes : Attributes) : Prop := attributes.Pairwise fun a b => a.1 < b.1

theorem insert_perm {attributes : Attributes} {name : Text} (value : Text)
    (h : name ∉ attributes.map (·.1)) :
    (attributes.insert name value).Perm ((name, value) :: attributes) := by
  induction attributes with
  | nil => exact List.Perm.refl _
  | cons a rest ih =>
    simp only [List.map_cons, List.mem_cons, not_or] at h
    simp only [insert, if_neg (Ne.symm h.1)]
    split_ifs
    · exact List.Perm.refl _
    · exact ((ih h.2).cons a).trans (List.Perm.swap _ _ _)

theorem Ascending.insert {attributes : Attributes} {name : Text} (value : Text)
    (hasc : attributes.Ascending) (h : name ∉ attributes.map (·.1)) :
    (attributes.insert name value).Ascending := by
  induction attributes with
  | nil => simp [Attributes.insert, Ascending]
  | cons a rest ih =>
    have hperm := insert_perm value (fun hm => h (List.mem_cons_of_mem _ hm))
    simp only [List.map_cons, List.mem_cons, not_or] at h
    obtain ⟨hfirst, hrest⟩ := List.pairwise_cons.mp hasc
    simp only [Attributes.insert, if_neg (Ne.symm h.1)]
    split_ifs with hlt
    · refine List.pairwise_cons.mpr ⟨?_, hasc⟩
      intro b hb
      rcases List.mem_cons.mp hb with rfl | hb
      · exact hlt
      · exact lt_trans hlt (hfirst b hb)
    · have hgt : a.1 < name := lt_of_le_of_ne (not_lt.mp hlt) (Ne.symm h.1)
      refine List.pairwise_cons.mpr ⟨?_, ih hrest h.2⟩
      intro b hb
      rcases List.mem_cons.mp (hperm.mem_iff.mp hb) with rfl | hb
      · exact hgt
      · exact hfirst b hb

/-- Attributes of different names are collected as they are, in the order of their names. -/
theorem foldl_insert {pairs : List (Text × Text)} {attributes : Attributes}
    (hasc : attributes.Ascending) (h : ((attributes ++ pairs).map (·.1)).Nodup) :
    (pairs.foldl (fun acc p => acc.insert p.1 p.2) attributes).Ascending ∧
      (pairs.foldl (fun acc p => acc.insert p.1 p.2) attributes).Perm (attributes ++ pairs) := by
  induction pairs generalizing attributes with
  | nil => simpa using hasc
  | cons a pairs ih =>
    have hmove : (attributes ++ a :: pairs).Perm (a :: attributes ++ pairs) := List.perm_middle
    have hnodup : ((a :: attributes ++ pairs).map (·.1)).Nodup := (hmove.map _).nodup_iff.mp h
    have hnew : a.1 ∉ attributes.map (·.1) := by
      intro hm
      simp only [List.cons_append, List.map_cons, List.map_append, List.nodup_cons] at hnodup
      exact hnodup.1 (List.mem_append_left _ hm)
    have hinsert := insert_perm a.2 hnew
    have hnext := ih (hasc.insert a.2 hnew)
      (((hinsert.append_right pairs).map _).nodup_iff.mpr hnodup)
    exact ⟨hnext.1, hnext.2.trans ((hinsert.append_right pairs).trans hmove.symm)⟩

theorem ofList_ascending {pairs : List (Text × Text)} (h : (pairs.map (·.1)).Nodup) :
    (ofList pairs).Ascending :=
  (foldl_insert List.Pairwise.nil h).1

theorem ofList_perm {pairs : List (Text × Text)} (h : (pairs.map (·.1)).Nodup) :
    (ofList pairs).Perm pairs :=
  (foldl_insert List.Pairwise.nil h).2

end Attributes

def attributeText (a : Text × Text) : Text := ' ' :: (a.1 ++ '=' :: '"' :: (a.2 ++ ['"']))

def attributesText (attributes : List (Text × Text)) : Text := attributes.flatMap attributeText

def openTagText (tag : Text) (attributes : List (Text × Text)) : Text :=
  '<' :: (tag ++ (attributesText attributes ++ ['>']))

def closeTagText (tag : Text) : Text := '<' :: '/' :: (tag ++ ['>'])

@[simp] theorem attributesText_nil : attributesText [] = [] := rfl

@[simp] theorem attributesText_cons (a : Text × Text) (attributes : List (Text × Text)) :
    attributesText (a :: attributes) = attributeText a ++ attributesText attributes := rfl

def isAttributeName : Text → Bool
  | [] => false
  | c :: t => isNameStart c && t.all isNameRest

structure WritableAttribute (a : Text × Text) : Prop where
  name : isAttributeName a.1 = true
  value : '"' ∉ a.2

structure WritableTag (tag : Text) (attributes : List (Text × Text)) : Prop where
  each : ∀ a ∈ attributes, WritableAttribute a
  short : Text.byteSize (openTagText tag attributes) ≤ maxTagLength

instance (a : Text × Text) : Decidable (WritableAttribute a) :=
  decidable_of_iff (isAttributeName a.1 = true ∧ '"' ∉ a.2)
    ⟨fun h => ⟨h.1, h.2⟩, fun h => ⟨h.name, h.value⟩⟩

instance (tag : Text) (attributes : List (Text × Text)) : Decidable (WritableTag tag attributes) :=
  decidable_of_iff ((∀ a ∈ attributes, WritableAttribute a) ∧
      Text.byteSize (openTagText tag attributes) ≤ maxTagLength)
    ⟨fun h => ⟨h.1, h.2⟩, fun h => ⟨h.each, h.short⟩⟩

def Pronounceable (names : List Text) : Prop :=
  ∀ n ∈ names, n ≠ [] ∧ ∀ c ∈ n, isNameChar c = true

instance (names : List Text) : Decidable (Pronounceable names) :=
  decidable_of_iff (∀ n ∈ names, n ≠ [] ∧ n.all isNameChar = true) (by simp [Pronounceable])

theorem untilQuote_append {q : Char} {v : Text} (h : q ∉ v) (rest : Text) :
    untilQuote q (v ++ q :: rest) = some (v, rest) := by
  induction v with
  | nil => simp [untilQuote]
  | cons c v ih =>
    simp only [List.mem_cons, not_or] at h
    simp [untilQuote, Ne.symm h.1, ih h.2]

theorem attributeTail_text {v : Text} (h : '"' ∉ v) (rest : Text) :
    attributeTail ('=' :: '"' :: (v ++ '"' :: rest)) = (v, rest) := by
  have hequals : Text.isBlank '=' = false := by decide
  have hquote : Text.isBlank '"' = false := by decide
  simp [attributeTail, attributeValue?, Text.trimLeft, hequals, hquote, untilQuote_append h]

/-- Written attributes are read as they are. -/
theorem attributePairs_text {attributes : List (Text × Text)}
    (h : ∀ a ∈ attributes, WritableAttribute a) :
    attributePairs (attributesText attributes) = attributes := by
  induction attributes with
  | nil => simp [attributePairs]
  | cons a attributes ih =>
    obtain ⟨name, value⟩ := a
    have ha := h (name, value) List.mem_cons_self
    have hname := ha.name
    cases name with
    | nil => cases hname
    | cons c name =>
      simp only [isAttributeName, Bool.and_eq_true, List.all_eq_true] at hname
      have hblank : isNameStart ' ' = false := by decide
      have hequals : isNameRest '=' = false := by decide
      have htail := attributeTail_text ha.value (attributesText attributes)
      have hrest := ih fun b hb => h b (List.mem_cons_of_mem _ hb)
      simp [attributeText, attributePairs, hblank, hname.1, List.takeWhile_append_of_pos hname.2,
        List.dropWhile_append_of_pos hname.2, hequals, htail, hrest]

/-- The end of a tag with more of its inside in front. -/
def TagEnd.prepend (t : Text) : TagEnd → TagEnd
  | .found inside rest => .found (t ++ inside) rest
  | .undecided => .undecided
  | .tooLong => .tooLong

@[simp] theorem TagEnd.prepend_prepend (t u : Text) (e : TagEnd) :
    (e.prepend u).prepend t = e.prepend (t ++ u) := by
  cases e <;> simp [prepend]

@[simp] theorem TagEnd.prepend_eq_undecided (t : Text) (e : TagEnd) :
    e.prepend t = .undecided ↔ e = .undecided := by
  cases e <;> simp [prepend]

/-- The quotes that are open behind a sign, given those that are open before it. -/
def quoteAfter (quote : Option Char) (c : Char) : Option Char :=
  match quote with
  | some q => if c = q then none else some q
  | none => if c = '"' ∨ c = '\'' then some c else none

theorem findTagEnd_cons (quote : Option Char) (offset : Nat) (c : Char) (t : Text) :
    findTagEnd quote offset (c :: t) =
      if quote = none ∧ c = '>' then .found [] t
      else if maxTagLength < offset + c.utf8Size then .tooLong
      else (findTagEnd (quoteAfter quote c) (offset + c.utf8Size) t).prepend [c] := by
  have hbehind (q : Option Char) : (match findTagEnd q (offset + c.utf8Size) t with
      | .found inside rest => TagEnd.found (c :: inside) rest
      | .undecided => .undecided
      | .tooLong => .tooLong) = (findTagEnd q (offset + c.utf8Size) t).prepend [c] := by
    cases findTagEnd q (offset + c.utf8Size) t <;> rfl
  exact if_congr Iff.rfl rfl (if_congr Iff.rfl rfl (hbehind (quoteAfter quote c)))

/-- What the search for the end of a tag does at a sign: it ends there, gives up, or goes on. -/
theorem findTagEnd_sign (quote : Option Char) (offset : Nat) (c : Char) :
    (c = '>' ∧ ∀ t, findTagEnd quote offset (c :: t) = .found [] t) ∨
      (maxTagLength < offset + c.utf8Size ∧ ∀ t, findTagEnd quote offset (c :: t) = .tooLong) ∨
      (offset + c.utf8Size ≤ maxTagLength ∧ ∀ t, findTagEnd quote offset (c :: t) =
        (findTagEnd (quoteAfter quote c) (offset + c.utf8Size) t).prepend [c]) := by
  by_cases hend : quote = none ∧ c = '>'
  · exact .inl ⟨hend.2, fun t => by rw [findTagEnd_cons, if_pos hend]⟩
  by_cases hlong : maxTagLength < offset + c.utf8Size
  · exact .inr (.inl ⟨hlong, fun t => by rw [findTagEnd_cons, if_neg hend, if_pos hlong]⟩)
  · exact .inr (.inr ⟨Nat.le_of_not_lt hlong, fun t => by
      rw [findTagEnd_cons, if_neg hend, if_neg hlong]⟩)

/-- The characters that neither end a tag nor open or close quotes. -/
def Quiet : Option Char → Char → Prop
  | some q, c => c ≠ q
  | none, c => c ≠ '>' ∧ c ≠ '"' ∧ c ≠ '\''

theorem findTagEnd_quiet {quote : Option Char} {offset : Nat} {t : Text}
    (ht : ∀ c ∈ t, Quiet quote c) (hshort : offset + Text.byteSize t ≤ maxTagLength) (u : Text) :
    findTagEnd quote offset (t ++ u) =
      (findTagEnd quote (offset + Text.byteSize t) u).prepend t := by
  induction t generalizing offset with
  | nil => cases h : findTagEnd quote offset u <;> simp [h, TagEnd.prepend]
  | cons c t ih =>
    have hc := ht c List.mem_cons_self
    simp only [Text.byteSize_cons] at hshort
    have hshort' : offset + c.utf8Size + Text.byteSize t ≤ maxTagLength := by omega
    have hrest := ih (fun d hd => ht d (List.mem_cons_of_mem _ hd)) hshort'
    have hlong : ¬ maxTagLength < offset + c.utf8Size := by omega
    simp only [List.cons_append, findTagEnd, Text.byteSize_cons, ← Nat.add_assoc]
    cases quote with
    | none =>
      simp only [Quiet] at hc
      simp only [hc, hlong, or_self, and_false, if_false, hrest]
      cases findTagEnd none (offset + c.utf8Size + Text.byteSize t) u <;> rfl
    | some q =>
      simp only [Quiet] at hc
      simp only [hc, hlong, reduceCtorEq, false_and, if_false, hrest]
      cases findTagEnd (some q) (offset + c.utf8Size + Text.byteSize t) u <;> rfl

/-- A quote sign opens quotes or closes them. -/
theorem findTagEnd_quote {offset : Nat} (hshort : offset + 1 ≤ maxTagLength) (u : Text) :
    findTagEnd none offset ('"' :: u) = (findTagEnd (some '"') (offset + 1) u).prepend ['"'] ∧
      findTagEnd (some '"') offset ('"' :: u) =
        (findTagEnd none (offset + 1) u).prepend ['"'] := by
  have hsize : ('"' : Char).utf8Size = 1 := by decide
  have hlong : ¬ maxTagLength < offset + 1 := by omega
  constructor
  · cases h : findTagEnd (some '"') (offset + 1) u <;>
      simp [findTagEnd, hsize, hlong, h, TagEnd.prepend]
  · cases h : findTagEnd none (offset + 1) u <;>
      simp [findTagEnd, hsize, hlong, h, TagEnd.prepend]

theorem quiet_of_isNameRest {c : Char} (h : isNameRest c = true) : Quiet none c := by
  refine ⟨?_, ?_, ?_⟩
  · rintro rfl
    exact absurd h (by decide)
  · rintro rfl
    exact absurd h (by decide)
  · rintro rfl
    exact absurd h (by decide)

theorem isNameRest_of_isAttributeName {name : Text} (h : isAttributeName name = true) :
    ∀ c ∈ name, isNameRest c = true := by
  cases name with
  | nil => cases h
  | cons c name =>
    simp only [isAttributeName, Bool.and_eq_true, List.all_eq_true] at h
    intro d hd
    rcases List.mem_cons.mp hd with rfl | hd
    · have hstart := h.1
      simp only [isNameStart, Bool.or_eq_true] at hstart
      simp only [isNameRest, Bool.or_eq_true, Char.isAlphanum]
      grind
    · exact h.2 d hd

theorem findTagEnd_attributeText {a : Text × Text} (h : WritableAttribute a) {offset : Nat}
    (hshort : offset + Text.byteSize (attributeText a) ≤ maxTagLength) (u : Text) :
    findTagEnd none offset (attributeText a ++ u) =
      (findTagEnd none (offset + Text.byteSize (attributeText a)) u).prepend
        (attributeText a) := by
  obtain ⟨name, value⟩ := a
  have hsize : Text.byteSize (attributeText (name, value)) =
      Text.byteSize (' ' :: (name ++ ['='])) + 1 + Text.byteSize value + 1 := by
    have hquote : ('"' : Char).utf8Size = 1 := by decide
    simp only [attributeText, Text.byteSize_cons, Text.byteSize_append, Text.byteSize_nil, hquote]
    omega
  have hbefore : ∀ c ∈ ' ' :: (name ++ ['=']), Quiet none c := by
    intro c hc
    simp only [List.mem_cons, List.mem_append, List.not_mem_nil, or_false] at hc
    rcases hc with rfl | hc | rfl
    · simp [Quiet]
    · exact quiet_of_isNameRest (isNameRest_of_isAttributeName h.name c hc)
    · simp [Quiet]
  have hinside : ∀ c ∈ value, Quiet (some '"') c := by
    rintro c hc rfl
    exact h.value hc
  have htext : attributeText (name, value) ++ u =
      (' ' :: (name ++ ['='])) ++ ('"' :: (value ++ ('"' :: u))) := by simp [attributeText]
  rw [hsize] at hshort ⊢
  rw [htext, findTagEnd_quiet hbefore (by omega), (findTagEnd_quote (by omega) _).1,
    findTagEnd_quiet hinside (by omega), (findTagEnd_quote (by omega) _).2]
  simp only [TagEnd.prepend_prepend, Nat.add_assoc]
  simp [attributeText]

theorem findTagEnd_attributesText {attributes : List (Text × Text)}
    (h : ∀ a ∈ attributes, WritableAttribute a) {offset : Nat}
    (hshort : offset + Text.byteSize (attributesText attributes) ≤ maxTagLength) :
    findTagEnd none offset (attributesText attributes ++ ['>']) =
      .found (attributesText attributes) [] := by
  induction attributes generalizing offset with
  | nil => simp [findTagEnd]
  | cons a attributes ih =>
    rw [attributesText_cons, Text.byteSize_append, ← Nat.add_assoc] at hshort
    have hfirst : offset + Text.byteSize (attributeText a) ≤ maxTagLength := by omega
    have ha := findTagEnd_attributeText (h a List.mem_cons_self) hfirst
    rw [attributesText_cons, List.append_assoc, ha,
      ih (fun b hb => h b (List.mem_cons_of_mem _ hb)) hshort]
    rfl

theorem splitSlash_attributesText (attributes : List (Text × Text)) :
    splitSlash (attributesText attributes) = (attributesText attributes, false) := by
  rcases List.eq_nil_or_concat attributes with rfl | ⟨before, a, rfl⟩
  · rfl
  · have hquote : Text.isBlank '"' = false := by decide
    simp [splitSlash, attributesText, attributeText, Text.trimRight, hquote]

theorem takeWhile_name {tag : Text} (htag : ∀ c ∈ tag, isNameChar c = true) {c : Char}
    (hc : isNameChar c = false) (u : Text) : (tag ++ c :: u).takeWhile isNameChar = tag := by
  rw [List.takeWhile_append_of_pos htag]
  simp [hc]

theorem dropWhile_name {tag : Text} (htag : ∀ c ∈ tag, isNameChar c = true) {c : Char}
    (hc : isNameChar c = false) (u : Text) :
    (tag ++ c :: u).dropWhile isNameChar = c :: u := by
  rw [List.dropWhile_append_of_pos htag]
  simp [hc]

/-- A text that begins with a name is no close tag. -/
theorem head?_name_append {tag : Text} (hne : tag ≠ []) (htag : ∀ c ∈ tag, isNameChar c = true)
    (u : Text) : (tag ++ u).head? ≠ some '/' := by
  cases tag with
  | nil => contradiction
  | cons c tag =>
    intro hslash
    obtain rfl : c = '/' := Option.some.inj hslash
    exact absurd (htag '/' List.mem_cons_self) (by decide)

theorem length_le_byteSize (t : Text) : t.length ≤ Text.byteSize t := by
  induction t with
  | nil => simp
  | cons c t ih =>
    have hc := c.utf8Size_pos
    simp only [List.length_cons, Text.byteSize_cons]
    omega

section Tokens

variable {names : List Text} {tag : Text} {attributes : List (Text × Text)}

/-- What comes after the name in a written open tag. -/
theorem attributesText_stop (attributes : List (Text × Text)) :
    ∃ c u, attributesText attributes ++ ['>'] = c :: u ∧ isNameChar c = false ∧
      (Text.isAsciiBlank c || c == '>' || c == '/') = true := by
  cases attributes with
  | nil => exact ⟨'>', [], rfl, by decide, by decide⟩
  | cons a attributes => exact ⟨' ', _, rfl, by decide, by decide⟩

theorem scanOpening_text (hnames : Pronounceable names) (htag : tag ∈ names)
    (h : WritableTag tag attributes) :
    scanOpening names (tag ++ (attributesText attributes ++ ['>'])) =
      .tag (.opening tag (Attributes.ofList attributes) false (openTagText tag attributes)) [] := by
  obtain ⟨hne, hchars⟩ := hnames tag htag
  obtain ⟨c, u, hstop, hc, hafter⟩ := attributesText_stop attributes
  have hend : findTagEnd none (1 + tag.length) (c :: u) =
      .found (attributesText attributes) [] := by
    have hless : Text.byteSize ['<'] = 1 := by decide
    have hshort := h.short
    have hlength := length_le_byteSize tag
    rw [openTagText, ← List.singleton_append] at hshort
    simp only [Text.byteSize_append, hless] at hshort
    rw [← hstop]
    exact findTagEnd_attributesText h.each (by omega)
  have hname : ¬ (tag.isEmpty = true ∨ (!names.contains tag) = true) := by simp [hne, htag]
  have hread : readAttributes (attributesText attributes) = Attributes.ofList attributes := by
    rw [readAttributes, attributePairs_text h.each]
  rw [hstop]
  simp only [scanOpening, takeWhile_name hchars hc, dropWhile_name hchars hc, hend, hafter,
    splitSlash_attributesText, if_neg hname, Bool.not_true, Bool.false_eq_true, if_false, hread,
    openTagText, List.append_assoc]

theorem nextToken?_openTagText (hnames : Pronounceable names) (htag : tag ∈ names)
    (h : WritableTag tag attributes) (b : Text) :
    nextToken? names (openTagText tag attributes ++ b) =
      some (.opening tag (Attributes.ofList attributes) false (openTagText tag attributes), b) := by
  obtain ⟨hne, hchars⟩ := hnames tag htag
  have hscan := scanOpening_text hnames htag h
  have hopening : scanTag names (tag ++ (attributesText attributes ++ ['>'])) =
      scanOpening names (tag ++ (attributesText attributes ++ ['>'])) :=
    scanTag_eq_scanOpening (head?_name_append hne hchars _)
  have halone : nextToken? names (openTagText tag attributes) = some
      (.opening tag (Attributes.ofList attributes) false (openTagText tag attributes), []) := by
    rw [openTagText, nextToken?, hopening, hscan]
    rfl
  exact nextToken?_append b halone

theorem nextToken?_closeTagText (hne : tag ≠ []) (hchars : ∀ c ∈ tag, isNameChar c = true)
    (htag : tag ∈ names) (b : Text) :
    nextToken? names (closeTagText tag ++ b) = some (.closing tag (closeTagText tag), b) := by
  have hclose : isNameChar '>' = false := by decide
  have hblank : Text.isAsciiBlank '>' = false := by decide
  have hscan : scanTag names ('/' :: (tag ++ ['>'])) =
      .tag (.closing tag (closeTagText tag)) [] := by
    simp [scanTag, scanClosing, takeWhile_name hchars hclose, dropWhile_name hchars hclose, hne,
      htag, hblank, closeTagText]
  have halone : nextToken? names (closeTagText tag) =
      some (.closing tag (closeTagText tag), []) := by
    rw [closeTagText, nextToken?, hscan]
    rfl
  exact nextToken?_append b halone

/-- A text is read as some tokens whatever follows it, up to how runs of text are split. -/
def ReadAs (names : List Text) (t : Text) (ts : List Token) : Prop :=
  ∀ b, (drain names (t ++ b)).2 = (drain names b).2 ∧
    atoms (drain names (t ++ b)).1 = atoms ts ++ atoms (drain names b).1

theorem ReadAs.nil (names : List Text) : ReadAs names [] [] := fun _ => ⟨rfl, rfl⟩

theorem ReadAs.append {t u : Text} {ts us : List Token} (h : ReadAs names t ts)
    (h' : ReadAs names u us) : ReadAs names (t ++ u) (ts ++ us) := by
  intro b
  have hfirst := h (u ++ b)
  have hthen := h' b
  rw [List.append_assoc, hfirst.1, hfirst.2, hthen.1, hthen.2, atoms_append, List.append_assoc]
  exact ⟨rfl, rfl⟩

theorem ReadAs.of_nextToken? {t : Text} {token : Token}
    (h : ∀ b, nextToken? names (t ++ b) = some (token, b)) : ReadAs names t [token] := by
  intro b
  rw [drain_of_some (h b)]
  simp

theorem readAs_text {t : Text} (h : '<' ∉ t) : ReadAs names t [.text t] := by
  cases t with
  | nil => exact fun _ => ⟨rfl, rfl⟩
  | cons c t =>
    simp only [List.mem_cons, not_or] at h
    have ht : ∀ d ∈ t, (d != '<') = true := by
      intro d hd
      simp only [bne_iff_ne]
      rintro rfl
      exact h.2 hd
    intro b
    simpa using drain_text names (Ne.symm h.1) ht b

theorem readAs_openTagText (hnames : Pronounceable names) (htag : tag ∈ names)
    (h : WritableTag tag attributes) :
    ReadAs names (openTagText tag attributes)
      [.opening tag (Attributes.ofList attributes) false (openTagText tag attributes)] :=
  .of_nextToken? (nextToken?_openTagText hnames htag h)

theorem readAs_closeTagText (hnames : Pronounceable names) (htag : tag ∈ names) :
    ReadAs names (closeTagText tag) [.closing tag (closeTagText tag)] :=
  .of_nextToken? (nextToken?_closeTagText (hnames tag htag).1 (hnames tag htag).2 htag)

end Tokens

/-- A parser takes the tokens that a text is read as. -/
theorem Parser.agree_feed_of_readAs {v : Vocabulary} {t : Text} {ts : List Token}
    (h : ReadAs v.names t ts) (first : Nat) :
    Agree ((new v first).feed t) ((new v first).applyAll ts) := by
  obtain ⟨hbuffer, hatoms⟩ := h []
  have hempty : drain v.names [] = ([], []) := drain_of_none rfl
  simp only [List.append_nil, hempty, atoms_nil] at hbuffer hatoms
  have hdrained : drain v.names t = ((drain v.names t).1, []) := by rw [← hbuffer]
  have hbuffered := (new v first).applyAll_withBuffer [] (drain v.names t).1
  rw [feed_eq (new v first) t hdrained, ← hbuffered]
  exact (new v first).applyAll_congr hatoms

end TagLedger.Markup
