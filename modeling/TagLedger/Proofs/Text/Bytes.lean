import Mathlib.Data.List.TakeWhile
import Mathlib.Tactic.Common
import TagLedger.Text.Basic

/-!
A text by its bytes. Offsets in bytes are safe to cut at only between two characters, and cutting
elsewhere fails. Reading byte after byte sees every ASCII character as it is, and for any other
character a few bytes that are no ASCII characters.
-/

namespace TagLedger.Text

def bytes (t : Text) : List UInt8 := t.flatMap String.utf8EncodeChar

@[simp] theorem bytes_cons (c : Char) (t : Text) :
    bytes (c :: t) = String.utf8EncodeChar c ++ bytes t :=
  rfl

@[simp] theorem bytes_append (s t : Text) : bytes (s ++ t) = bytes s ++ bytes t :=
  List.flatMap_append

@[simp] theorem length_bytes (t : Text) : (bytes t).length = byteSize t := by
  induction t with
  | nil => rfl
  | cons c t ih =>
    rw [bytes_cons, List.length_append, String.length_utf8EncodeChar, ih, byteSize_cons]

theorem drop_bytes (s t : Text) : (bytes (s ++ t)).drop (byteSize s) = bytes t := by
  rw [bytes_append, ← length_bytes s, List.drop_left]

/-- The text before and after an offset in bytes; none if the offset is inside a character or
beyond the end. -/
def splitAt? : Text → Nat → Option (Text × Text)
  | t, 0 => some ([], t)
  | [], _ + 1 => none
  | c :: t, n + 1 =>
    if c.utf8Size ≤ n + 1 then
      (splitAt? t (n + 1 - c.utf8Size)).map fun parts => (c :: parts.1, parts.2)
    else none

/-- The offsets a text can be cut at are the sizes of its beginnings. -/
theorem splitAt?_eq_some_iff {t : Text} {offset : Nat} {before after : Text} :
    splitAt? t offset = some (before, after) ↔ t = before ++ after ∧ offset = byteSize before := by
  induction t generalizing offset before with
  | nil =>
    cases offset with
    | zero => cases before <;> simp [splitAt?, eq_comm]
    | succ n => cases before <;> simp [splitAt?]
  | cons c t ih =>
    have hc := c.utf8Size_pos
    cases offset with
    | zero =>
      cases before with
      | nil => simp [splitAt?, eq_comm]
      | cons d before =>
        have hd := d.utf8Size_pos
        simp only [splitAt?, Option.some.injEq, Prod.mk.injEq, byteSize_cons]
        constructor
        · rintro ⟨h, -⟩
          cases h
        · rintro ⟨-, h⟩
          omega
    | succ n =>
      cases before with
      | nil => simp [splitAt?]
      | cons d before =>
        simp only [splitAt?, byteSize_cons, List.cons_append, List.cons.injEq]
        constructor
        · intro h
          split_ifs at h with hfits
          obtain ⟨⟨before', after'⟩, hsplit, heq⟩ := Option.map_eq_some_iff.mp h
          cases heq
          obtain ⟨ht, hn⟩ := ih.mp hsplit
          exact ⟨⟨rfl, ht⟩, by dsimp only; omega⟩
        · rintro ⟨⟨rfl, ht⟩, hn⟩
          have hrest : n + 1 - c.utf8Size = byteSize before := by omega
          rw [if_pos (by omega), ih.mpr ⟨ht, hrest⟩]
          rfl

theorem splitAt?_append (s t : Text) : splitAt? (s ++ t) (byteSize s) = some (s, t) :=
  splitAt?_eq_some_iff.mpr ⟨rfl, rfl⟩

/-- The text between two offsets in bytes, if it can be cut at both and the first is not behind
the second. -/
def slice? (t : Text) (start stop : Nat) : Option Text :=
  (splitAt? t stop).bind fun parts => (splitAt? parts.1 start).map (·.2)

theorem slice?_append (s t u : Text) :
    slice? (s ++ t ++ u) (byteSize s) (byteSize s + byteSize t) = some t := by
  rw [slice?, ← byteSize_append, splitAt?_append, Option.bind_some, splitAt?_append]
  rfl

def sign (b : UInt8) : Char := Char.ofUInt8 b

theorem toNat_sign (b : UInt8) : (sign b).val.toNat = b.toNat := rfl

/-- A test that does not tell apart what is beyond ASCII. -/
def Plain (p : Char → Bool) : Prop :=
  ∀ c d : Char, 128 ≤ c.val.toNat → 128 ≤ d.val.toNat → p c = p d

/-- The bytes of a character: the character itself, or bytes beyond ASCII. -/
theorem signs_utf8EncodeChar (c : Char) :
    (String.utf8EncodeChar c).map sign = [c] ∨
      128 ≤ c.val.toNat ∧ ∀ b ∈ String.utf8EncodeChar c, 128 ≤ (sign b).val.toNat := by
  by_cases hascii : c.val.toNat ≤ 127
  · left
    have hone : String.utf8EncodeChar c = [UInt8.ofNat c.val.toNat] := if_pos hascii
    have hsign : sign (UInt8.ofNat c.val.toNat) = c := by
      refine Char.ext (UInt32.toNat_inj.mp ?_)
      rw [toNat_sign, UInt8.toNat_ofNat']
      omega
    rw [hone, List.map_singleton, hsign]
  · refine .inr ⟨by omega, fun b hb => ?_⟩
    rw [toNat_sign]
    simp only [String.utf8EncodeChar, hascii, if_false] at hb
    split_ifs at hb <;> simp only [List.mem_cons, List.not_mem_nil, or_false] at hb
    · rcases hb with rfl | rfl <;> rw [UInt8.toNat_ofNat'] <;> omega
    · rcases hb with rfl | rfl | rfl <;> rw [UInt8.toNat_ofNat'] <;> omega
    · rcases hb with rfl | rfl | rfl | rfl <;> rw [UInt8.toNat_ofNat'] <;> omega

/-- All bytes of a character pass such a test or fail it as the character does. -/
theorem sign_of_mem {p : Char → Bool} (hp : Plain p) {c : Char} {b : UInt8}
    (hb : b ∈ String.utf8EncodeChar c) : p (sign b) = p c := by
  rcases signs_utf8EncodeChar c with hone | ⟨hc, hall⟩
  · have hmem : sign b ∈ (String.utf8EncodeChar c).map sign := List.mem_map_of_mem hb
    rw [hone, List.mem_singleton] at hmem
    rw [hmem]
  · exact hp _ _ (hall b hb) hc

/-- The bytes that pass such a test are those of the characters that pass it. -/
theorem takeWhile_bytes {p : Char → Bool} (hp : Plain p) (t : Text) :
    (bytes t).takeWhile (fun b => p (sign b)) = bytes (t.takeWhile p) := by
  induction t with
  | nil => rfl
  | cons c t ih =>
    rw [bytes_cons]
    cases hc : p c with
    | true =>
      have hall : ∀ b ∈ String.utf8EncodeChar c, p (sign b) = true := by
        intro b hb
        rw [sign_of_mem hp hb, hc]
      rw [List.takeWhile_append_of_pos hall, ih, List.takeWhile_cons_of_pos hc, bytes_cons]
    | false =>
      obtain ⟨b, rest, hbytes⟩ := List.exists_cons_of_ne_nil (String.utf8EncodeChar_ne_nil (c := c))
      have hb : p (sign b) = false := by
        rw [sign_of_mem hp (hbytes ▸ List.mem_cons_self), hc]
      rw [hbytes, List.cons_append, List.takeWhile_cons_of_neg (by simp [hb]),
        List.takeWhile_cons_of_neg (by simp [hc])]
      rfl

/-- The byte at an offset between two characters answers such a test as the character behind. -/
theorem getElem?_bytes (s : Text) (c : Char) (t : Text) :
    ∃ b, (bytes (s ++ c :: t))[byteSize s]? = some b ∧ ∀ p, Plain p → p (sign b) = p c := by
  obtain ⟨b, rest, hbytes⟩ := List.exists_cons_of_ne_nil (String.utf8EncodeChar_ne_nil (c := c))
  refine ⟨b, ?_, fun p hp => sign_of_mem hp (hbytes ▸ List.mem_cons_self)⟩
  rw [bytes_append, ← length_bytes s, List.getElem?_append_right (Nat.le_refl _), bytes_cons,
    hbytes]
  simp

/-- The first offset from a given one on whose byte does not pass a test. -/
def skip (p : Char → Bool) (bytes : List UInt8) (start : Nat) : Nat :=
  start + ((bytes.drop start).takeWhile fun b => p (sign b)).length

theorem skip_bytes {p : Char → Bool} (hp : Plain p) (s t : Text) :
    skip p (bytes (s ++ t)) (byteSize s) = byteSize (s ++ t.takeWhile p) := by
  rw [skip, drop_bytes, takeWhile_bytes hp, length_bytes, byteSize_append]

end TagLedger.Text
