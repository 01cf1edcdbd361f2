import Mathlib.Algebra.Group.Nat.Defs
import Mathlib.Tactic.Common
import TagLedger.Uuid

/-!
The written form of identifiers: an identifier is read back from it, so that no two have the same.
-/

namespace TagLedger

namespace Uuid

/-- The last `k` hexadecimal digits of a number. -/
def hexText (k n : Nat) : Text :=
  (List.range k).map fun i => Text.hexDigit (n / Nat.pow 16 (k - 1 - i) % 16)

theorem hexDigits_eq (u : Uuid) : u.hexDigits = hexText 32 u.value.toNat := rfl

@[simp] theorem length_hexText (k n : Nat) : (hexText k n).length = k := by simp [hexText]

theorem hexText_succ (k n : Nat) :
    hexText (k + 1) n = hexText k (n / 16) ++ [Text.hexDigit (n % 16)] := by
  rw [hexText, hexText, List.range_succ, List.map_append]
  congr 1
  · refine List.map_congr_left fun i hi => ?_
    have hi := List.mem_range.mp hi
    have hexp : k + 1 - 1 - i = k - 1 - i + 1 := by omega
    rw [hexp, Nat.pow_eq, Nat.pow_eq, Nat.pow_succ', Nat.div_div_eq_div_mul]
  · simp [Nat.pow_eq]

theorem hexText_eq_cons (k n : Nat) :
    hexText (k + 1) n = Text.hexDigit (n / Nat.pow 16 k % 16) :: (hexText (k + 1) n).tail := by
  simp [hexText, List.range_succ_eq_map]

theorem hexValue?_hexDigit {d : Nat} (h : d < 16) : hexValue? (Text.hexDigit d) = some d := by
  have hall : ∀ d < 16, hexValue? (Text.hexDigit d) = some d := by decide
  exact hall d h

theorem ofHex?_hexText {k n : Nat} (h : n < 16 ^ k) : ofHex? (hexText k n) = some n := by
  induction k generalizing n with
  | zero =>
    have hn : n = 0 := by simpa using h
    rw [hn]
    rfl
  | succ k ih =>
    have hdiv : n / 16 < 16 ^ k := Nat.div_lt_of_lt_mul (by rwa [← Nat.pow_succ'])
    have hprefix : (hexText k (n / 16)).foldlM (fun acc c => (hexValue? c).map (acc * 16 + ·)) 0 =
        some (n / 16) := ih hdiv
    have hmod := hexValue?_hexDigit (Nat.mod_lt n (by decide : 0 < 16))
    rw [hexText_succ, ofHex?, List.foldlM_append, hprefix]
    simp [hmod, Nat.div_add_mod']

/-- A digit begins no frame. -/
theorem unframed?_hexDigit {d : Nat} (h : d < 16) (t : Text) :
    unframed? (Text.hexDigit d :: t) = none := by
  have hall : ∀ d < 16, Text.hexDigit d ≠ '\x7b' ∧ (Text.hexDigit d).toLower ≠ 'u' := by decide
  obtain ⟨hbrace, hu⟩ := hall d h
  have hurn : "urn:uuid:".toList = 'u' :: "rn:uuid:".toList := by decide
  unfold unframed?
  split
  · rename_i heq
    exact absurd (List.cons.inj heq).1 hbrace
  · rw [hurn, List.take_succ_cons, List.map_cons, if_neg]
    intro heq
    exact hu (List.cons.inj heq).1

theorem core_toText (u : Uuid) : core u.toText = u.toText := by
  have hcons : u.toText = Text.hexDigit (u.value.toNat / Nat.pow 16 31 % 16) :: u.toText.tail := by
    rw [toText, hexDigits_eq, hexText_eq_cons]
    rfl
  rw [core, hcons, unframed?_hexDigit (Nat.mod_lt _ (by decide))]

theorem length_hexDigits (u : Uuid) : u.hexDigits.length = 32 := length_hexText 32 _

/-- The digits in groups of 8, 4, 4, 4 and the rest. -/
theorem groups_append (ds : Text) :
    ds.take 8 ++ ((ds.drop 8).take 4 ++ ((ds.drop 12).take 4 ++
      ((ds.drop 16).take 4 ++ ds.drop 20))) = ds := by
  have h16 : (ds.drop 16).take 4 ++ ds.drop 20 = ds.drop 16 := by
    simpa using List.take_append_drop 4 (ds.drop 16)
  have h12 : (ds.drop 12).take 4 ++ ds.drop 16 = ds.drop 12 := by
    simpa using List.take_append_drop 4 (ds.drop 12)
  have h8 : (ds.drop 8).take 4 ++ ds.drop 12 = ds.drop 8 := by
    simpa using List.take_append_drop 4 (ds.drop 8)
  rw [h16, h12, h8, List.take_append_drop]

theorem digits?_toText (u : Uuid) : digits? u.toText = some u.hexDigits := by
  have hds := u.length_hexDigits
  have hlen : u.toText.length = 36 := by simp [toText, hds]
  have hhyphens : hyphenated u.toText = true := by
    simp [hyphenated, hyphenatedSize, hyphenPlaces, toText, List.getElem?_append, hds]
  rw [digits?, if_neg (by rw [hlen]; decide), core_toText]
  simp only [hhyphens, if_true]
  simp [toText, List.drop_append, List.drop_take, hds, groups_append]

/-- An identifier is read back from its written form. -/
theorem parse_toText (u : Uuid) : parse u.toText = .ok u := by
  have hlt : u.value.toNat < 16 ^ 32 := Nat.lt_of_lt_of_eq u.value.isLt (by decide)
  rw [parse, digits?_toText, Option.bind_some, hexDigits_eq, ofHex?_hexText hlt]
  simp

end Uuid

end TagLedger
