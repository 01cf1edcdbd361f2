import Mathlib.Algebra.Order.Ring.Nat
import Mathlib.Tactic.Common
import TagLedger.Runner.Job

/-!
Delays in words of a machine. A base delay has 64 bits and the number of a retry 32; products are
taken in 128 bits. Every operation stays within its word, and what comes out is the exact delay: the
base doubled once for every retry before, up to the limit.
-/

namespace TagLedger.Runner

namespace Word

variable {v w : Nat} {x y : BitVec w}

section Operations

/-! Operations that have a value only if the exact result fits into the word. -/

/-- The shift has to be shorter than the word, and no bit may be lost. -/
def shiftLeft? (x : BitVec w) (k : BitVec v) : Option (BitVec w) :=
  if k.toNat < w ∧ x.toNat * 2 ^ k.toNat < 2 ^ w then some (x <<< k) else none

def mul? (x y : BitVec w) : Option (BitVec w) := if x.umulOverflow y then none else some (x * y)

def succ? (x : BitVec w) : Option (BitVec w) := if x.uaddOverflow 1#w then none else some (x + 1#w)

def resize? (v : Nat) (x : BitVec w) : Option (BitVec v) :=
  if x.toNat < 2 ^ v then some (x.setWidth v) else none

def least (x y : BitVec w) : BitVec w := if x ≤ y then x else y

@[simp] theorem toNat_least (x y : BitVec w) : (least x y).toNat = min x.toNat y.toNat := by
  unfold least
  split
  · rename_i h
    exact (Nat.min_eq_left (BitVec.le_def.mp h)).symm
  · rename_i h
    exact (Nat.min_eq_right (Nat.le_of_not_le (mt BitVec.le_def.mpr h))).symm

theorem exists_shiftLeft? {k : BitVec v} (hk : k.toNat < w)
    (h : x.toNat * 2 ^ k.toNat < 2 ^ w) :
    ∃ z, shiftLeft? x k = some z ∧ z.toNat = x.toNat * 2 ^ k.toNat := by
  refine ⟨x <<< k, if_pos ⟨hk, h⟩, ?_⟩
  rw [BitVec.shiftLeft_eq', BitVec.toNat_shiftLeft, Nat.shiftLeft_eq, Nat.mod_eq_of_lt h]

theorem exists_mul? (h : x.toNat * y.toNat < 2 ^ w) :
    ∃ z, mul? x y = some z ∧ z.toNat = x.toNat * y.toNat := by
  have hfits : ¬x.umulOverflow y = true := by simpa [BitVec.umulOverflow] using h
  exact ⟨x * y, if_neg hfits, BitVec.toNat_mul_of_not_umulOverflow hfits⟩

theorem exists_succ? (h : x.toNat + 1 < 2 ^ w) :
    ∃ z, succ? x = some z ∧ z.toNat = x.toNat + 1 := by
  have hone : (1#w).toNat = 1 := Nat.mod_eq_of_lt (show 1 < 2 ^ w by omega)
  have hfits : ¬x.uaddOverflow 1#w = true := by
    rw [BitVec.uaddOverflow, hone]
    simpa using h
  exact ⟨x + 1#w, if_neg hfits, by rw [BitVec.toNat_add_of_not_uaddOverflow hfits, hone]⟩

theorem exists_resize? (h : x.toNat < 2 ^ v) :
    ∃ z, resize? v x = some z ∧ z.toNat = x.toNat :=
  ⟨x.setWidth v, if_pos h, by rw [BitVec.toNat_setWidth, Nat.mod_eq_of_lt h]⟩

end Operations

/-- The delay as it is computed in words; none if an operation leaves its word. -/
def delay? (base : BitVec 64) (retries : BitVec 32) : Option (BitVec 64) := do
  let millis ← resize? 128 base
  if millis = 0#128 then
    return 0#64
  let factor ← shiftLeft? 1#128 (least retries (.ofNat 32 maxDoublings))
  let product ← mul? millis factor
  resize? 64 (least product (.ofNat 128 maxDelay))

end Word

variable {base : Nat}

/-- The product that is compared with the limit is far from being cut. -/
theorem product_lt (h : base < 2 ^ 64) (retries : Nat) :
    base * 2 ^ min retries maxDoublings < maxProduct := by
  have hpow : 2 ^ min retries maxDoublings ≤ 2 ^ maxDoublings :=
    Nat.pow_le_pow_right (by decide) (Nat.min_le_right _ _)
  calc base * 2 ^ min retries maxDoublings
      ≤ base * 2 ^ maxDoublings := Nat.mul_le_mul_left base hpow
    _ < 2 ^ 64 * 2 ^ maxDoublings := Nat.mul_lt_mul_of_pos_right h (by decide)
    _ < maxProduct := by decide

/-- The delay is the base doubled for every retry before, up to the limit: where doubling stops, the
limit has been reached. -/
theorem delay_eq (h : base < 2 ^ 64) (retries : Nat) :
    delay base retries = min (base * 2 ^ retries) maxDelay := by
  rcases Nat.eq_zero_or_pos base with rfl | hpos
  · simp [delay]
  have huncut := Nat.min_eq_left (Nat.le_of_lt (product_lt h retries))
  rw [delay, if_neg (Nat.ne_of_gt hpos), Nat.pow_eq, huncut]
  rcases Nat.le_total retries maxDoublings with hle | hle
  · rw [Nat.min_eq_left hle]
  · -- both sides are at the limit
    have hlimit {k : Nat} (hk : maxDoublings ≤ k) : maxDelay ≤ base * 2 ^ k := by
      have hpow : 2 ^ maxDoublings ≤ 2 ^ k := Nat.pow_le_pow_right (by decide) hk
      calc maxDelay
          ≤ 2 ^ maxDoublings := by decide
        _ ≤ 2 ^ k := hpow
        _ ≤ base * 2 ^ k := Nat.le_mul_of_pos_left _ hpos
    rw [Nat.min_eq_right hle, Nat.min_eq_right (hlimit (Nat.le_refl _)),
      Nat.min_eq_right (hlimit hle)]

example : (delay 250 0, delay 250 2, delay 250 30) = (250, 1000, maxDelay) := by decide

/-- Later delays are not shorter. -/
theorem delay_monotone (h : base < 2 ^ 64) : Monotone (delay base) := by
  intro m n hmn
  have hpow : 2 ^ m ≤ 2 ^ n := Nat.pow_le_pow_right (by decide) hmn
  rw [delay_eq h, delay_eq h]
  exact min_le_min_right maxDelay (Nat.mul_le_mul_left base hpow)

namespace Word

/-- The factor by which the base is multiplied. -/
theorem exists_factor? (retries : BitVec 32) :
    ∃ factor, shiftLeft? 1#128 (least retries (.ofNat 32 maxDoublings)) = some factor ∧
      factor.toNat = 2 ^ min retries.toNat maxDoublings := by
  have hdoublings : (least retries (.ofNat 32 maxDoublings)).toNat =
      min retries.toNat maxDoublings := toNat_least _ _
  have hle : min retries.toNat maxDoublings ≤ maxDoublings := Nat.min_le_right _ _
  have hpow : 2 ^ min retries.toNat maxDoublings < 2 ^ 128 :=
    Nat.pow_lt_pow_right (by decide) (Nat.lt_of_le_of_lt hle (by decide))
  rw [← hdoublings] at hle hpow ⊢
  obtain ⟨factor, hshift, hfactor⟩ := exists_shiftLeft? (x := 1#128)
    (Nat.lt_of_le_of_lt hle (by decide)) (by rwa [BitVec.toNat_one (by decide), Nat.one_mul])
  exact ⟨factor, hshift, by rwa [BitVec.toNat_one (by decide), Nat.one_mul] at hfactor⟩

/-- No operation leaves its word, and the result is the delay. -/
theorem exists_delay? (base : BitVec 64) (retries : BitVec 32) :
    ∃ wait, delay? base retries = some wait ∧ wait.toNat = delay base.toNat retries.toNat := by
  obtain ⟨millis, hmillis, hbase⟩ : ∃ z, resize? 128 base = some z ∧ z.toNat = base.toNat :=
    exists_resize? (Nat.lt_trans base.isLt (by decide))
  obtain ⟨factor, hshift, hfactor⟩ := exists_factor? retries
  have hexact : millis.toNat * factor.toNat =
      base.toNat * 2 ^ min retries.toNat maxDoublings := by rw [hbase, hfactor]
  have hsmall := product_lt base.isLt retries.toNat
  obtain ⟨product, hmul, hproduct⟩ : ∃ z, mul? millis factor = some z ∧
      z.toNat = millis.toNat * factor.toNat :=
    exists_mul? (hexact ▸ Nat.lt_trans hsmall (by decide))
  have hleast : (least product (.ofNat 128 maxDelay)).toNat = min product.toNat maxDelay :=
    toNat_least _ _
  obtain ⟨wait, hwait, hresult⟩ : ∃ z, resize? 64 (least product (.ofNat 128 maxDelay)) = some z ∧
      z.toNat = (least product (.ofNat 128 maxDelay)).toNat :=
    exists_resize? (hleast ▸ Nat.lt_of_le_of_lt (Nat.min_le_right _ _) (by decide))
  simp only [delay?, hmillis, hshift, hmul, Option.bind_eq_bind, Option.bind_some]
  by_cases hzero : millis = 0#128
  · have hnone : base.toNat = 0 := by rw [← hbase, hzero, BitVec.toNat_zero]
    exact ⟨0#64, if_pos hzero, by rw [delay, if_pos hnone, BitVec.toNat_zero]⟩
  · have hsome : base.toNat ≠ 0 := fun h => hzero (BitVec.eq_of_toNat_eq (hbase.trans h))
    have huncut := Nat.min_eq_left (Nat.le_of_lt (product_lt base.isLt retries.toNat))
    refine ⟨wait, by rw [if_neg hzero, hwait], ?_⟩
    rw [hresult, hleast, hproduct, hexact, delay, if_neg hsome, Nat.pow_eq, huncut]

end Word

end TagLedger.Runner
