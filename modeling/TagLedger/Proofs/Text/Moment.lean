import Mathlib.Algebra.Group.Nat.Defs
import TagLedger.Proofs.Text.Calendar

/-!
The written form of points in time. Numbers are read back from their digits, one field after the
other, so a point in time is read back from its text.
-/

namespace TagLedger

namespace Timestamp

open Text (isDigit isBlank digitsValue digitsValue_eq isDigit_eq trimLeft trimLeft_cons)

theorem padded_eq (width n : Nat) :
    padded width n = List.replicate (width - (Nat.toDigits 10 n).length) '0' ++
      Nat.toDigits 10 n := by
  simp [padded]

theorem all_isDigit_padded (width n : Nat) : ∀ c ∈ padded width n, isDigit c = true := by
  intro c hc
  rw [padded_eq, List.mem_append] at hc
  rcases hc with hzero | hdigit
  · rw [List.eq_of_mem_replicate hzero]
    decide
  · rw [isDigit_eq]
    exact Nat.isDigit_of_mem_toDigits (by decide) (by decide) hdigit

@[simp] theorem digitsValue_padded (width n : Nat) : digitsValue (padded width n) = n := by
  rw [digitsValue_eq, padded_eq, Nat.ofDigitChars_append, Nat.ofDigitChars_replicate_zero,
    Nat.mul_zero, Nat.ofDigitChars_ten_toDigits]

theorem padded_ne_nil (width n : Nat) : padded width n ≠ [] := by
  rw [padded_eq]
  exact List.append_ne_nil_of_right_ne_nil _ Nat.toDigits_ne_nil

theorem length_padded {width n : Nat} (hwidth : 0 < width) (h : n < 10 ^ width) :
    (padded width n).length = width := by
  have hle := (Nat.length_toDigits_le_iff (by decide : 1 < 10) hwidth).mpr h
  rw [padded_eq, List.length_append, List.length_replicate]
  omega

theorem isBlank_of_isDigit {c : Char} (h : isDigit c = true) : isBlank c = false := by
  simp only [isDigit, Bool.and_eq_true, decide_eq_true_eq, Char.le_def, UInt32.le_iff_toNat_le] at h
  change 48 ≤ c.val.toNat ∧ c.val.toNat ≤ 57 at h
  by_contra hblank
  simp only [Bool.not_eq_false, isBlank, Bool.or_eq_true, Bool.and_eq_true, decide_eq_true_eq,
    beq_iff_eq] at hblank
  omega

theorem padded_eq_cons (width n : Nat) :
    ∃ c ds, padded width n = c :: ds ∧ isDigit c = true := by
  cases hds : padded width n with
  | nil => exact absurd hds (padded_ne_nil width n)
  | cons c ds =>
    exact ⟨c, ds, rfl, all_isDigit_padded width n c (by rw [hds]; exact List.mem_cons_self)⟩

/-- No blanks stand before digits. -/
theorem trimLeft_padded (width n : Nat) (t : Text) :
    trimLeft (padded width n ++ t) = padded width n ++ t := by
  obtain ⟨c, ds, hds, hc⟩ := padded_eq_cons width n
  rw [hds]
  exact trimLeft_cons (isBlank_of_isDigit hc) _

/-- Digits are read up to the width, or up to what is no digit. -/
theorem number_padded {width limit n : Nat} {t : Text} (hn : n < 2 ^ 63)
    (hfit : (padded width n).length ≤ limit)
    (hrest : (t.take (limit - (padded width n).length)).takeWhile isDigit = []) :
    number limit (padded width n ++ t) = .ok (n, t) := by
  have htake : ((padded width n ++ t).take limit).takeWhile isDigit = padded width n := by
    rw [List.take_append, List.take_of_length_le hfit,
      List.takeWhile_append_of_pos (all_isDigit_padded width n), hrest, List.append_nil]
  have hpos : (padded width n).isEmpty = false := by simp [padded_ne_nil]
  have hvalue : ¬ Nat.pow 2 63 ≤ n := Nat.not_le.mpr hn
  unfold number
  split
  · rename_i hnil
    exact absurd (List.append_eq_nil_iff.mp hnil).1 (padded_ne_nil width n)
  · simp only [htake, hpos, Bool.false_eq_true, if_false, digitsValue_padded, hvalue,
      List.drop_left]

theorem field_padded {lo hi n : Nat} (hlo : lo ≤ n) (hhi : n ≤ hi) (hn : n < 100) (t : Text) :
    field lo hi (padded 2 n ++ t) = .ok (n, t) := by
  have hlen := length_padded (n := n) (by decide : 0 < 2) hn
  have hnumber : number 2 (padded 2 n ++ t) = .ok (n, t) :=
    number_padded (by omega) hlen.le (by simp [hlen])
  rw [field, trimLeft_padded, hnumber]
  simp [bind, Except.bind, hlo, hhi]

theorem separator_cons {c : Char} (h : isBlank c = false) (t : Text) :
    separator c (c :: t) = .ok t := by
  simp [separator, trimLeft_cons h]

/-- The digits of a year end at the hyphen that follows. -/
theorem number_padded_hyphen {n : Nat} (hn : n < 2 ^ 63) (t : Text) :
    number (padded 4 n ++ '-' :: t).length (padded 4 n ++ '-' :: t) = .ok (n, '-' :: t) := by
  refine number_padded hn (by simp) ?_
  simp [isDigit]

theorem yearField_yearText {year : Int} (h : yearInRange year = true) (t : Text) :
    yearField (yearText year ++ '-' :: t) = .ok (year, '-' :: t) := by
  simp only [yearInRange, Bool.and_eq_true, decide_eq_true_eq] at h
  simp only [firstYear, lastYear] at h
  have hrange : -2147483648 ≤ year ∧ year < 2147483648 := by omega
  by_cases hplain : 0 ≤ year ∧ year ≤ 9999
  · have hlen := length_padded (n := year.toNat) (by decide : 0 < 4) (by omega)
    have hnumber : number 4 (padded 4 year.toNat ++ '-' :: t) = .ok (year.toNat, '-' :: t) :=
      number_padded (by omega) hlen.le (by simp [hlen])
    have hback : ((year.toNat : Nat) : Int) = year := by omega
    obtain ⟨c, ds, hds, hc⟩ := padded_eq_cons 4 year.toNat
    rw [yearText, if_pos hplain, yearField, trimLeft_padded]
    split
    · rename_i hminus
      rw [hds] at hminus
      rw [(List.cons.inj hminus).1] at hc
      exact absurd hc (by decide)
    · rename_i hplus
      rw [hds] at hplus
      rw [(List.cons.inj hplus).1] at hc
      exact absurd hc (by decide)
    · simp only [hnumber, Except.map, bind, Except.bind, hback, if_pos hrange]
  · have hnumber := number_padded_hyphen (n := year.natAbs) (by omega) t
    rw [yearText, if_neg hplain, yearField]
    by_cases hsign : year < 0
    · have hback : -((year.natAbs : Nat) : Int) = year := by omega
      rw [if_pos hsign, List.cons_append, trimLeft_cons (by decide)]
      simp only [hnumber, Except.map, bind, Except.bind, hback, if_pos hrange]
    · have hback : ((year.natAbs : Nat) : Int) = year := by omega
      rw [if_neg hsign, List.cons_append, trimLeft_cons (by decide)]
      simp only [hnumber, Except.map, bind, Except.bind, hback, if_pos hrange]

def fractionText (nanos : Nat) : Text :=
  if nanos = 0 then []
  else if nanos % 1000000 = 0 then '.' :: padded 3 (nanos / 1000000)
  else if nanos % 1000 = 0 then '.' :: padded 6 (nanos / 1000)
  else '.' :: padded 9 nanos

theorem fraction_padded {width n : Nat} (hwidth : 0 < width) (hmax : width ≤ 9)
    (hn : n < 10 ^ width) :
    fraction ('.' :: (padded width n ++ ['Z'])) = .ok (n * Nat.pow 10 (9 - width), ['Z']) := by
  have hlen := length_padded hwidth hn
  have hbound : n < 2 ^ 63 := by
    have hpow := Nat.pow_le_pow_right (by decide : 0 < 10) hmax
    omega
  have hnumber : number 9 (padded width n ++ ['Z']) = .ok (n, ['Z']) := by
    refine number_padded hbound (hlen.le.trans hmax) ?_
    cases 9 - (padded width n).length <;> simp [isDigit]
  simp only [fraction, hnumber, bind, Except.bind]
  simp [hlen, isDigit]

theorem fraction_fractionText {nanos : Nat} (h : nanos < 1000000000) :
    fraction (fractionText nanos ++ ['Z']) = .ok (nanos, ['Z']) := by
  unfold fractionText
  split
  · rename_i hzero
    rw [hzero]
    rfl
  split
  · rename_i hmillis
    rw [List.cons_append, fraction_padded (by decide) (by decide) (by omega)]
    simp only [Nat.pow_eq, Except.ok.injEq, Prod.mk.injEq, and_true]
    omega
  split
  · rename_i hmicros
    rw [List.cons_append, fraction_padded (by decide) (by decide) (by omega)]
    simp only [Nat.pow_eq, Except.ok.injEq, Prod.mk.injEq, and_true]
    omega
  · rw [List.cons_append, fraction_padded (by decide) (by decide) (by omega)]
    simp

/-- Whether a point in time can be written: its year is in range, and a leap second follows the last
second of a minute. -/
structure IsWritable (t : Timestamp) : Prop where
  inRange : t.inRange = true
  nanos : t.nanos < 2000000000
  leap : 1000000000 ≤ t.nanos → t.seconds % 60 = 59

instance (t : Timestamp) : Decidable t.IsWritable :=
  decidable_of_iff (t.inRange = true ∧ t.nanos < 2000000000 ∧
      (1000000000 ≤ t.nanos → t.seconds % 60 = 59))
    ⟨fun ⟨hr, hn, hl⟩ => ⟨hr, hn, hl⟩, fun h => ⟨h.inRange, h.nanos, h.leap⟩⟩

theorem offset_utc : offset (trimLeft ['Z']) = .ok (0, []) := by decide

theorem daysInMonth_le (year : Int) (month : Nat) : daysInMonth year month ≤ 31 := by
  unfold daysInMonth
  split_ifs <;> decide

def dateTimeText (year : Int) (month day hour minute second nanos : Nat) : Text :=
  yearText year ++ '-' :: (padded 2 month ++ '-' :: (padded 2 day ++ 'T' ::
    (padded 2 hour ++ ':' :: (padded 2 minute ++ ':' ::
      (padded 2 second ++ (fractionText nanos ++ ['Z']))))))

def ofDateTime (year : Int) (month day hour minute second nanos : Nat) : Timestamp :=
  ⟨daysFromDate year month day * 86400 +
      (hour * 3600 + minute * 60 + (if second == 60 then 59 else second : Nat)) - 0,
    if second == 60 then nanos + 1000000000 else nanos⟩

theorem parse_dateTimeText {year : Int} {month day hour minute second nanos : Nat}
    (hyear : yearInRange year = true) (hmonth : 1 ≤ month ∧ month ≤ 12)
    (hday : 1 ≤ day ∧ day ≤ daysInMonth year month) (hhour : hour ≤ 23) (hminute : minute ≤ 59)
    (hsecond : second ≤ 60) (hnanos : nanos < 1000000000)
    (hrange : (ofDateTime year month day hour minute second nanos).inRange = true) :
    parse (dateTimeText year month day hour minute second nanos) =
      .ok (ofDateTime year month day hour minute second nanos) := by
  have hday31 : day ≤ 31 := hday.2.trans (daysInMonth_le year month)
  rw [parse, dateTimeText, yearField_yearText hyear]
  simp only [bind, Except.bind, separator_cons (show isBlank '-' = false by decide),
    separator_cons (show isBlank ':' = false by decide),
    field_padded hmonth.1 hmonth.2 (by omega), field_padded hday.1 hday31 (by omega),
    field_padded (Nat.zero_le hour) hhour (by omega),
    field_padded (Nat.zero_le minute) hminute (by omega),
    field_padded (Nat.zero_le second) hsecond (by omega), fraction_fractionText hnanos, offset_utc,
    true_or, if_true]
  rw [if_neg (by decide), if_neg (by simp [hyear, hday.2]), if_neg (by decide)]
  exact if_pos hrange

theorem toText_eq (t : Timestamp) :
    t.toText =
      let days := t.seconds.fdiv 86400
      let s := (t.seconds - days * 86400).toNat
      dateTimeText (dateFromDays days).1 (dateFromDays days).2.1 (dateFromDays days).2.2 (s / 3600)
        (s / 60 % 60) (s % 60 + if 1000000000 ≤ t.nanos then 1 else 0)
        (if 1000000000 ≤ t.nanos then t.nanos - 1000000000 else t.nanos) := by
  simp only [toText, dateTimeText, fractionText, List.append_assoc]

/-- The time of day of a point in time, on the day it falls on. -/
theorem ofDateTime_timeOfDay {t : Timestamp} (h : t.IsWritable) {date : Int × Nat × Nat} {s : Nat}
    (hdate : daysFromDate date.1 date.2.1 date.2.2 = t.seconds.fdiv 86400)
    (hsum : t.seconds = t.seconds.fdiv 86400 * 86400 + s) :
    ofDateTime date.1 date.2.1 date.2.2 (s / 3600) (s / 60 % 60)
      (s % 60 + if 1000000000 ≤ t.nanos then 1 else 0)
      (if 1000000000 ≤ t.nanos then t.nanos - 1000000000 else t.nanos) = t := by
  obtain ⟨seconds, nanos⟩ := t
  obtain ⟨-, -, hleap⟩ := h
  simp only at hdate hsum hleap ⊢
  rw [ofDateTime, hdate]
  generalize seconds.fdiv 86400 = days at *
  by_cases hbig : 1000000000 ≤ nanos
  · have hlast := hleap hbig
    have hsixty : s % 60 + 1 = 60 := by omega
    simp only [if_pos hbig, hsixty, beq_self_eq_true, if_true, Timestamp.mk.injEq]
    omega
  · have hother : (s % 60 + 0 == 60) = false := by
      rw [beq_eq_false_iff_ne]
      omega
    simp only [if_neg hbig, hother, Bool.false_eq_true, if_false, Timestamp.mk.injEq, and_true]
    omega

/-- A point in time is read back from its written form. -/
theorem parse_toText {t : Timestamp} (h : t.IsWritable) : parse t.toText = .ok t := by
  have hrange := h.inRange
  have hnanos := h.nanos
  have hdays : daysFromDate firstYear 1 1 ≤ t.seconds.fdiv 86400 ∧
      t.seconds.fdiv 86400 ≤ daysFromDate lastYear 12 31 := by
    simp only [inRange, Bool.and_eq_true, decide_eq_true_eq] at hrange
    rw [Int.fdiv_eq_ediv_of_nonneg _ (by decide)]
    omega
  have hyear := yearInRange_dateFromDays hdays.1 hdays.2
  obtain ⟨hm1, hm12, hd1, hdmax, hback⟩ := daysFromDate_dateFromDays (t.seconds.fdiv 86400)
  obtain ⟨s, hs, hsecond, hsum⟩ : ∃ s : Nat, s < 86400 ∧
      (t.seconds - t.seconds.fdiv 86400 * 86400).toNat = s ∧
      t.seconds = t.seconds.fdiv 86400 * 86400 + s := by
    rw [Int.fdiv_eq_ediv_of_nonneg _ (by decide)]
    exact ⟨_, by omega, rfl, by omega⟩
  have hpoint := ofDateTime_timeOfDay h hback hsum
  rw [toText_eq]
  simp only [hsecond]
  rw [parse_dateTimeText hyear ⟨hm1, hm12⟩ ⟨hd1, hdmax⟩ (by omega) (by omega)
    (by split <;> omega) (by split <;> omega) (by rw [hpoint]; exact hrange), hpoint]

end Timestamp

end TagLedger
