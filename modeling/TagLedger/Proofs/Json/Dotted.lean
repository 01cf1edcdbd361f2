import TagLedger.Proofs.Json.Write
import TagLedger.Proofs.Text.Pieces

/-!
Dotted spellings of paths. A typed path is spelled with points between its steps. Where a value
stands at the typed path, it is also found by the spelling: the segments of the spelling are the
steps again, and each value on the way takes its segment for a key or for an index as it should.
With this, a write is read back by the spelling of its path.
-/

namespace TagLedger

namespace Text

/-- A number is read back from its digits. -/
theorem decimal?_toDigits (n : Nat) : decimal? (Nat.toDigits 10 n) = some n := by
  have hdigits : ∀ c ∈ Nat.toDigits 10 n, isDigit c = true := by
    intro c hc
    rw [isDigit_eq]
    exact Nat.isDigit_of_mem_toDigits (by decide) (by decide) hc
  have hplus : ∀ rest, Nat.toDigits 10 n ≠ '+' :: rest := by
    intro rest heq
    have := hdigits '+' (by simp [heq])
    simp [isDigit] at this
  have hvalue : digitsValue (Nat.toDigits 10 n) = n := by
    rw [digitsValue_eq, Nat.ofDigitChars_ten_toDigits]
  unfold decimal?
  split
  · rename_i rest heq
    exact absurd heq (hplus rest)
  · have hempty : (Nat.toDigits 10 n).isEmpty = false := by simp [Nat.toDigits_ne_nil]
    have hall : (Nat.toDigits 10 n).all isDigit = true := List.all_eq_true.mpr hdigits
    simp [hempty, hall, hvalue]

end Text

/-- A step whose spelling is one segment: a key that is not empty and holds neither a point nor a
bracket, or an index of at most 64 bits. -/
def PathStep.IsPlain : PathStep → Prop
  | .key k => k ≠ "" ∧ '.' ∉ k.toList ∧ '[' ∉ k.toList ∧ ']' ∉ k.toList
  | .index i => i ≤ Path.maxIndex

namespace Path

variable {s : PathStep} {p : Path}

theorem toList_index (i : Nat) : (PathStep.index i).toString.toList = Nat.toDigits 10 i := by
  simp [PathStep.toString]

theorem isSeparator_of_isDigit {c : Char} (h : c.isDigit = true) : isSeparator c = false := by
  by_contra hsep
  simp only [Bool.not_eq_false, isSeparator, Bool.or_eq_true, beq_iff_eq] at hsep
  rcases hsep with (rfl | rfl) | rfl <;> simp at h

/-- The spelling of a plain step is a segment. -/
theorem segment_of_isPlain (h : s.IsPlain) :
    s.toString ≠ "" ∧ ∀ c ∈ s.toString.toList, isSeparator c = false := by
  cases s with
  | key k =>
    obtain ⟨hne, hpoint, hopen, hclose⟩ := h
    refine ⟨hne, fun c hc => ?_⟩
    have hc' : c ∈ k.toList := hc
    simp only [isSeparator, Bool.or_eq_false_iff, beq_eq_false_iff_ne]
    refine ⟨⟨?_, ?_⟩, ?_⟩ <;> rintro rfl <;> contradiction
  | index i =>
    constructor
    · intro hempty
      have := toList_index i
      simp [hempty, Nat.toDigits_ne_nil.symm] at this
    · intro c hc
      rw [toList_index] at hc
      exact isSeparator_of_isDigit (Nat.isDigit_of_mem_toDigits (by decide) (by decide) hc)

/-- The segments of a spelling are the steps. -/
theorem segments_dotted (h : ∀ s ∈ p, s.IsPlain) : segments p.dotted = p.map PathStep.toString := by
  cases p with
  | nil => simp [segments, dotted, Text.splitBy]
  | cons s p =>
    have hseparators : ∀ t ∈ (s :: p).map fun s => s.toString.toList, ∀ c ∈ t,
        isSeparator c = false := by
      intro t ht
      obtain ⟨s', hs', rfl⟩ := List.mem_map.mp ht
      exact (segment_of_isPlain (h s' hs')).2
    have hsplit : Text.splitBy isSeparator (dotted (s :: p)).toList =
        (s :: p).map fun s => s.toString.toList := by
      have htext : (dotted (s :: p)).toList =
          ['.'].intercalate ((s :: p).map fun s => s.toString.toList) := by
        simp only [dotted, String.toList_intercalate, List.map_map]
        rfl
      rw [htext]
      exact Text.splitBy_intercalate (by decide) (by simp) hseparators
    have hnonempty : ∀ t ∈ (s :: p).map fun s => s.toString.toList, (!t.isEmpty) = true := by
      intro t ht
      obtain ⟨s', hs', rfl⟩ := List.mem_map.mp ht
      simpa using (segment_of_isPlain (h s' hs')).1
    rw [segments, hsplit, List.filter_eq_self.mpr hnonempty, List.map_map]
    simp [Function.comp_def]

/-- An index is read back from its spelling. -/
theorem index?_toString {i : Nat} (h : i ≤ maxIndex) :
    index? (PathStep.index i).toString = some i := by
  simp [index?, toList_index, Text.decimal?_toDigits, h]

end Path

namespace Json

variable {j v : Json} {s : PathStep} {p : Path}

theorem stepFor?_toString {c : Json} (hs : s.IsPlain) (hc : j.child? s = some c) :
    j.stepFor? s.toString = some s := by
  cases s with
  | key k =>
    cases j with
    | obj ms => rfl
    | _ => simp [child?] at hc
  | index i =>
    cases j with
    | arr xs => simp [stepFor?, Path.index?_toString hs]
    | _ => simp [child?] at hc

/-- What stands at a path is found by following the spellings of its steps. -/
theorem follow?_of_at? (hp : ∀ s ∈ p, s.IsPlain) (h : j.at? p = some v) :
    j.follow? (p.map PathStep.toString) = some v := by
  induction p generalizing j with
  | nil => exact h
  | cons s p ih =>
    obtain ⟨hs, hp⟩ := List.forall_mem_cons.mp hp
    obtain ⟨c, hc, h⟩ := Option.bind_eq_some_iff.mp h
    rw [List.map_cons, follow?, stepFor?_toString hs hc, Option.bind_some, hc, Option.bind_some]
    exact ih hp h

theorem lookup?_dotted (hp : ∀ s ∈ p, s.IsPlain) (h : j.at? p = some v) :
    j.lookup? p.dotted = some v := by
  rw [lookup?, Path.segments_dotted hp]
  exact follow?_of_at? hp h

/-- What becomes of a write: it is blocked exactly by what is in the way and then changes nothing;
otherwise the value is read back by the spelling of the path, and every place that was there, and
is neither above nor below the path, still holds what it held. -/
structure WritesAt (v j : Json) (p : Path) : Prop where
  blocked : (write v j p).blocked = true ↔ j.Obstructs p
  unchanged : (write v j p).blocked = true → (write v j p).target = j
  readBack : (write v j p).blocked = false → (∀ s ∈ p, s.IsPlain) →
    (write v j p).target.lookup? p.dotted = some v
  framed : (write v j p).blocked = false → ∀ q w, j.at? q = some w → p.Apart q →
    (write v j p).target.at? q = some w

/-- Writes are atomic, are read back, and touch nothing beside their path. -/
theorem write_writesAt (v j : Json) (p : Path) : WritesAt v j p where
  blocked := write_blocked_iff j v p
  unchanged := write_target_of_blocked
  readBack hfree hp := lookup?_dotted hp (at?_write_target hfree)
  framed hfree _ _ hq hapart := at?_write_frame hfree hq hapart

/-- What is missing on the way is made, and short arrays are filled up. -/
example : (write (.str "101.5") (.obj []) [.key "orders", .index 1, .key "price"]).target =
    .obj [("orders", .arr [.null, .obj [("price", .str "101.5")]])] := by decide

end Json

end TagLedger
