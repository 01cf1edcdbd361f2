import Mathlib.Data.List.Infix
import Mathlib.Tactic.Common
import TagLedger.Text.Basic

/-!
The pieces of a text between separators: the longest stretches that contain no separator.
-/

namespace TagLedger.Text

variable {sep : Char → Bool} {before w after : Text}

theorem splitBy_of_notMem {t : Text} (h : ∀ c ∈ t, sep c = false) : splitBy sep t = [t] := by
  induction t with
  | nil => rfl
  | cons c t ih =>
    have hc := h c List.mem_cons_self
    simp [splitBy, ih fun d hd => h d (List.mem_cons_of_mem c hd), hc]

theorem splitBy_append_cons {t : Text} (h : ∀ c ∈ t, sep c = false) {d : Char} (hd : sep d = true)
    (rest : Text) : splitBy sep (t ++ d :: rest) = t :: splitBy sep rest := by
  induction t with
  | nil =>
    cases hrest : splitBy sep rest with
    | nil => exact absurd hrest (splitBy_ne_nil sep rest)
    | cons piece pieces => simp [splitBy, hrest, hd]
  | cons c t ih =>
    have hc := h c List.mem_cons_self
    simp [splitBy, ih fun d hd => h d (List.mem_cons_of_mem c hd), hc]

/-- Texts that are joined by a separator they do not contain are got back by cutting there. -/
theorem splitBy_intercalate {d : Char} (hd : sep d = true) {ts : List Text} (hne : ts ≠ [])
    (h : ∀ t ∈ ts, ∀ c ∈ t, sep c = false) : splitBy sep ([d].intercalate ts) = ts := by
  induction ts with
  | nil => exact absurd rfl hne
  | cons t ts ih =>
    obtain ⟨ht, hts⟩ := List.forall_mem_cons.mp h
    cases ts with
    | nil => simpa using splitBy_of_notMem ht
    | cons t' ts =>
      rw [List.intercalate_cons_cons, List.append_assoc, List.singleton_append,
        splitBy_append_cons ht hd, ih (by simp) hts]

theorem splitBy_append_sep {d : Char} (hd : sep d = true) (before rest : Text) :
    splitBy sep (before ++ d :: rest) = splitBy sep before ++ splitBy sep rest := by
  induction before with
  | nil => simpa [splitBy] using splitBy_append_cons (t := []) (by simp) hd rest
  | cons c before ih =>
    cases hbefore : splitBy sep before with
    | nil => exact absurd hbefore (splitBy_ne_nil sep before)
    | cons piece pieces =>
      cases hc : sep c <;> simp [splitBy, ih, hbefore, hc]

structure Between (sep : Char → Bool) (before w after : Text) : Prop where
  inside : ∀ c ∈ w, sep c = false
  before : ∀ c ∈ before.getLast?, sep c = true
  after : ∀ c ∈ after.head?, sep c = true

theorem Between.mem_splitBy (h : Between sep before w after) :
    w ∈ splitBy sep (before ++ w ++ after) := by
  have hrest : w ∈ splitBy sep (w ++ after) := by
    cases after with
    | nil => simp [splitBy_of_notMem h.inside]
    | cons c after =>
      rw [splitBy_append_cons h.inside (h.after c rfl)]
      exact List.mem_cons_self
  rcases before.eq_nil_or_concat with rfl | ⟨before, c, rfl⟩
  · exact hrest
  · have hc := h.before c (by simp)
    rw [List.concat_eq_append, List.append_assoc, List.append_assoc, List.singleton_append,
      splitBy_append_sep hc]
    exact List.mem_append_right _ hrest

theorem Between.cons (h : Between sep before w after) {c : Char} (hc : before = [] → sep c = true) :
    Between sep (c :: before) w after := by
  refine ⟨h.inside, ?_, h.after⟩
  cases before with
  | nil => simpa using hc rfl
  | cons b before => simpa using h.before

/-- The first piece stands at the beginning, the others after a separator. -/
theorem between_of_splitBy {t piece : Text} {pieces : List Text}
    (h : splitBy sep t = piece :: pieces) :
    (∃ after, t = piece ++ after ∧ Between sep [] piece after) ∧
      ∀ w ∈ pieces, ∃ before after, before ≠ [] ∧ t = before ++ w ++ after ∧
        Between sep before w after := by
  induction t generalizing piece pieces with
  | nil =>
    obtain ⟨rfl, rfl⟩ : [] = piece ∧ [] = pieces := by simpa [splitBy] using h
    exact ⟨⟨[], rfl, by simp, by simp, by simp⟩, by simp⟩
  | cons c t ih =>
    cases hrest : splitBy sep t with
    | nil => exact absurd hrest (splitBy_ne_nil sep t)
    | cons first others =>
      obtain ⟨⟨after, heq, hfirst⟩, hothers⟩ := ih hrest
      have hmore : ∀ w ∈ others, ∃ before after, before ≠ [] ∧ c :: t = before ++ w ++ after ∧
          Between sep before w after := by
        intro w hw
        obtain ⟨before, after, hne, rfl, hw⟩ := hothers w hw
        exact ⟨c :: before, after, by simp, rfl, hw.cons (absurd · hne)⟩
      rw [splitBy, hrest] at h
      dsimp only at h
      split at h
      · rename_i hc
        obtain ⟨rfl, rfl⟩ := List.cons.inj h
        refine ⟨⟨c :: t, rfl, by simp, by simp, by simpa using hc⟩, ?_⟩
        exact List.forall_mem_cons.mpr ⟨⟨[c], after, by simp, by simp [heq], hfirst.cons fun _ => hc⟩,
          hmore⟩
      · rename_i hc
        obtain ⟨rfl, rfl⟩ := List.cons.inj h
        refine ⟨⟨after, by simp [heq], ?_, by simp, hfirst.after⟩, hmore⟩
        exact List.forall_mem_cons.mpr ⟨by simpa using hc, hfirst.inside⟩

/-- The pieces of a text are its longest stretches without a separator. -/
theorem mem_splitBy_iff {t : Text} : w ∈ splitBy sep t ↔
    ∃ before after, t = before ++ w ++ after ∧ Between sep before w after := by
  constructor
  · intro h
    cases ht : splitBy sep t with
    | nil => exact absurd ht (splitBy_ne_nil sep t)
    | cons first others =>
      obtain ⟨⟨after, heq, hfirst⟩, hothers⟩ := between_of_splitBy ht
      rcases List.mem_cons.mp (ht ▸ h) with rfl | hw
      · exact ⟨[], after, heq, hfirst⟩
      · obtain ⟨before, after, _, heq, hw⟩ := hothers w hw
        exact ⟨before, after, heq, hw⟩
  · rintro ⟨before, after, rfl, h⟩
    exact h.mem_splitBy

end TagLedger.Text
