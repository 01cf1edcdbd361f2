import Mathlib.Data.List.TakeWhile
import Mathlib.Tactic.Common
import TagLedger.Markup.Token

/-!
Decisions of the scanner are final. What the scanner has found in a text it finds in every longer
text as well, with the added text behind the rest; only while it is undecided can more text matter.
-/

namespace TagLedger.Markup

def TagScan.extend (more : Text) : TagScan → TagScan
  | .tag token rest => .tag token (rest ++ more)
  | .undecided => .undecided
  | .noTag => .noTag

def TagEnd.extend (more : Text) : TagEnd → TagEnd
  | .found inside rest => .found inside (rest ++ more)
  | .undecided => .undecided
  | .tooLong => .tooLong

theorem takeWhile_append_of_stop {p : Char → Bool} {t : Text} (more : Text)
    (h : t.dropWhile p ≠ []) : (t ++ more).takeWhile p = t.takeWhile p := by
  induction t with
  | nil => simp at h
  | cons c t ih =>
    by_cases hc : p c = true
    · simp only [List.dropWhile_cons, hc, if_true] at h
      simp [hc, ih h]
    · simp [hc]

theorem dropWhile_append_of_stop {p : Char → Bool} {t : Text} (more : Text)
    (h : t.dropWhile p ≠ []) : (t ++ more).dropWhile p = t.dropWhile p ++ more := by
  rw [List.dropWhile_append, if_neg (by simpa using h)]

/-- A text that no name begins with is not continued to one that some name begins with. -/
theorem couldBecomeTag_append {names : List Text} {start : Text}
    (h : couldBecomeTag names start = false) (more : Text) :
    couldBecomeTag names (start ++ more) = false := by
  simp only [couldBecomeTag, List.any_eq_false] at h ⊢
  intro n hn hp
  exact h n hn (List.isPrefixOf_iff_prefix.mpr
    ((List.prefix_append start more).trans (List.isPrefixOf_iff_prefix.mp hp)))

theorem not_contains_of_not_couldBecomeTag {names : List Text} {start : Text}
    (h : couldBecomeTag names start = false) : names.contains start = false := by
  simp only [couldBecomeTag, List.any_eq_false] at h
  rw [← Bool.not_eq_true, List.contains_iff_mem]
  intro hm
  exact h start hm (List.isPrefixOf_iff_prefix.mpr (List.prefix_refl start))

theorem findTagEnd_append {quote : Option Char} {offset : Nat} {t : Text} (more : Text)
    (h : findTagEnd quote offset t ≠ .undecided) :
    findTagEnd quote offset (t ++ more) = (findTagEnd quote offset t).extend more := by
  induction t generalizing quote offset with
  | nil => simp [findTagEnd] at h
  | cons c t ih =>
    simp only [List.cons_append, findTagEnd] at h ⊢
    by_cases hend : quote = none ∧ c = '>'
    · simp only [if_pos hend]
      rfl
    simp only [if_neg hend] at h ⊢
    by_cases hlong : maxTagLength < offset + c.utf8Size
    · simp only [if_pos hlong]
      rfl
    simp only [if_neg hlong] at h ⊢
    split at h
    · rename_i heq
      rw [ih (by simp [heq]), heq]
      rfl
    · exact absurd rfl h
    · rename_i heq
      rw [ih (by simp [heq]), heq]
      rfl

/-- A name that is cut off by the end of the text and begins no name of the vocabulary. -/
theorem scanOpening_of_not_couldBecomeTag {names : List Text} {t : Text}
    (h : couldBecomeTag names (t.takeWhile isNameChar) = false) : scanOpening names t = .noTag := by
  have hc := not_contains_of_not_couldBecomeTag h
  unfold scanOpening
  dsimp only
  split
  · rw [if_neg (by simp [h])]
  · rw [if_pos (Or.inr (by simpa using hc))]

theorem scanClosing_of_not_couldBecomeTag {names : List Text} {t : Text}
    (h : couldBecomeTag names (t.takeWhile isNameChar) = false) : scanClosing names t = .noTag := by
  have hc := not_contains_of_not_couldBecomeTag h
  unfold scanClosing
  dsimp only
  split
  · rw [if_neg (by simp [h])]
  · rw [if_pos (Or.inr (by simpa using hc))]

/-- A text that ends in its first name goes on to a text whose first name is longer. -/
theorem takeWhile_append_of_end {p : Char → Bool} {t : Text} (h : t.dropWhile p = [])
    (more : Text) : (t ++ more).takeWhile p = t.takeWhile p ++ more.takeWhile p := by
  rw [List.takeWhile_eq_self_iff.mpr (List.dropWhile_eq_nil_iff.mp h),
    List.takeWhile_append_of_pos (List.dropWhile_eq_nil_iff.mp h)]

theorem scanOpening_append {names : List Text} {t : Text} (more : Text)
    (h : scanOpening names t ≠ .undecided) :
    scanOpening names (t ++ more) = (scanOpening names t).extend more := by
  by_cases hend : t.dropWhile isNameChar = []
  · -- the name may go on in what is added
    have hname : couldBecomeTag names (t.takeWhile isNameChar) = false := by
      by_contra hcould
      apply h
      simp only [scanOpening, hend]
      exact if_pos (by simpa using hcould)
    rw [scanOpening_of_not_couldBecomeTag hname, scanOpening_of_not_couldBecomeTag]
    · rfl
    · rw [takeWhile_append_of_end hend]
      exact couldBecomeTag_append hname _
  · obtain ⟨c, rest, hrest⟩ := List.exists_cons_of_ne_nil hend
    have htake := takeWhile_append_of_stop more hend
    have hdrop := dropWhile_append_of_stop more hend
    simp only [scanOpening, htake, hdrop, hrest, List.cons_append] at h ⊢
    split_ifs at h ⊢
    · rfl
    · rfl
    · have htag : findTagEnd none (1 + (t.takeWhile isNameChar).length) (c :: rest) ≠
          .undecided := by
        intro hu
        rw [hu] at h
        exact h rfl
      rw [← List.cons_append, findTagEnd_append more htag]
      cases findTagEnd none (1 + (t.takeWhile isNameChar).length) (c :: rest) <;> rfl

theorem scanClosing_append {names : List Text} {t : Text} (more : Text)
    (h : scanClosing names t ≠ .undecided) :
    scanClosing names (t ++ more) = (scanClosing names t).extend more := by
  by_cases hend : t.dropWhile isNameChar = []
  · have hname : couldBecomeTag names (t.takeWhile isNameChar) = false := by
      by_contra hcould
      apply h
      simp only [scanClosing, hend]
      exact if_pos (by simpa using hcould)
    rw [scanClosing_of_not_couldBecomeTag hname, scanClosing_of_not_couldBecomeTag]
    · rfl
    · rw [takeWhile_append_of_end hend]
      exact couldBecomeTag_append hname _
  · have htake := takeWhile_append_of_stop more hend
    have hdrop := dropWhile_append_of_stop more hend
    have hempty : (t.dropWhile isNameChar ++ more).isEmpty = false := by simp [hend]
    have hempty' : (t.dropWhile isNameChar).isEmpty = false := by simp [hend]
    simp only [scanClosing, htake, hdrop, hempty, hempty', Bool.false_eq_true, if_false] at h ⊢
    split_ifs at h ⊢
    · rfl
    · by_cases hblank : (t.dropWhile isNameChar).dropWhile Text.isAsciiBlank = []
      · rw [hblank] at h
        exact absurd rfl h
      · obtain ⟨c, rest, hrest⟩ := List.exists_cons_of_ne_nil hblank
        rw [takeWhile_append_of_stop more hblank, dropWhile_append_of_stop more hblank, hrest]
        by_cases hc : c = '>'
        · subst hc
          rfl
        · rw [List.cons_append]
          split
          · contradiction
          · rename_i heq
            exact absurd (List.cons.inj heq).1 hc
          · split
            · contradiction
            · rename_i heq
              exact absurd (List.cons.inj heq).1 hc
            · rfl

theorem scanTag_eq_scanOpening {names : List Text} {t : Text} (h : t.head? ≠ some '/') :
    scanTag names t = scanOpening names t := by
  unfold scanTag
  split
  · exact absurd rfl h
  · rfl

/-- What a `<` sign turns out to be does not depend on the text behind the decision. -/
theorem scanTag_append {names : List Text} {t : Text} (more : Text)
    (h : scanTag names t ≠ .undecided) :
    scanTag names (t ++ more) = (scanTag names t).extend more := by
  cases t with
  | nil =>
    have hnone : couldBecomeTag names [] = false := by
      by_contra hcould
      exact h (if_pos (by simpa using hcould))
    have hname (u : Text) : couldBecomeTag names u = false := couldBecomeTag_append hnone u
    have hscan (u : Text) : scanTag names u = .noTag := by
      unfold scanTag
      split
      · exact scanClosing_of_not_couldBecomeTag (hname _)
      · exact scanOpening_of_not_couldBecomeTag (hname _)
    rw [hscan, hscan]
    rfl
  | cons c t =>
    by_cases hc : c = '/'
    · subst hc
      exact scanClosing_append more h
    · have hopen (u : Text) : scanTag names (c :: u) = scanOpening names (c :: u) :=
        scanTag_eq_scanOpening (by simpa using hc)
      rw [hopen] at h
      rw [List.cons_append, hopen, hopen, ← List.cons_append]
      exact scanOpening_append more h

/-- A token that starts with `<` is the same in every longer buffer. -/
theorem nextToken?_append {names : List Text} {t rest : Text} {token : Token} (more : Text)
    (h : nextToken? names ('<' :: t) = some (token, rest)) :
    nextToken? names ('<' :: t ++ more) = some (token, rest ++ more) := by
  have hscan : scanTag names t ≠ .undecided := by
    intro hu
    simp [nextToken?, hu] at h
  have hmore := scanTag_append more hscan
  cases ht : scanTag names t with
  | tag token' rest' =>
    rw [ht] at hmore
    simp only [nextToken?, ht, Option.some.injEq, Prod.mk.injEq] at h
    simp [nextToken?, hmore, TagScan.extend, h.1, h.2]
  | undecided => exact absurd ht hscan
  | noTag =>
    rw [ht] at hmore
    simp only [nextToken?, ht, Option.some.injEq, Prod.mk.injEq] at h
    simp [nextToken?, hmore, TagScan.extend, ← h.1, ← h.2]

end TagLedger.Markup
