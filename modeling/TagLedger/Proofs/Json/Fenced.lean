import Mathlib.Data.List.DropRight
import Mathlib.Tactic.Common
import TagLedger.Json.Fenced

/-!
The JSON that a text holds, bare or inside a fence. Blanks around either do not matter, and neither
a blank text nor one that opens with an angle bracket holds any.
-/

namespace TagLedger

namespace Text

/-- Trimming leaves nothing, or a text that starts with no blank and has none at its end. -/
theorem trim_cases (t : Text) :
    (allBlank t = true ∧ trim t = []) ∨
      (allBlank t = false ∧ ∃ c u, isBlank c = false ∧ trim t = c :: trimRight u) := by
  induction t with
  | nil => exact .inl ⟨rfl, rfl⟩
  | cons c t ih =>
    cases h : isBlank c with
    | true => simpa [allBlank, trim, trimLeft, h] using ih
    | false =>
      exact .inr ⟨by simp [allBlank, h], c, t, h, by rw [trim, trimLeft_cons h, trimRight_cons h]⟩

theorem trim_eq_nil_iff (t : Text) : trim t = [] ↔ allBlank t = true := by
  rcases trim_cases t with ⟨hblank, h⟩ | ⟨hblank, c, u, _, h⟩ <;> simp [h, hblank]

@[simp] theorem trim_trim (t : Text) : trim (trim t) = trim t := by
  rcases trim_cases t with ⟨_, h⟩ | ⟨_, c, u, hc, h⟩
  · rw [h]
    rfl
  · rw [h, trim, trimLeft_cons hc, trimRight_cons hc, trimRight, trimRight, List.reverse_reverse,
      List.dropWhile_idempotent]

theorem dropPrefix?_eq_none_iff {p t : Text} : dropPrefix? p t = none ↔ ¬ p <+: t := by
  rw [← Option.not_isSome_iff_eq_none, Option.isSome_iff_exists]
  simp only [dropPrefix?_eq_some_iff]
  exact not_congr ⟨fun ⟨r, h⟩ => ⟨r, h.symm⟩, fun ⟨r, h⟩ => ⟨r, h.symm⟩⟩

end Text

namespace Json

inductive Body (content : Text) : Text → Prop where
  | bare (h : ¬ fenceOpen <+: Text.trim content) : Body content (Text.trim content)
  | fenced {inner : Text} (h : Text.trim content = fenceOpen ++ inner ++ fenceClose) :
    Body content (Text.trim inner)
  | unclosed {inner : Text} (h : Text.trim content = fenceOpen ++ inner)
    (hclose : ¬ fenceClose <:+ inner) : Body content (Text.trim inner)

theorem dropFenceClose_append (t : Text) : dropFenceClose (t ++ fenceClose) = t := by
  have h : Text.dropPrefix? fenceClose.reverse (t ++ fenceClose).reverse = some t.reverse :=
    Text.dropPrefix?_eq_some_iff.mpr List.reverse_append
  rw [dropFenceClose, h]
  simp

theorem dropFenceClose_of_not {t : Text} (h : ¬ fenceClose <:+ t) : dropFenceClose t = t := by
  have hnone : Text.dropPrefix? fenceClose.reverse t.reverse = none :=
    Text.dropPrefix?_eq_none_iff.mpr (by rwa [List.reverse_prefix])
  rw [dropFenceClose, hnone]

theorem body_iff {content body : Text} : Body content body ↔ unfence content = body := by
  constructor
  · intro h
    cases h with
    | bare h => simp [unfence, Text.dropPrefix?_eq_none_iff.mpr h]
    | @fenced inner h =>
      have hrest : Text.dropPrefix? fenceOpen (Text.trim content) = some (inner ++ fenceClose) :=
        Text.dropPrefix?_eq_some_iff.mpr (by rw [h, List.append_assoc])
      simp [unfence, hrest, dropFenceClose_append]
    | unclosed h hclose =>
      simp [unfence, Text.dropPrefix?_eq_some_iff.mpr h, dropFenceClose_of_not hclose]
  · rintro rfl
    rw [unfence]
    split
    · rename_i rest hrest
      have hopen := Text.dropPrefix?_eq_some_iff.mp hrest
      by_cases hclose : fenceClose <:+ rest
      · obtain ⟨inner, rfl⟩ := hclose
        rw [dropFenceClose_append]
        exact .fenced (by rw [hopen, List.append_assoc])
      · rw [dropFenceClose_of_not hclose]
        exact .unclosed hopen hclose
    · rename_i hnone
      rw [Text.trim_trim]
      exact .bare (Text.dropPrefix?_eq_none_iff.mp hnone)

/-- Some JSON that content holds, bare or inside a fence. -/
def Holds (content : String) (j : Json) : Prop :=
  ∃ body, Body content.toList body ∧ parse body = .ok j

theorem holds_iff {content : String} {j : Json} :
    Holds content j ↔ parseFenced content.toList = .ok j := by
  simp [Holds, body_iff, parseFenced]

@[simp] theorem parseFenced_trim (t : Text) : parseFenced (Text.trim t) = parseFenced t := by
  simp [parseFenced, unfence]

theorem parse_nil : parse [] = .error ⟨.fault .endInValue, some ⟨1, 0⟩⟩ := rfl

theorem parse_angle (t : Text) :
    parse ('<' :: t) = .error ⟨.fault .expectedValue, some ⟨1, 1⟩⟩ := rfl

theorem not_holds_of_blank {content : String} (h : Text.allBlank content.toList = true) (j : Json) :
    ¬ Holds content j := by
  have htrim := (Text.trim_eq_nil_iff _).mpr h
  have hbody : unfence content.toList = [] := by
    rw [unfence, htrim]
    rfl
  simp [holds_iff, parseFenced, hbody, parse_nil]

theorem not_holds_of_angle {content : String} {u : Text}
    (h : Text.trim content.toList = '<' :: u) (j : Json) : ¬ Holds content j := by
  have hopen : Text.dropPrefix? fenceOpen ('<' :: u) = none := rfl
  have hbody : unfence content.toList = '<' :: u := by
    simp only [unfence, h, hopen]
    rw [← h, Text.trim_trim]
  simp [holds_iff, parseFenced, hbody, parse_angle]

end Json

end TagLedger
