import TagLedger.Output.Handler
import TagLedger.Proofs.Json.Fenced
import TagLedger.Proofs.Schema.Normal

/-!
Recovery of output content. What is recovered is the JSON that the content holds, or the empty value
of the schema if it holds none, so validation fails for JSON of the wrong shape and nothing else.
Leaked markup opens with an angle bracket and is no JSON, whatever the vocabulary of tags.
-/

namespace TagLedger

namespace Schema

attribute [local simp] isString validateAt

inductive StringLike : Schema → Prop where
  | string : StringLike .string
  | optional {inner : Schema} (h : StringLike inner) : StringLike (.optional inner)
  | default {inner : Schema} {value : Json} (h : StringLike inner) :
    StringLike (.default inner value)

theorem isString_iff : (s : Schema) → (s.isString = true ↔ s.StringLike)
  | .string => ⟨fun _ => .string, fun _ => rfl⟩
  | .optional inner => by
    rw [isString, isString_iff inner]
    exact ⟨.optional, fun | .optional h => h⟩
  | .default inner _ => by
    rw [isString, isString_iff inner]
    exact ⟨.default, fun | .default h => h⟩
  | .any | .number | .integer | .boolean | .enumeration _ | .array _ | .object _ =>
    ⟨nofun, nofun⟩

theorem validateAt_of_stringLike {s : Schema} (h : s.StringLike) (path text : String) :
    validateAt path s (.str text) = .ok (.str text) := by
  induction h with
  | string => simp
  | optional _ ih => rw [validateAt_optional (by simp), ih]
  | default _ ih => rw [validateAt_default (by simp), ih]

end Schema

namespace OutputContent

variable {s : Schema} {tags : List String} {content : String} {j : Json}

theorem angle_of_isLeakedMarkup {t : Text} (h : isLeakedMarkup t tags = true) :
    ∃ u, t = '<' :: u := by
  unfold isLeakedMarkup at h
  split at h
  · exact ⟨_, rfl⟩
  · exact ⟨_, rfl⟩
  · simp at h

theorem recover_of_stringLike (h : s.StringLike) : recover s tags content = .str content := by
  rw [recover, if_pos ((Schema.isString_iff s).mpr h)]

/-- The JSON in content is what is recovered: neither blanks nor leaked markup hold any. -/
theorem recover_of_holds (h : ¬ s.StringLike) (hj : Json.Holds content j) :
    recover s tags content = j := by
  have hblank : (Text.trim content.toList).isEmpty = false := by
    by_contra hnil
    rw [Bool.not_eq_false, List.isEmpty_iff, Text.trim_eq_nil_iff] at hnil
    exact Json.not_holds_of_blank hnil j hj
  have hleaked : isLeakedMarkup (Text.trim content.toList) tags = false := by
    by_contra hleaked
    obtain ⟨u, hu⟩ := angle_of_isLeakedMarkup (Bool.not_eq_false _ ▸ hleaked)
    exact Json.not_holds_of_angle hu j hj
  rw [recover, if_neg (mt (Schema.isString_iff s).mp h)]
  simp [hblank, hleaked, Json.holds_iff.mp hj]

theorem recover_of_not_holds (h : ¬ s.StringLike) (hnone : ∀ j, ¬ Json.Holds content j) :
    recover s tags content = s.emptyValue := by
  rw [recover, if_neg (mt (Schema.isString_iff s).mp h)]
  simp only [Json.parseFenced_trim]
  cases hparse : Json.parseFenced content.toList with
  | ok j => exact absurd (Json.holds_iff.mpr hparse) (hnone j)
  -- blanks, markup and what does not parse all end in the empty value
  | error e => split <;> rfl

/-- Content that is blank, that is leaked markup or that is no JSON. -/
def Unreadable (tags : List String) (content : String) : Prop :=
  Text.allBlank content.toList = true ∨
    isLeakedMarkup (Text.trim content.toList) tags = true ∨ ∀ j, ¬ Json.Holds content j

/-- How output content is taken under a schema, whatever it is. -/
structure Recovers (s : Schema) (tags : List String) (content : String) : Prop where
  /-- Validation fails just as it does for the JSON in the content, unless texts are asked for. -/
  fails : ∀ f, s.validate (recover s tags content) = .error f ↔
    ¬ s.StringLike ∧ ∃ j, Json.Holds content j ∧ s.validate j = .error f
  /-- Content that cannot be read is valid once recovered. -/
  tolerates : Unreadable tags content →
    s.validate (recover s tags content) = .ok (recover s tags content)
  /-- Texts are taken as they are. -/
  verbatim : s.StringLike →
    recover s tags content = .str content ∧ s.validate (.str content) = .ok (.str content)
  /-- The vocabulary makes no difference. -/
  anyVocabulary : ∀ tags', recover s tags' content = recover s tags content

theorem Unreadable.not_holds (h : Unreadable tags content) : ∀ j, ¬ Json.Holds content j := by
  rcases h with hblank | hleaked | hnone
  · exact Json.not_holds_of_blank hblank
  · obtain ⟨u, hu⟩ := angle_of_isLeakedMarkup hleaked
    exact Json.not_holds_of_angle hu
  · exact hnone

theorem validate_recover_of_not_holds (hs : s.WellFormed) (hnone : ∀ j, ¬ Json.Holds content j) :
    s.validate (recover s tags content) = .ok (recover s tags content) := by
  by_cases h : s.StringLike
  · rw [recover_of_stringLike h]
    exact Schema.validateAt_of_stringLike h _ _
  · rw [recover_of_not_holds h hnone]
    exact Schema.validateAt_of_normal hs _ _ (Schema.normal_emptyValue hs)

theorem recover_eq_of_vocabularies (s : Schema) (tags tags' : List String) (content : String) :
    recover s tags content = recover s tags' content := by
  by_cases h : s.StringLike
  · rw [recover_of_stringLike h, recover_of_stringLike h]
  · by_cases hholds : ∃ j, Json.Holds content j
    · obtain ⟨j, hj⟩ := hholds
      rw [recover_of_holds h hj, recover_of_holds h hj]
    · have hnone := not_exists.mp hholds
      rw [recover_of_not_holds h hnone, recover_of_not_holds h hnone]

theorem recover_fails_iff (hs : s.WellFormed) (f : Schema.Fault) :
    s.validate (recover s tags content) = .error f ↔
      ¬ s.StringLike ∧ ∃ j, Json.Holds content j ∧ s.validate j = .error f := by
  constructor
  · intro hf
    have hstring : ¬ s.StringLike := by
      intro h
      rw [recover_of_stringLike h, Schema.validate, Schema.validateAt_of_stringLike h] at hf
      simp at hf
    by_cases hholds : ∃ j, Json.Holds content j
    · obtain ⟨j, hj⟩ := hholds
      rw [recover_of_holds hstring hj] at hf
      exact ⟨hstring, j, hj, hf⟩
    · rw [validate_recover_of_not_holds hs (not_exists.mp hholds)] at hf
      simp at hf
  · rintro ⟨hstring, j, hj, hf⟩
    rwa [recover_of_holds hstring hj]

/-- Under a well-formed schema, recovered content is valid unless it is JSON of the wrong shape. -/
theorem recover_recovers (hs : s.WellFormed) (tags : List String) (content : String) :
    Recovers s tags content where
  fails := recover_fails_iff hs
  tolerates h := validate_recover_of_not_holds hs h.not_holds
  verbatim h := ⟨recover_of_stringLike h, Schema.validateAt_of_stringLike h _ _⟩
  anyVocabulary tags' := recover_eq_of_vocabularies s tags' tags content

/-- A close tag in place of JSON is tolerated; JSON of the wrong shape in a fence is not. -/
theorem recover_recovers_order :
    Schema.orderSchema.WellFormed ∧
      Schema.orderSchema.validate (recover Schema.orderSchema ["output"] " </output > ok") =
        .ok (recover Schema.orderSchema ["output"] " </output > ok") ∧
      Schema.orderSchema.validate (recover Schema.orderSchema ["output"]
          "```json\n\x7b\"side\": 1\x7d\n```") =
        .error (.notOneOf "$.side" ["buy", "sell"] (Json.ofNat 1)) :=
  ⟨Schema.orderSchema_wellFormed,
    (recover_recovers Schema.orderSchema_wellFormed _ _).tolerates (.inr (.inl (by decide))),
    ((recover_recovers Schema.orderSchema_wellFormed _ _).fails _).mpr
      ⟨nofun, .obj [("side", Json.ofNat 1)], Json.holds_iff.mpr (by decide +kernel), rfl⟩⟩

end OutputContent

end TagLedger
