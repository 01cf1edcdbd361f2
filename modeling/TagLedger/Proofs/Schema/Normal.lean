import Mathlib.Data.List.Nodup
import Mathlib.Tactic.Common
import TagLedger.Proofs.Json.Tidy
import TagLedger.Schema.Basic

/-!
Normal forms of a schema. What validation gives is in normal form: objects hold declared fields
only, in declared order, and all that are required. Values in normal form are valid and validation
leaves them as they are; the empty value is one of them.
-/

namespace TagLedger.Schema

open Json (Members)

attribute [local simp] validateAt validateFields emptyValue emptyFields wrongKind

/-- A schema that can be met: the fields of an object have different names, an enumeration has a
variant, and a default is null or a value that its schema leaves as it is. -/
inductive WellFormed : Schema → Prop where
  | any : WellFormed .any
  | string : WellFormed .string
  | number : WellFormed .number
  | integer : WellFormed .integer
  | boolean : WellFormed .boolean
  | enumeration {variants : List String} (h : variants ≠ []) : WellFormed (.enumeration variants)
  | array {items : Schema} (h : WellFormed items) : WellFormed (.array items)
  | object {fields : List (String × Schema)} (hkeys : (fields.map Prod.fst).Nodup)
    (h : ∀ f ∈ fields, WellFormed f.2) : WellFormed (.object fields)
  | optional {inner : Schema} (h : WellFormed inner) : WellFormed (.optional inner)
  | default {inner : Schema} {value : Json} (h : WellFormed inner)
    (hvalue : value = .null ∨ inner.validate value = .ok value) : WellFormed (.default inner value)

mutual

inductive Normal : Schema → Json → Prop where
  | any (j : Json) : Normal .any j
  | string (s : String) : Normal .string (.str s)
  | number (n : Json.Number) : Normal .number (.num n)
  | integer (n : Int) : Normal .integer (.num (.whole n))
  | boolean (b : Bool) : Normal .boolean (.bool b)
  | enumeration {variants : List String} {s : String} (h : s ∈ variants) :
    Normal (.enumeration variants) (.str s)
  | array {items : Schema} {xs : List Json} (h : ∀ x ∈ xs, Normal items x) :
    Normal (.array items) (.arr xs)
  | object {fields : List (String × Schema)} {ms : Members} (h : NormalFields fields ms) :
    Normal (.object fields) (.obj ms)
  | absent {inner : Schema} : Normal (.optional inner) .null
  | present {inner : Schema} {j : Json} (h : Normal inner j) : Normal (.optional inner) j
  | nullDefault {inner : Schema} : Normal (.default inner .null) .null
  | given {inner : Schema} {value j : Json} (h : Normal inner j) (hj : j ≠ .null) :
    Normal (.default inner value) j

/-- Members that are declared fields in declared order, without some optional ones. -/
inductive NormalFields : List (String × Schema) → Members → Prop where
  | nil : NormalFields [] []
  | present {key : String} {s : Schema} {fields : List (String × Schema)} {j : Json} {ms : Members}
    (h : Normal s j) (hrest : NormalFields fields ms) :
    NormalFields ((key, s) :: fields) ((key, j) :: ms)
  | absent {key : String} {s : Schema} {fields : List (String × Schema)} {ms : Members}
    (h : isOptionalField s = true) (hrest : NormalFields fields ms) :
    NormalFields ((key, s) :: fields) ms

end

variable {s inner : Schema} {fields : List (String × Schema)} {ms out : Members} {v w value : Json}
  {path : String}

theorem NormalFields.keys_sublist (h : NormalFields fields ms) :
    (ms.map Prod.fst).Sublist (fields.map Prod.fst) := by
  induction fields generalizing ms with
  | nil =>
    cases h
    exact .slnil
  | cons f fields ih =>
    cases h with
    | present _ hrest => exact (ih hrest).cons_cons _
    | absent _ hrest => exact (ih hrest).cons _

section Traversal

variable {α β ε : Type} {g : α → Except ε β} {xs : List α} {ys : List β}

theorem mapM_eq_ok {h : α → β} (hg : ∀ x ∈ xs, g x = .ok (h x)) : xs.mapM g = .ok (xs.map h) := by
  induction xs with
  | nil => rfl
  | cons x xs ih =>
    obtain ⟨hx, hxs⟩ := List.forall_mem_cons.mp hg
    rw [List.mapM_cons, hx, ih hxs]
    rfl

theorem exists_of_mapM_eq_ok (h : xs.mapM g = .ok ys) : ∀ y ∈ ys, ∃ x ∈ xs, g x = .ok y := by
  induction xs generalizing ys with
  | nil =>
    obtain rfl : [] = ys := Except.ok.inj h
    simp
  | cons x xs ih =>
    rw [List.mapM_cons] at h
    cases hx : g x with
    | error e => simp [hx, bind, Except.bind] at h
    | ok y =>
      cases hxs : xs.mapM g with
      | error e => simp [hx, hxs, bind, Except.bind] at h
      | ok rest =>
        obtain rfl : y :: rest = ys := by
          simpa [hx, hxs, bind, Except.bind, pure, Except.pure] using h
        intro z hz
        rcases List.mem_cons.mp hz with rfl | hz
        · exact ⟨x, List.mem_cons_self, hx⟩
        · obtain ⟨x', hx', hz⟩ := ih hxs z hz
          exact ⟨x', List.mem_cons_of_mem x hx', hz⟩

end Traversal

theorem validateAt_optional (hv : v ≠ .null) :
    validateAt path (.optional s) v = validateAt path s v := by
  cases v <;> simp at hv ⊢

theorem validateAt_default (hv : v ≠ .null) :
    validateAt path (.default s value) v = validateAt path s v := by
  cases v <;> simp at hv ⊢

theorem validateAt_array {items : Schema} {xs : List Json} :
    validateAt path (.array items) (.arr xs) = (xs.zipIdx.mapM fun x =>
      validateAt (path ++ "[" ++ toString x.2 ++ "]") items x.1).map Json.arr := by
  simp only [validateAt]
  cases xs.zipIdx.mapM fun x =>
    validateAt (path ++ "[" ++ toString x.2 ++ "]") items x.1 <;> rfl

theorem validateAt_object :
    validateAt path (.object fields) (.obj ms) =
      (validateFields path fields ms []).map Json.obj := by
  simp only [validateAt]
  cases validateFields path fields ms [] <;> rfl

theorem map_eq_ok {α ε : Type} {x : Except ε α} {f : α → Json} (h : x.map f = .ok w) :
    ∃ a, x = .ok a ∧ f a = w := by
  cases x <;> simp [Except.map] at h ⊢
  exact h

/-- Only null becomes null. -/
theorem ne_null_of_validateAt : (s : Schema) → {v w : Json} → v ≠ .null →
    validateAt path s v = .ok w → w ≠ .null
  | .any, v, w, hv, h => by
    obtain rfl : v = w := by simpa using h
    exact hv
  | .string, v, w, hv, h => by cases v <;> simp at h; simp [← h]
  | .number, v, w, hv, h => by cases v <;> simp at h; simp [← h]
  | .integer, v, w, hv, h => by
    unfold validateAt at h
    split at h
    · simp [← Except.ok.inj h]
    · simp at h
  | .boolean, v, w, hv, h => by cases v <;> simp at h; simp [← h]
  | .enumeration variants, v, w, hv, h => by
    unfold validateAt at h
    split at h
    · split at h
      · simp [← Except.ok.inj h]
      · simp at h
    · simp at h
  | .array items, v, w, hv, h => by
    cases v with
    | arr xs =>
      rw [validateAt_array] at h
      obtain ⟨ys, _, rfl⟩ := map_eq_ok h
      simp
    | _ => simp at h
  | .object fields, v, w, hv, h => by
    cases v with
    | obj ms =>
      rw [validateAt_object] at h
      obtain ⟨ys, _, rfl⟩ := map_eq_ok h
      simp
    | _ => simp at h
  | .optional s, v, w, hv, h => ne_null_of_validateAt s hv (validateAt_optional hv ▸ h)
  | .default s _, v, w, hv, h => ne_null_of_validateAt s hv (validateAt_default hv ▸ h)

theorem missingValue_of_isOptionalField (h : isOptionalField s = true) (path : String) :
    missingValue path s = .ok none := by
  cases s <;> simp [isOptionalField, missingValue] at h ⊢

/-- What stands for a missing field: nothing, if it is optional, or what null is made into. -/
theorem missingValue_eq_ok {found : Option Json} (h : missingValue path s = .ok found) :
    (found = none ∧ isOptionalField s = true) ∨
      ∃ w, found = some w ∧ validateAt path s .null = .ok w := by
  cases s with
  | any => exact .inl ⟨by simpa [missingValue] using h.symm, rfl⟩
  | optional inner => exact .inl ⟨by simpa [missingValue] using h.symm, rfl⟩
  | default inner value => exact .inr ⟨value, by simpa [missingValue] using h.symm, rfl⟩
  | _ => simp [missingValue] at h

/-- One field adds a value in its normal form, or nothing if it is optional. -/
theorem validateFields_cons_eq_ok {key : String} {ms' : Members}
    (h : validateFields path ((key, s) :: fields) ms out = .ok ms') :
    (∃ p v w, validateAt p s v = .ok w ∧
      validateFields path fields ms (out.insert key w) = .ok ms') ∨
    (isOptionalField s = true ∧ validateFields path fields ms out = .ok ms') := by
  rw [validateFields] at h
  cases hget : Members.get? ms key with
  | some v =>
    cases hv : validateAt (path ++ "." ++ key) s v with
    | error e => simp [hget, hv, bind, Except.bind] at h
    | ok w => exact .inl ⟨_, v, w, hv, by simpa [hget, hv, bind, Except.bind] using h⟩
  | none =>
    cases hmissing : missingValue (path ++ "." ++ key) s with
    | error e => simp [hget, hmissing, bind, Except.bind] at h
    | ok found =>
      rcases missingValue_eq_ok hmissing with ⟨rfl, hoptional⟩ | ⟨w, rfl, hw⟩
      · exact .inr ⟨hoptional, by simpa [hget, hmissing, bind, Except.bind] using h⟩
      · exact .inl ⟨_, .null, w, hw, by simpa [hget, hmissing, bind, Except.bind] using h⟩

theorem notMem_keys_insert {key : String} {names : List String} (hkey : key ∉ names)
    (hout : ∀ k ∈ names, k ∉ out.map Prod.fst) (w : Json) :
    ∀ k ∈ names, k ∉ (out.insert key w).map Prod.fst := by
  intro k hk hmem
  rcases Members.mem_keys_insert.mp hmem with hmem | rfl
  · exact hout k hk hmem
  · exact hkey hk

/-- What fields add is in normal form, if it is so for each of them. -/
theorem normalFields_of_validateFields (hkeys : (fields.map Prod.fst).Nodup)
    (hnormal : ∀ f ∈ fields, ∀ p v w, validateAt p f.2 v = .ok w → Normal f.2 w)
    (hout : ∀ k ∈ fields.map Prod.fst, k ∉ out.map Prod.fst) {ms' : Members}
    (h : validateFields path fields ms out = .ok ms') :
    ∃ added, ms' = out ++ added ∧ NormalFields fields added := by
  induction fields generalizing out with
  | nil =>
    obtain rfl : out = ms' := by simpa using h
    exact ⟨[], by simp, .nil⟩
  | cons f fields ih =>
    obtain ⟨key, s⟩ := f
    obtain ⟨hnot, hrest⟩ := List.nodup_cons.mp hkeys
    obtain ⟨hfirst, hnormal⟩ := List.forall_mem_cons.mp hnormal
    obtain ⟨hkey, hout⟩ := List.forall_mem_cons.mp hout
    rcases validateFields_cons_eq_ok h with ⟨p, v, w, hw, h⟩ | ⟨hoptional, h⟩
    · obtain ⟨added, rfl, hadded⟩ := ih hrest hnormal (notMem_keys_insert hnot hout w) h
      refine ⟨(key, w) :: added, ?_, .present (hfirst p v w hw) hadded⟩
      simp [Members.insert_of_notMem hkey]
    · obtain ⟨added, rfl, hadded⟩ := ih hrest hnormal hout h
      exact ⟨added, rfl, .absent hoptional hadded⟩

/-- What validation gives is in normal form. -/
theorem normal_of_validateAt (h : s.WellFormed) :
    ∀ path v w, validateAt path s v = .ok w → Normal s w := by
  induction h with
  | any => exact fun _ _ w _ => .any w
  | string =>
    intro path v w hw
    cases v <;> simp at hw
    exact hw ▸ .string _
  | number =>
    intro path v w hw
    cases v <;> simp at hw
    exact hw ▸ .number _
  | integer =>
    intro path v w hw
    unfold validateAt at hw
    split at hw
    · exact Except.ok.inj hw ▸ .integer _
    · simp at hw
  | boolean =>
    intro path v w hw
    cases v <;> simp at hw
    exact hw ▸ .boolean _
  | @enumeration variants _ =>
    intro path v w hw
    unfold validateAt at hw
    split at hw
    · split at hw
      · rename_i hmem
        exact Except.ok.inj hw ▸ .enumeration (by simpa using hmem)
      · simp at hw
    · simp at hw
  | array _ ih =>
    intro path v w hw
    cases v with
    | arr xs =>
      rw [validateAt_array] at hw
      obtain ⟨ys, hys, rfl⟩ := map_eq_ok hw
      refine .array fun y hy => ?_
      obtain ⟨x, _, hx⟩ := exists_of_mapM_eq_ok hys y hy
      exact ih _ _ _ hx
    | _ => simp at hw
  | object hkeys _ ih =>
    intro path v w hw
    cases v with
    | obj ms =>
      rw [validateAt_object] at hw
      obtain ⟨ms', hms', rfl⟩ := map_eq_ok hw
      obtain ⟨added, rfl, hadded⟩ := normalFields_of_validateFields hkeys ih (by simp) hms'
      exact .object (by simpa using hadded)
    | _ => simp at hw
  | optional _ ih =>
    intro path v w hw
    by_cases hv : v = .null
    · subst hv
      obtain rfl : .null = w := by simpa using hw
      exact .absent
    · exact .present (ih path v w (validateAt_optional hv ▸ hw))
  | @default inner value _ hvalue ih =>
    intro path v w hw
    by_cases hv : v = .null
    · subst hv
      obtain rfl : value = w := by simpa using hw
      -- a default that is not null is what its own schema has given
      by_cases hnull : value = .null
      · subst hnull
        exact .nullDefault
      · exact .given (ih _ _ _ (hvalue.resolve_left hnull)) hnull
    · rw [validateAt_default hv] at hw
      exact .given (ih path v w hw) (ne_null_of_validateAt inner hv hw)

/-- Fields leave members in normal form as they are, if each does so with its own. -/
theorem validateFields_of_normalFields (hkeys : (fields.map Prod.fst).Nodup)
    (hvalid : ∀ f ∈ fields, ∀ p w, Normal f.2 w → validateAt p f.2 w = .ok w)
    (hout : ∀ k ∈ fields.map Prod.fst, k ∉ out.map Prod.fst) (h : NormalFields fields ms) :
    validateFields path fields (out ++ ms) out = .ok (out ++ ms) := by
  induction fields generalizing out ms with
  | nil =>
    cases h
    simp
  | cons f fields ih =>
    obtain ⟨key, s⟩ := f
    obtain ⟨hnot, hrest⟩ := List.nodup_cons.mp hkeys
    obtain ⟨hfirst, hvalid⟩ := List.forall_mem_cons.mp hvalid
    obtain ⟨hkey, hout⟩ := List.forall_mem_cons.mp hout
    rw [validateFields, Members.get?_append_of_notMem hkey]
    -- the field finds its own member first, or none at all: names are different
    cases h with
    | @present _ _ _ j ms hj hms =>
      have hnext := ih hrest hvalid (notMem_keys_insert hnot hout j) hms
      simp only [Members.insert_of_notMem hkey, List.append_assoc, List.singleton_append] at hnext
      simpa [Members.get?_cons, hfirst _ j hj, Members.insert_of_notMem hkey, bind, Except.bind]
        using hnext
    | absent hoptional hms =>
      have hmissing : Members.get? ms key = none :=
        Members.get?_of_notMem fun hmem => hnot (hms.keys_sublist.subset hmem)
      simpa [hmissing, missingValue_of_isOptionalField hoptional, bind, Except.bind] using
        ih hrest hvalid hout hms

/-- Validation leaves values in normal form as they are. -/
theorem validateAt_of_normal (h : s.WellFormed) :
    ∀ path w, Normal s w → validateAt path s w = .ok w := by
  induction h with
  | any => simp
  | string | number | integer | boolean =>
    intro path w hw
    cases hw
    simp
  | enumeration _ =>
    intro path w hw
    cases hw with
    | enumeration hmem => simp [hmem]
  | array _ ih =>
    intro path w hw
    cases hw with
    | @array _ xs hxs =>
      have hitems : (xs.zipIdx.mapM fun x =>
          validateAt (path ++ "[" ++ toString x.2 ++ "]") _ x.1) = .ok (xs.zipIdx.map Prod.fst) :=
        mapM_eq_ok fun x hx => ih _ x.1 (hxs x.1 (List.fst_mem_of_mem_zipIdx hx))
      rw [validateAt_array, hitems, List.zipIdx_map_fst]
      rfl
  | object hkeys _ ih =>
    intro path w hw
    cases hw with
    | @object _ ms hms =>
      have hfields : validateFields path _ ([] ++ ms) [] = .ok ([] ++ ms) :=
        validateFields_of_normalFields hkeys ih (by simp) hms
      rw [List.nil_append] at hfields
      rw [validateAt_object, hfields]
      rfl
  | optional _ ih =>
    intro path w hw
    cases hw with
    | absent => simp
    | present hw =>
      by_cases hnull : w = .null
      · simp [hnull]
      · rw [validateAt_optional hnull, ih path w hw]
  | default _ _ ih =>
    intro path w hw
    cases hw with
    | nullDefault => simp
    | given hw hnull => rw [validateAt_default hnull, ih path w hw]

theorem normalFields_emptyFields (hkeys : (fields.map Prod.fst).Nodup)
    (hnormal : ∀ f ∈ fields, Normal f.2 f.2.emptyValue)
    (hout : ∀ k ∈ fields.map Prod.fst, k ∉ out.map Prod.fst) :
    ∃ added, emptyFields fields out = out ++ added ∧ NormalFields fields added := by
  induction fields generalizing out with
  | nil => exact ⟨[], by simp, .nil⟩
  | cons f fields ih =>
    obtain ⟨key, s⟩ := f
    obtain ⟨hnot, hrest⟩ := List.nodup_cons.mp hkeys
    obtain ⟨hfirst, hnormal⟩ := List.forall_mem_cons.mp hnormal
    obtain ⟨hkey, hout⟩ := List.forall_mem_cons.mp hout
    rw [emptyFields]
    split
    · rename_i hoptional
      obtain ⟨added, hadded, hfields⟩ := ih hrest hnormal hout
      exact ⟨added, hadded, .absent hoptional hfields⟩
    · obtain ⟨added, hadded, hfields⟩ :=
        ih hrest hnormal (notMem_keys_insert hnot hout s.emptyValue)
      refine ⟨(key, s.emptyValue) :: added, ?_, .present hfirst hfields⟩
      rw [hadded, Members.insert_of_notMem hkey, List.append_assoc, List.singleton_append]

/-- The empty value is in normal form. -/
theorem normal_emptyValue (h : s.WellFormed) : Normal s s.emptyValue := by
  induction h with
  | any => exact .any _
  | string => exact .string _
  | number => exact .number _
  | integer => exact .integer _
  | boolean => exact .boolean _
  | @enumeration variants hne =>
    obtain ⟨first, rest, rfl⟩ := List.exists_cons_of_ne_nil hne
    exact .enumeration List.mem_cons_self
  | array _ _ => exact .array (by simp)
  | @object fields hkeys _ ih =>
    have hstart : ∀ k ∈ fields.map Prod.fst, k ∉ ([] : Members).map Prod.fst := by simp
    obtain ⟨added, hadded, hfields⟩ := normalFields_emptyFields hkeys ih hstart
    rw [emptyValue, hadded]
    exact .object hfields
  | optional _ _ => exact .absent
  | @default inner value hinner hvalue _ =>
    exact normal_of_validateAt (.default hinner hvalue) "$" .null value rfl

/-- Validation makes normal forms and does nothing to them, and the empty value is one. -/
theorem validate_idempotent (h : s.WellFormed) :
    (∀ v w, s.validate v = .ok w → s.validate w = .ok w ∧ Normal s w) ∧
      s.validate s.emptyValue = .ok s.emptyValue := by
  constructor
  · intro v w hw
    have hnormal := normal_of_validateAt h "$" v w hw
    exact ⟨validateAt_of_normal h "$" w hnormal, hnormal⟩
  · exact validateAt_of_normal h "$" _ (normal_emptyValue h)

def orderSchema : Schema :=
  .object [("side", .enumeration ["buy", "sell"]), ("note", .default (.optional .string) (.str "")),
    ("legs", .array (.object [("size", .integer), ("price", .optional (.default .number .null))])),
    ("rest", .any)]

theorem orderSchema_wellFormed : orderSchema.WellFormed := by
  have hlegs : WellFormed (.object [("size", .integer),
      ("price", .optional (.default .number .null))]) := by
    refine .object (by decide) ?_
    simp only [List.forall_mem_cons]
    exact ⟨.integer, .optional (.default .number (.inl rfl)), by simp⟩
  refine .object (by decide) ?_
  simp only [List.forall_mem_cons]
  exact ⟨.enumeration (by simp), .default (.optional .string) (.inr rfl), .array hlegs, .any,
    by simp⟩

/-- Members in another order than declared, one of them not declared at all, and one missing. -/
def looseOrder : Json :=
  .obj [("legs", .arr [.obj [("price", .null), ("size", Json.ofNat 2)]]), ("more", .null),
    ("side", .str "sell")]

def normalOrder : Json :=
  .obj [("side", .str "sell"), ("note", .str ""),
    ("legs", .arr [.obj [("size", Json.ofNat 2), ("price", .null)]])]

theorem validate_looseOrder : orderSchema.validate looseOrder = .ok normalOrder := by rfl

theorem validate_idempotent_order :
    orderSchema.WellFormed ∧ orderSchema.validate looseOrder = .ok normalOrder ∧
      orderSchema.validate normalOrder = .ok normalOrder :=
  ⟨orderSchema_wellFormed, validate_looseOrder,
    ((validate_idempotent orderSchema_wellFormed).1 _ _ validate_looseOrder).1⟩

end TagLedger.Schema
