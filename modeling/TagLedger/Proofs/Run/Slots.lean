import Mathlib.Data.List.Nodup
import Mathlib.Tactic.Common
import TagLedger.Call.Slot

/-!
Slots with distinct identifiers. A call that is dispatched under a new identifier drops no other,
and a call that ends leaves every other slot as it is.
-/

namespace TagLedger.CallSlot

variable {slots : List CallSlot} {id : Uuid} {s : CallSlot} {k : Nat}

theorem isWaiting_iff : s.isWaiting = true ↔ s.state = .waiting := beq_iff_eq

theorem awaits_iff : s.awaits id = true ↔ s.callId = id ∧ s.state = .waiting := by
  rw [awaits, Bool.and_eq_true, beq_iff_eq, isWaiting_iff]

theorem add_eq (slots : List CallSlot) (name : String) (id : Uuid) :
    add slots name id = resolve id .dropped slots ++ [⟨name, id, .waiting⟩] := rfl

/-- A slot after a call has ended is as it was, or waited for the call and is in its new state. -/
theorem of_resolve {state : CallState} {s' : CallSlot}
    (h : (resolve id state slots)[k]? = some s') :
    (slots[k]? = some s' ∧ s'.awaits id = false) ∨
      ∃ s, slots[k]? = some s ∧ s.awaits id = true ∧ s' = { s with state } := by
  rw [resolve, List.getElem?_map] at h
  obtain ⟨s, hs, rfl⟩ := Option.map_eq_some_iff.mp h
  cases hawaits : s.awaits id with
  | false => exact .inl ⟨hs, hawaits⟩
  | true => exact .inr ⟨s, hs, hawaits, rfl⟩

/-- Slots keep their identifiers when some get a new state. -/
theorem exists_resolve (id : Uuid) (state : CallState) (hs : slots[k]? = some s) :
    ∃ s', (resolve id state slots)[k]? = some s' ∧ s'.callId = s.callId := by
  rw [resolve, List.getElem?_map, hs, Option.map_some]
  refine ⟨_, rfl, ?_⟩
  split <;> rfl

theorem add_of_not_mem (h : id ∉ slots.map (·.callId)) (name : String) :
    add slots name id = slots ++ [⟨name, id, .waiting⟩] := by
  have hkeep : (slots.map fun s => if s.awaits id then { s with state := .dropped } else s) =
      slots := by
    refine (List.map_congr_left fun s hs => ?_).trans (List.map_id slots)
    have hne : s.callId ≠ id := fun he => h (he ▸ List.mem_map_of_mem hs)
    simp [awaits, hne]
  rw [add, hkeep]

@[simp] theorem map_callId_resolve (id : Uuid) (state : CallState) (slots : List CallSlot) :
    (resolve id state slots).map (·.callId) = slots.map (·.callId) := by
  simp only [resolve, List.map_map]
  refine List.map_congr_left fun s _ => ?_
  simp only [Function.comp]
  split <;> rfl

@[simp] theorem map_name_resolve (id : Uuid) (state : CallState) (slots : List CallSlot) :
    (resolve id state slots).map (fun s => (s.name, s.callId)) =
      slots.map fun s => (s.name, s.callId) := by
  simp only [resolve, List.map_map]
  refine List.map_congr_left fun s _ => ?_
  simp only [Function.comp]
  split <;> rfl

theorem map_name_add (slots : List CallSlot) (name : String) (id : Uuid) :
    (add slots name id).map (fun s => (s.name, s.callId)) =
      slots.map (fun s => (s.name, s.callId)) ++ [(name, id)] := by
  rw [add, List.map_append, List.map_map]
  refine congrArg (· ++ _) (List.map_congr_left fun s _ => ?_)
  simp only [Function.comp]
  split <;> rfl

/-- Among distinct identifiers, one slot has a given one. -/
theorem eq_of_callId (hids : (slots.map (·.callId)).Nodup) {j : Nat} {s' : CallSlot}
    (hs : slots[k]? = some s) (hs' : slots[j]? = some s') (h : s.callId = s'.callId) : k = j := by
  have hk : (slots.map (·.callId))[k]? = some s.callId := by simp [hs]
  have hj : (slots.map (·.callId))[j]? = some s.callId := by simp [hs', h]
  obtain ⟨hlt, _⟩ := List.getElem?_eq_some_iff.mp hk
  exact (List.getElem?_inj hlt hids).mp (hk.trans hj.symm)

/-- Among distinct identifiers, a call that ends changes its own slot and no other. -/
theorem of_resolve_waiting (hids : (slots.map (·.callId)).Nodup) (hs : slots[k]? = some s)
    (hwaiting : s.state = .waiting) {state : CallState} {j : Nat} {x : CallSlot}
    (hx : (resolve s.callId state slots)[j]? = some x) :
    (j = k ∧ x = { s with state }) ∨ (j ≠ k ∧ slots[j]? = some x ∧ x.callId ≠ s.callId) := by
  rcases of_resolve hx with ⟨hx, hnot⟩ | ⟨y, hy, hawaits, rfl⟩
  · have hother : j ≠ k := by
      rintro rfl
      obtain rfl : s = x := Option.some.inj (hs.symm.trans hx)
      rw [awaits_iff.mpr ⟨rfl, hwaiting⟩] at hnot
      cases hnot
    exact .inr ⟨hother, hx, fun he => hother (eq_of_callId hids hx hs he)⟩
  · obtain rfl := eq_of_callId hids hy hs (awaits_iff.mp hawaits).1
    obtain rfl : s = y := Option.some.inj (hs.symm.trans hy)
    exact .inl ⟨rfl, rfl⟩

theorem countP_isWaiting_eq_add (id : Uuid) {state : CallState} (hstate : state ≠ .waiting)
    (slots : List CallSlot) :
    slots.countP isWaiting =
      (resolve id state slots).countP isWaiting + slots.countP (awaits id) := by
  induction slots with
  | nil => rfl
  | cons x slots ih =>
    have hcons : resolve id state (x :: slots) =
        (if x.awaits id then { x with state } else x) :: resolve id state slots := rfl
    rw [hcons, List.countP_cons, List.countP_cons, List.countP_cons, ih]
    by_cases hx : x.awaits id = true
    · have hwaiting : x.isWaiting = true := (Bool.and_eq_true_iff.mp hx).2
      have hended : isWaiting { x with state } = false := beq_eq_false_iff_ne.mpr hstate
      simp only [hx, hwaiting, hended, ↓reduceIte, Bool.false_eq_true]
      omega
    · simp only [hx, ↓reduceIte, Bool.false_eq_true]
      omega

/-- A call that ends was counted as waiting, and no other is counted less. -/
theorem countP_isWaiting_resolve (hids : (slots.map (·.callId)).Nodup) (hs : s ∈ slots)
    (hwaiting : s.state = .waiting) {state : CallState} (hstate : state ≠ .waiting) :
    (resolve s.callId state slots).countP isWaiting = slots.countP isWaiting - 1 := by
  have hsplit := countP_isWaiting_eq_add s.callId hstate slots
  have hone : slots.countP (awaits s.callId) ≤ 1 := by
    refine Nat.le_trans ?_ (List.nodup_iff_count_le_one.mp hids s.callId)
    rw [List.count, List.countP_map]
    exact List.countP_mono_left fun x _ hx => (Bool.and_eq_true_iff.mp hx).1
  have hsome : 0 < slots.countP (awaits s.callId) :=
    List.countP_pos_iff.mpr ⟨s, hs, by simp [awaits, isWaiting, hwaiting]⟩
  omega

end TagLedger.CallSlot
