import Mathlib.Data.List.Nodup
import Mathlib.Tactic.Common
import TagLedger.Run.Message

/-!
Late data of calls. The data of a call becomes known after the call was committed, when working
memory may have dropped it already. Noting it in a memory that a chain led to comes to the same as
noting it in the chain and rebuilding the memory.
-/

namespace TagLedger

namespace Entry

def call? : Entry → Option Call
  | .call c => some c
  | _ => none

@[simp] theorem call?_call (c : Call) : call? (.call c) = some c := rfl

theorem call?_eq_some_iff {e : Entry} {c : Call} : e.call? = some c ↔ e = .call c := by
  cases e <;> simp [call?]

def mapCall (f : Call → Call) : Entry → Entry
  | .call c => .call (f c)
  | e => e

def Call.patch (id : Uuid) (data : Json) (c : Call) : Call :=
  if c.id == id then { c with data := some data } else c

theorem Call.patch_of_ne {id : Uuid} {c : Call} (h : c.id ≠ id) (data : Json) :
    c.patch id data = c := by
  simp [patch, h]

end Entry

def callsOf (chain : List Entry) : List Entry.Call := chain.filterMap Entry.call?

@[simp] theorem callsOf_append (es fs : List Entry) :
    callsOf (es ++ fs) = callsOf es ++ callsOf fs :=
  List.filterMap_append

theorem mem_callsOf {chain : List Entry} {c : Entry.Call} :
    c ∈ callsOf chain ↔ .call c ∈ chain := by
  simp [callsOf, Entry.call?_eq_some_iff]

def callIds (chain : List Entry) : List Uuid := (callsOf chain).map (·.id)

theorem mem_callIds {chain : List Entry} {id : Uuid} :
    id ∈ callIds chain ↔ ∃ c, Entry.call c ∈ chain ∧ c.id = id := by
  simp [callIds, mem_callsOf]

theorem callIds_append (es fs : List Entry) : callIds (es ++ fs) = callIds es ++ callIds fs := by
  simp [callIds]

/-- Among distinct identifiers, at most one call has a given one. -/
theorem countP_callsOf_le_one {chain : List Entry} (h : (chain.map Entry.id).Nodup) (id : Uuid) :
    (callsOf chain).countP (fun c => c.id == id) ≤ 1 := by
  have hone := List.nodup_iff_count_le_one.mp h id
  rw [List.count, List.countP_map] at hone
  refine Nat.le_trans ?_ hone
  rw [callsOf, List.countP_filterMap]
  refine List.countP_mono_left fun e _ he => ?_
  cases e with
  | call c => exact he
  | _ => simp [Entry.call?] at he

namespace Retention

theorem keepLast_map {α β : Type} (f : α → β) (max : Nat) (xs : List α) :
    keepLast max (xs.map f) = (keepLast max xs).map f := by
  simp [keepLast]

end Retention

namespace WorkingMemory

def mapCalls (f : Entry.Call → Entry.Call) (m : WorkingMemory) : WorkingMemory :=
  { m with calls := m.calls.map f }

theorem push_mapCalls (f : Entry.Call → Entry.Call) (m : WorkingMemory) (e : Entry) :
    (m.mapCalls f).push (e.mapCall f) = (m.push e).mapCalls f := by
  cases e <;> simp [push, mapCalls, Entry.mapCall]

theorem trim_mapCalls (ret : Retention) (f : Entry.Call → Entry.Call) (m : WorkingMemory) :
    ret.trim (m.mapCalls f) = (ret.trim m).mapCalls f := by
  simp [Retention.trim, mapCalls, Retention.keepLast_map]

theorem rebuild_mapCalls (ret : Retention) (f : Entry.Call → Entry.Call) (m : WorkingMemory)
    (chain : List Entry) :
    RunRecord.rebuild ret (m.mapCalls f) (chain.map (Entry.mapCall f)) =
      (RunRecord.rebuild ret m chain).mapCalls f := by
  induction chain generalizing m with
  | nil => rfl
  | cons e chain ih =>
    have h := ih (ret.trim (m.push e))
    rw [← trim_mapCalls, ← push_mapCalls] at h
    exact h

theorem calls_trim_push_sublist (ret : Retention) (m : WorkingMemory) (e : Entry) :
    (ret.trim (m.push e)).calls.Sublist (m.calls ++ callsOf [e]) := by
  have h : (m.push e).calls = m.calls ++ callsOf [e] := by
    cases e <;> simp [push, callsOf, Entry.call?]
  rw [← h]
  exact List.drop_sublist _ _

/-- A memory that a chain leads to has no calls but those before and those of the chain. -/
theorem calls_rebuild_sublist (ret : Retention) (m : WorkingMemory) (chain : List Entry) :
    (RunRecord.rebuild ret m chain).calls.Sublist (m.calls ++ callsOf chain) := by
  induction chain generalizing m with
  | nil => exact (List.append_nil m.calls).symm ▸ List.Sublist.refl _
  | cons e chain ih =>
    refine (ih (ret.trim (m.push e))).trans ?_
    have h := (calls_trim_push_sublist ret m e).append_right (callsOf chain)
    rwa [List.append_assoc, ← callsOf_append] at h

/-- A change of the first element that keeps what `g` sees is not seen. -/
theorem map_updateFirst {α β : Type} {p : α → Bool} {f : α → α} {g : α → β} {xs : List α}
    (h : ∀ x, xs.find? p = some x → g (f x) = g x) : (updateFirst p f xs).map g = xs.map g := by
  induction xs with
  | nil => rfl
  | cons x xs ih =>
    by_cases hx : p x = true
    · simp [updateFirst, hx, h x (List.find?_cons_of_pos hx)]
    · have hrest := ih fun y hy => h y ((List.find?_cons_of_neg hx).trans hy)
      simp [updateFirst, hx, hrest]

/-- If at most one element satisfies `p`, changing the first is changing all. -/
theorem updateFirst_eq_map {α : Type} {p : α → Bool} (f : α → α) {xs : List α}
    (h : xs.countP p ≤ 1) : updateFirst p f xs = xs.map fun x => if p x then f x else x := by
  induction xs with
  | nil => rfl
  | cons x xs ih =>
    by_cases hx : p x = true
    · have hrest : ∀ y ∈ xs, ¬ p y = true := by
        rw [List.countP_cons_of_pos hx] at h
        exact List.countP_eq_zero.mp (by omega)
      have hsame : xs.map (fun y => if p y then f y else y) = xs :=
        (List.map_congr_left fun y hy => if_neg (hrest y hy)).trans (List.map_id xs)
      simp [updateFirst, hx, hsame]
    · rw [List.countP_cons_of_neg hx] at h
      simp [updateFirst, hx, ih h]

theorem setCallData_eq_mapCalls {m : WorkingMemory} {id : Uuid}
    (h : m.calls.countP (fun c => c.id == id) ≤ 1) (data : Json) :
    m.setCallData id data = m.mapCalls (Entry.Call.patch id data) := by
  unfold setCallData mapCalls
  rw [updateFirst_eq_map _ h]
  rfl

end WorkingMemory

namespace Run

variable {chain : List Entry} {c : Entry.Call}

theorem chainCall?_eq_some_iff {id : Uuid} :
    chainCall? id chain = some c ↔ chain.find? (fun e => e.id == id) = some (.call c) := by
  unfold chainCall?
  split <;> simp_all

theorem mem_of_chainCall? {id : Uuid} (h : chainCall? id chain = some c) :
    Entry.call c ∈ chain ∧ c.id = id := by
  have hfind := chainCall?_eq_some_iff.mp h
  have hid := List.find?_some hfind
  exact ⟨List.mem_of_find?_eq_some hfind, beq_iff_eq.mp hid⟩

/-- Noting the data of a call changes no identifier. -/
theorem ids_replaceFirst {id : Uuid} (h : chainCall? id chain = some c) (data : Json) :
    (replaceFirst id (.call { c with data := some data }) chain).map Entry.id =
      chain.map Entry.id := by
  refine WorkingMemory.map_updateFirst fun e he => ?_
  obtain rfl := Option.some.inj (he.symm.trans (chainCall?_eq_some_iff.mp h))
  rfl

theorem callIds_replaceFirst {id : Uuid} (h : chainCall? id chain = some c) (data : Json) :
    callIds (replaceFirst id (.call { c with data := some data }) chain) = callIds chain := by
  have hids (es : List Entry) :
      callIds es = (es.map fun e => e.call?.map (·.id)).filterMap fun x => x := by
    simp [callIds, callsOf, List.map_filterMap, List.filterMap_map]
  rw [hids, hids chain]
  congr 1
  refine WorkingMemory.map_updateFirst fun e he => ?_
  obtain rfl := Option.some.inj (he.symm.trans (chainCall?_eq_some_iff.mp h))
  rfl

/-- Among distinct identifiers, that of a call finds the call. -/
theorem chainCall?_of_mem (hids : (chain.map Entry.id).Nodup) (hc : Entry.call c ∈ chain) :
    chainCall? c.id chain = some c := by
  rw [chainCall?_eq_some_iff]
  cases h : chain.find? fun e => e.id == c.id with
  | none =>
    have hne := List.find?_eq_none.mp h (.call c) hc
    exact absurd (beq_self_eq_true c.id) hne
  | some e =>
    have hid := List.find?_some h
    rw [List.inj_on_of_nodup_map hids (List.mem_of_find?_eq_some h) hc (beq_iff_eq.mp hid)]

theorem replaceFirst_eq_map (hids : (chain.map Entry.id).Nodup) (hc : Entry.call c ∈ chain)
    (data : Json) :
    replaceFirst c.id (.call { c with data := some data }) chain =
      chain.map (Entry.mapCall (Entry.Call.patch c.id data)) := by
  have hone : chain.countP (fun e => e.id == c.id) ≤ 1 := by
    have h := List.nodup_iff_count_le_one.mp hids c.id
    rwa [List.count, List.countP_map] at h
  unfold replaceFirst
  rw [WorkingMemory.updateFirst_eq_map _ hone]
  refine List.map_congr_left fun e he => ?_
  by_cases hid : e.id = c.id
  · obtain rfl : e = .call c := List.inj_on_of_nodup_map hids he hc hid
    simp [Entry.mapCall, Entry.Call.patch, hid]
  · have hsame : e.mapCall (Entry.Call.patch c.id data) = e := by
      cases e with
      | call d => exact congrArg Entry.call (Entry.Call.patch_of_ne hid data)
      | _ => rfl
    simp [hid, hsame]

end Run

end TagLedger
