import Mathlib.Data.List.Basic
import Mathlib.Tactic.Common
import TagLedger.Entry.Open

/-!
Open entries by their index. An entry that is set is found until it is removed, the others stay as
they are, and every index that was ever asked for counts as given out.
-/

namespace TagLedger.OpenEntries

variable {o : OpenEntries} {i j : Nat} {e : Entry}

theorem lookup_cons (j k : Nat) (e : Entry) (es : List (Nat × Entry)) :
    List.lookup j ((k, e) :: es) = if j = k then some e else List.lookup j es := by
  by_cases h : j = k
  · simp [h]
  · have hne : (j == k) = false := by simpa using h
    simp [List.lookup_cons, hne, h]

theorem lookup_setEntry (i j : Nat) (e : Entry) (es : List (Nat × Entry)) :
    (setEntry i e es).lookup j = if j = i then some e else es.lookup j := by
  induction es with
  | nil => simp [setEntry, lookup_cons]
  | cons x es ih =>
    obtain ⟨k, d⟩ := x
    by_cases hk : k = i
    · simp only [setEntry, hk, if_true, lookup_cons]
      split <;> rfl
    · simp only [setEntry, hk, if_false, lookup_cons, ih]
      by_cases hj : j = k
      · simp [hj, hk]
      · simp [hj]

theorem lookup_filter_ne (i j : Nat) (es : List (Nat × Entry)) :
    (es.filter fun x => x.1 != i).lookup j = if j = i then none else es.lookup j := by
  induction es with
  | nil => simp
  | cons x es ih =>
    obtain ⟨k, d⟩ := x
    by_cases hk : k = i
    · simp only [List.filter_cons, hk, bne_self_eq_false, Bool.false_eq_true, if_false, ih,
        lookup_cons]
      split <;> rfl
    · simp only [List.filter_cons, bne_iff_ne, ne_eq, hk, not_false_eq_true, if_true, lookup_cons,
        ih]
      by_cases hj : j = k
      · simp [hj, hk]
      · simp [hj]

theorem get?_set (o : OpenEntries) (i j : Nat) (e : Entry) :
    (o.set i e).get? j = if j = i then some e else o.get? j := lookup_setEntry i j e o.entries

theorem get?_remove (o : OpenEntries) (i j : Nat) :
    (o.remove i).2.get? j = if j = i then none else o.get? j := lookup_filter_ne i j o.entries

@[simp] theorem get?_reserve (o : OpenEntries) (i j : Nat) : (o.reserve i).get? j = o.get? j := rfl

@[simp] theorem nextIndex_set (o : OpenEntries) (i : Nat) (e : Entry) :
    (o.set i e).nextIndex = o.nextIndex := rfl

@[simp] theorem nextIndex_reserve (o : OpenEntries) (i : Nat) :
    (o.reserve i).nextIndex = max o.nextIndex (i + 1) := by
  cases h : o.highest with
  | none => simp [reserve, nextIndex, h]
  | some k =>
    simp only [reserve, nextIndex, h]
    omega

theorem mem_of_get? (h : o.get? i = some e) : (i, e) ∈ o.entries := by
  obtain ⟨before, after, hentries, _⟩ := List.lookup_eq_some_iff.mp h
  rw [hentries]
  exact List.mem_append_right _ List.mem_cons_self

variable {kind : EntryKind} {id : Uuid} {now : Timestamp}

theorem getOrCreate_of_some (h : o.get? i = some e) :
    o.getOrCreate i kind id now = (e, o.reserve i) := by
  simp [getOrCreate, h]

theorem getOrCreate_of_none (h : o.get? i = none) :
    o.getOrCreate i kind id now =
      (Entry.streaming kind id i now, (o.reserve i).set i (Entry.streaming kind id i now)) := by
  simp [getOrCreate, h]

/-- The entry of an index is there already, or is begun now. -/
theorem getOrCreate_cases (o : OpenEntries) (i : Nat) (kind : EntryKind) (id : Uuid)
    (now : Timestamp) :
    (i, (o.getOrCreate i kind id now).1) ∈ o.entries ∨
      (o.getOrCreate i kind id now).1 = Entry.streaming kind id i now := by
  cases hfound : o.get? i with
  | none => exact .inr (by rw [getOrCreate_of_none hfound])
  | some e =>
    rw [getOrCreate_of_some hfound]
    exact .inl (mem_of_get? hfound)

/-- Asking for an index touches no other index. -/
theorem get?_getOrCreate_of_ne (h : j ≠ i) :
    (o.getOrCreate i kind id now).2.get? j = o.get? j := by
  cases hfound : o.get? i with
  | none => simp [getOrCreate_of_none hfound, get?_set, h]
  | some e => simp [getOrCreate_of_some hfound]

theorem nextIndex_getOrCreate (o : OpenEntries) (i : Nat) (kind : EntryKind) (id : Uuid)
    (now : Timestamp) :
    (o.getOrCreate i kind id now).2.nextIndex = max o.nextIndex (i + 1) := by
  cases hfound : o.get? i with
  | none => simp [getOrCreate_of_none hfound]
  | some e => simp [getOrCreate_of_some hfound]

end TagLedger.OpenEntries
