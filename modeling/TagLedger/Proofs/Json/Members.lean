import Mathlib.Data.List.Nodup
import Mathlib.Tactic.Common
import TagLedger.Json.Basic

/-!
The members of an object: which one is found under a name, and where an insertion puts a member.
-/

namespace TagLedger.Json.Members

variable {ms : Members} {key : String} {value : Json}

theorem get?_eq_some_iff (hkeys : (ms.map Prod.fst).Nodup) :
    ms.get? key = some value ↔ (key, value) ∈ ms := by
  induction ms with
  | nil => simp
  | cons m ms ih =>
    obtain ⟨l, x⟩ := m
    obtain ⟨hnot, hkeys⟩ := List.nodup_cons.mp hkeys
    rw [get?_cons]
    by_cases hl : l = key
    · subst hl
      have hothers : (l, value) ∉ ms := fun h => hnot (List.mem_map.mpr ⟨_, h, rfl⟩)
      simp [hothers, eq_comm]
    · simp [hl, ih hkeys, Ne.symm hl]

theorem mem_of_get? (h : ms.get? key = some value) : (key, value) ∈ ms := by
  induction ms with
  | nil => simp at h
  | cons m ms ih =>
    obtain ⟨l, x⟩ := m
    rw [get?_cons] at h
    split at h
    · rename_i hl
      cases h
      exact hl ▸ List.mem_cons_self
    · exact List.mem_cons_of_mem _ (ih h)

theorem get?_append_of_notMem (h : key ∉ ms.map Prod.fst) (more : Members) :
    Members.get? (ms ++ more) key = more.get? key := by
  induction ms with
  | nil => rfl
  | cons m ms ih =>
    obtain ⟨l, x⟩ := m
    simp only [List.map_cons, List.mem_cons, not_or] at h
    rw [List.cons_append, get?_cons, if_neg (Ne.symm h.1), ih h.2]

theorem get?_of_notMem (h : key ∉ ms.map Prod.fst) : ms.get? key = none := by
  simpa using get?_append_of_notMem h []

theorem mem_keys_insert {k : String} :
    k ∈ (insert ms key value).map Prod.fst ↔ k ∈ ms.map Prod.fst ∨ k = key := by
  induction ms with
  | nil => simp [insert]
  | cons m ms ih =>
    obtain ⟨l, x⟩ := m
    rw [insert]
    split
    · rename_i hl
      simp only [List.map_cons, List.mem_cons, hl]
      tauto
    · simp only [List.map_cons, List.mem_cons, ih]
      tauto

theorem nodup_insert (h : (ms.map Prod.fst).Nodup) :
    ((insert ms key value).map Prod.fst).Nodup := by
  induction ms with
  | nil => simp [insert]
  | cons m ms ih =>
    obtain ⟨l, x⟩ := m
    obtain ⟨hnot, hms⟩ := List.nodup_cons.mp h
    rw [insert]
    split
    · exact List.nodup_cons.mpr ⟨hnot, hms⟩
    · rename_i hl
      refine List.nodup_cons.mpr ⟨fun hmem => ?_, ih hms⟩
      exact (mem_keys_insert.mp hmem).elim hnot hl

theorem mem_insert {m : String × Json} (h : m ∈ insert ms key value) :
    m ∈ ms ∨ m = (key, value) := by
  induction ms with
  | nil => exact .inr (List.mem_singleton.mp h)
  | cons n ms ih =>
    obtain ⟨l, x⟩ := n
    rw [insert] at h
    split at h
    · rename_i hl
      rcases List.mem_cons.mp h with rfl | h
      · exact .inr (hl ▸ rfl)
      · exact .inl (List.mem_cons_of_mem _ h)
    · rcases List.mem_cons.mp h with rfl | h
      · exact .inl List.mem_cons_self
      · exact (ih h).imp_left (List.mem_cons_of_mem _)

/-- A new name comes last. -/
theorem insert_of_notMem (h : key ∉ ms.map Prod.fst) (value : Json) :
    insert ms key value = ms ++ [(key, value)] := by
  induction ms with
  | nil => rfl
  | cons m ms ih =>
    obtain ⟨l, x⟩ := m
    simp only [List.map_cons, List.mem_cons, not_or] at h
    simp [insert, Ne.symm h.1, ih h.2]

/-- A name that is there keeps its place. -/
theorem insert_of_mem (hkeys : (ms.map Prod.fst).Nodup) (h : key ∈ ms.map Prod.fst)
    (value : Json) :
    insert ms key value = ms.map fun m => (m.1, if m.1 = key then value else m.2) := by
  induction ms with
  | nil => simp at h
  | cons m ms ih =>
    obtain ⟨l, x⟩ := m
    obtain ⟨hnot, hkeys⟩ := List.nodup_cons.mp hkeys
    by_cases hl : l = key
    · subst hl
      have hothers : (ms.map fun m => (m.1, if m.1 = l then value else m.2)) = ms := by
        refine (List.map_congr_left fun m hm => ?_).trans (List.map_id ms)
        have hne : m.1 ≠ l := fun heq => hnot (List.mem_map.mpr ⟨m, hm, heq⟩)
        simp [hne]
      simp [insert, hothers]
    · have hrest : key ∈ ms.map Prod.fst := by simpa [Ne.symm hl] using h
      simp [insert, hl, ih hkeys hrest]

/-- A member that is there already changes nothing. -/
theorem insert_of_get? (h : get? ms key = some value) : insert ms key value = ms := by
  induction ms with
  | nil => simp at h
  | cons m ms ih =>
    obtain ⟨l, x⟩ := m
    by_cases hl : l = key
    · obtain rfl : x = value := by simpa [get?_cons, hl] using h
      simp [insert, hl]
    · have hrest : get? ms key = some value := by simpa [get?_cons, hl] using h
      simp [insert, hl, ih hrest]

end TagLedger.Json.Members
