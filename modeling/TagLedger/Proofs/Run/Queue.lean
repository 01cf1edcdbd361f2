import Mathlib.Data.List.Nodup
import Mathlib.Tactic.Common
import TagLedger.Proofs.Run.Handling

/-!
The queue for permits. Every task in it waits before its first attempt, so a permit that is handed
on never disturbs an attempt.
-/

namespace TagLedger

open Phase (Carries)

inductive CallTask.Served : CallTask → CallTask → Prop where
  | same (t : CallTask) : Served t t
  | admitted {t : CallTask} {v : Json} (h : t.phase = .working v .queued) :
    Served t { t with phase := .working v (.admitted 0) }

namespace CallTask.Served

variable {t u : CallTask} {P Q : Json → Prop}

theorem action_eq (h : t.Served u) : u.action = t.action := by
  cases h <;> rfl

theorem holdsSlice_eq (h : t.Served u) : u.phase.holdsSlice = t.phase.holdsSlice := by
  cases h with
  | same => rfl
  | admitted h =>
    rw [h]
    rfl

theorem carries (h : t.Served u) (ht : t.phase.Carries P Q) : u.phase.Carries P Q := by
  cases h with
  | same => exact ht
  | admitted h =>
    rw [h] at ht
    exact ht

end CallTask.Served

theorem CallTask.served_letIn {t : CallTask} {v : Json} (h : t.phase = .working v .queued) :
    t.Served t.letIn := by
  have hphase : t.letIn = { t with phase := .working v (.admitted 0) } := by
    simp only [letIn, h]
  rw [hphase]
  exact .admitted h

namespace Run

variable {i k : Nat} {t t' u w : CallTask} {p : Phase} {r r' : Run}

structure Lined (r : Run) : Prop where
  nodup : r.permits.queue.Nodup
  waits : ∀ j ∈ r.permits.queue, ∃ t v, r.tasks[j]? = some t ∧ t.phase = .working v .queued

/-- A task in the queue takes no step. -/
theorem stepTask?_queued {v : Json} (ht : r.tasks[i]? = some t)
    (hphase : t.phase = .working v .queued) : r.stepTask? i = none := by
  simp only [stepTask?, ht, Option.bind_some, hphase, stepWorking?, Runner.Job.next]

theorem Lined.not_mem (h : Lined r) (hs : r.stepTask? i = some r') : i ∉ r.permits.queue := by
  intro hi
  obtain ⟨t, v, ht, hphase⟩ := h.waits i hi
  rw [stepTask?_queued ht hphase] at hs
  cases hs

/-- The other tasks are served in the order of the queue. -/
theorem Neighbours.served (h : Neighbours i p r r') (hl : Lined r) (hk : k ≠ i) :
    Option.Rel CallTask.Served r.tasks[k]? r'.tasks[k]? := by
  have hrefl : Option.Rel CallTask.Served r.tasks[k]? r.tasks[k]? := by
    cases r.tasks[k]? with
    | none => exact .none
    | some t => exact .some (.same t)
  cases h with
  | still _ ht => rwa [ht k hk]
  | joins _ _ ht => rwa [ht k hk]
  | @admits j hq ht =>
    rw [ht k hk]
    split
    · rename_i hj
      obtain ⟨t, v, htask, hphase⟩ := hl.waits j (hq ▸ List.mem_cons_self)
      rw [← hj, htask]
      exact .some (CallTask.served_letIn hphase)
    · exact hrefl

theorem Neighbours.exists_served (h : Neighbours i p r r') (hl : Lined r) (hk : k ≠ i)
    (hu : r'.tasks[k]? = some u) : ∃ w, r.tasks[k]? = some w ∧ w.Served u := by
  have hrel := h.served hl hk
  rw [hu] at hrel
  cases hw : r.tasks[k]? with
  | none =>
    rw [hw] at hrel
    cases hrel
  | some w =>
    rw [hw] at hrel
    cases hrel with
    | some hserved => exact ⟨w, rfl, hserved⟩

theorem Neighbours.served_of_before (h : Neighbours i p r r') (hl : Lined r) (hk : k ≠ i)
    (hw : r.tasks[k]? = some w) : ∃ u, r'.tasks[k]? = some u ∧ w.Served u := by
  have hrel := h.served hl hk
  rw [hw] at hrel
  cases hu : r'.tasks[k]? with
  | none =>
    rw [hu] at hrel
    cases hrel
  | some u =>
    rw [hu] at hrel
    cases hrel with
    | some hserved => exact ⟨u, rfl, hserved⟩

theorem Neighbours.lined (h : Neighbours i p r r') (hl : Lined r) (hi : i ∉ r.permits.queue)
    (ht' : r'.tasks[i]? = some t') (hp : t'.phase = p) : Lined r' := by
  cases h with
  | still hq ht =>
    refine ⟨hq ▸ hl.nodup, fun j hj => ?_⟩
    rw [hq] at hj
    rw [ht j fun hji => hi (hji ▸ hj)]
    exact hl.waits j hj
  | @joins v hphase hq ht =>
    refine ⟨?_, fun j hj => ?_⟩
    · rw [hq]
      refine List.nodup_append.mpr ⟨hl.nodup, List.nodup_singleton i, fun a ha b hb => ?_⟩
      rw [List.mem_singleton.mp hb]
      exact fun hai => hi (hai ▸ ha)
    · rw [hq] at hj
      rcases List.mem_append.mp hj with hj | hj
      · rw [ht j fun hji => hi (hji ▸ hj)]
        exact hl.waits j hj
      · rw [List.mem_singleton.mp hj]
        exact ⟨t', v, ht', hp.trans hphase⟩
  | @admits j hq ht =>
    have hnodup := hl.nodup
    rw [hq] at hnodup
    obtain ⟨hj, hrest⟩ := List.nodup_cons.mp hnodup
    refine ⟨hrest, fun k hk => ?_⟩
    have hmem : k ∈ r.permits.queue := hq ▸ List.mem_cons_of_mem j hk
    have hne : j ≠ k := fun hjk => hj (hjk ▸ hk)
    rw [ht k fun hki => hi (hki ▸ hmem), if_neg hne]
    exact hl.waits k hmem

end Run

end TagLedger
