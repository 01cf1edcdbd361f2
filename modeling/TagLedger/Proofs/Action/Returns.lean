import TagLedger.Action.Basic
import TagLedger.Proofs.Action.Moves

/-!
Scripts that come to an end by themselves. They may wait for points of time, and for cancellation
only once the run is cancelled: nobody else has to cancel it. No script takes steps without end.
-/

namespace TagLedger

namespace Script

variable {α : Type}

/-- The script ends, begun in a run that is cancelled or not. -/
def Returns : Script α → (cancelled : Bool) → Prop
  | .done _, _ => True
  | .crash, _ => True
  | .sleep _ next, c => next.Returns c
  | .sleepUntil _ next, c => next.Returns c
  | .awaitCancel next, c => c = true ∧ next.Returns true
  | .readMemory next, c => ∀ v, (next v).Returns c
  | .writeMemory _ next, c => next.Returns c
  | .post _ next, c => next.Returns c
  | .cancel next, _ => next.Returns true
  | .isCancelled next, c => (next true).Returns true ∧ (c = false → (next false).Returns false)

/-- Cancellation does not keep a script from its end. -/
theorem Returns.cancelled {s : Script α} {c : Bool} (h : s.Returns c) : s.Returns true := by
  induction s generalizing c with
  | done a => trivial
  | crash => trivial
  | sleep ms next ih => exact ih h
  | sleepUntil t next ih => exact ih h
  | awaitCancel next ih => exact ⟨rfl, h.2⟩
  | readMemory next ih => exact fun v => ih v (h v)
  | writeMemory w next ih => exact ih h
  | post p next ih => exact ih h
  | cancel next ih => exact h
  | isCancelled next ih => exact ⟨h.1, nofun⟩

theorem Returns.mono {s : Script α} {c c' : Bool} (hc : c = true → c' = true) (h : s.Returns c) :
    s.Returns c' := by
  cases c' with
  | true => exact h.cancelled
  | false =>
    cases c with
    | false => exact h
    | true => cases hc rfl

theorem Returns.of_moved {s s' : Script α} {scene scene' : Scene} (h : s.Returns scene.cancelled)
    (hs : s.step scene = .moved s' scene') : s'.Returns scene'.cancelled := by
  cases moves_of_step hs with
  | awaitCancel hc =>
    rw [hc]
    exact h.2
  | readMemory => exact h scene.slice
  | isCancelled =>
    cases hc : scene.cancelled with
    | true => exact h.1
    | false => exact h.2 hc
  | _ => exact h

/-- Such a script waits for nothing but a point of time, and goes on then. -/
theorem Returns.wakes {s : Script α} {scene : Scene} (h : s.Returns scene.cancelled)
    (hs : s.step scene = .waiting) :
    ∃ time, s.wakeTime? = some time ∧ scene.now < time ∧
      ∀ scene' : Scene, time ≤ scene'.now → s.step scene' ≠ .waiting := by
  cases s with
  | sleepUntil t next =>
    simp only [step] at hs
    split at hs
    · cases hs
    · rename_i ht
      refine ⟨t, rfl, Nat.lt_of_not_le ht, fun scene' ht' => ?_⟩
      simp [step, ht']
  | awaitCancel next =>
    simp only [step, h.1, ↓reduceIte] at hs
    cases hs
  | _ => cases hs

/-- What is left of a script after one step. -/
def After (s' s : Script α) : Prop := ∃ scene scene', s.step scene = .moved s' scene'

theorem acc_after (s : Script α) : Acc After s := by
  have huntil {next : Script α} (hnext : Acc After next) (t : Nat) :
      Acc After (.sleepUntil t next) := by
    refine Acc.intro _ ?_
    rintro s' ⟨scene, scene', hs⟩
    cases moves_of_step hs
    exact hnext
  induction s <;> refine Acc.intro _ ?_ <;> rintro s' ⟨scene, scene', hs⟩ <;>
    have hmoves := moves_of_step hs
  case done | crash => cases hmoves
  case sleep ih =>
    cases hmoves
    exact huntil ih _
  case sleepUntil ih | awaitCancel ih | writeMemory ih | post ih | cancel ih =>
    cases hmoves
    exact ih
  case readMemory ih | isCancelled ih =>
    cases hmoves
    exact ih _

end Script

structure Action.Returns (a : Action) : Prop where
  execute : ∀ executions attempt data view, (a.execute executions attempt data view).Returns false
  onError : ∀ err view, (a.onError err view).Returns false
  onSuccess : ∀ result view, (a.onSuccess result view).Returns false

/-- Whatever is begun of the action comes to an end, in a run that is cancelled or not. No attempt
is begun in a run that is cancelled. -/
structure Action.ReturnsIn (cancelled : Bool) (a : Action) : Prop where
  execute : cancelled = false → ∀ executions attempt data view,
    (a.execute executions attempt data view).Returns false
  onError : ∀ err view, (a.onError err view).Returns cancelled
  onSuccess : ∀ result view, (a.onSuccess result view).Returns cancelled

namespace Action.ReturnsIn

variable {a : Action} {c c' : Bool}

theorem mono (hc : c = true → c' = true) (h : a.ReturnsIn c) : a.ReturnsIn c' where
  execute := fun hc' => h.execute (Bool.eq_false_iff.mpr fun h => by simp [hc h] at hc')
  onError := fun err view => (h.onError err view).mono hc
  onSuccess := fun result view => (h.onSuccess result view).mono hc

end Action.ReturnsIn

theorem Action.Returns.returnsIn {a : Action} (h : a.Returns) : a.ReturnsIn false :=
  ⟨fun _ => h.execute, h.onError, h.onSuccess⟩

end TagLedger
