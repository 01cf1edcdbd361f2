import TagLedger.Proofs.Action.Moves

/-!
What scripts leave in their memory slice. The condition is taken backwards through a script, from
its end to its beginning; only runs that are never cancelled are considered, and a script that
breaks down leaves nothing that could be relied on.
-/

namespace TagLedger.Script

variable {α : Type} {P Q : Json → Prop}

/-- The slice satisfies `P` when the script, begun on a slice, has ended. -/
def Leaves (P : Json → Prop) : Script α → Json → Prop
  | .done _, v => P v
  | .crash, _ => False
  | .sleep _ next, v => next.Leaves P v
  | .sleepUntil _ next, v => next.Leaves P v
  | .awaitCancel _, _ => True
  | .readMemory next, v => (next v).Leaves P v
  | .writeMemory w next, _ => next.Leaves P w
  | .post _ next, v => next.Leaves P v
  | .cancel _, _ => True
  | .isCancelled next, v => (next false).Leaves P v

theorem Leaves.mono (hPQ : ∀ v, P v → Q v) {s : Script α} {v : Json} (h : s.Leaves P v) :
    s.Leaves Q v := by
  induction s generalizing v with
  | done a => exact hPQ v h
  | crash => exact h
  | sleep ms next ih => exact ih h
  | sleepUntil t next ih => exact ih h
  | awaitCancel next _ => trivial
  | readMemory next ih => exact ih v h
  | writeMemory w next ih => exact ih h
  | post p next ih => exact ih h
  | cancel next _ => trivial
  | isCancelled next ih => exact ih false h

/-- One step of a script that is not cancelled keeps the condition. -/
theorem Leaves.of_moved {s s' : Script α} {scene scene' : Scene} (h : s.Leaves P scene.slice)
    (hs : s.step scene = .moved s' scene') (hcancel : scene.cancelled = false)
    (hcancel' : scene'.cancelled = false) : s'.Leaves P scene'.slice := by
  cases moves_of_step hs with
  | awaitCancel hc => cases hcancel.symm.trans hc
  | cancel => cases hcancel'
  | isCancelled =>
    rw [hcancel]
    exact h
  | _ => exact h

theorem Leaves.of_finished {s : Script α} {scene : Scene} {a : α} (h : s.Leaves P scene.slice)
    (hs : s.step scene = .finished a) : P scene.slice := by
  obtain rfl := eq_done_of_step hs
  exact h

theorem Leaves.not_crashed {s : Script α} {scene : Scene} (h : s.Leaves P scene.slice) :
    s.step scene ≠ .crashed := by
  intro hs
  obtain rfl := eq_crash_of_step hs
  exact h

end TagLedger.Script
