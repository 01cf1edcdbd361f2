import TagLedger.Action.Basic
import TagLedger.Proofs.Action.Moves

/-!
Scripts from their beginning to their end. While a script runs, the run may be cancelled from
elsewhere, but nobody else changes its memory slice. A script without memory finds an empty slice
at each of its steps.
-/

namespace TagLedger

/-- What may become of a scene from elsewhere: the slice stays, and so does cancellation. -/
structure Scene.Passes (scene scene' : Scene) : Prop where
  slice : scene'.slice = scene.slice
  cancelled : scene.cancelled = true → scene'.cancelled = true

structure Scene.Later (scene scene' : Scene) : Prop where
  now : scene.now ≤ scene'.now
  cancelled : scene.cancelled = true → scene'.cancelled = true
  slice : scene'.slice = .null
  posts : scene'.posts = []

theorem Scene.Later.refl {scene : Scene} (hslice : scene.slice = .null)
    (hposts : scene.posts = []) : scene.Later scene :=
  ⟨Nat.le_refl _, fun hc => hc, hslice, hposts⟩

theorem Scene.Later.trans {scene scene' scene'' : Scene} (h : scene.Later scene')
    (h' : scene'.Later scene'') : scene.Later scene'' where
  now := Nat.le_trans h.now h'.now
  cancelled := fun hc => h'.cancelled (h.cancelled hc)
  slice := h'.slice
  posts := h'.posts

namespace Script

variable {α : Type} {s s' : Script α} {scene scene' : Scene}

inductive Runs : Script α → Scene → α → Scene → Prop where
  | ends {s : Script α} {scene : Scene} {a : α} (hs : s.step scene = .finished a) :
    Runs s scene a scene
  | moves {s s' : Script α} {scene scene' scene'' : Scene} {a : α}
    (hs : s.step scene = .moved s' scene') (h : Runs s' scene' a scene'') : Runs s scene a scene''
  | passes {s : Script α} {scene scene' scene'' : Scene} {a : α} (hp : scene.Passes scene')
    (h : Runs s scene' a scene'') : Runs s scene a scene''

/-- Begun in one scene, the script has come to what is left of it in another. No step finds what the
one before has written or posted. -/
inductive Reaches (s : Script α) (scene : Scene) : Script α → Scene → Prop where
  | begun : Reaches s scene s scene
  | moves {s' s'' : Script α} {scene' moved scene'' : Scene} (h : Reaches s scene s' scene')
    (hs : s'.step scene' = .moved s'' moved) (hl : moved.Later scene'') :
    Reaches s scene s'' scene''
  | later {s' : Script α} {scene' scene'' : Scene} (h : Reaches s scene s' scene')
    (hl : scene'.Later scene'') : Reaches s scene s' scene''

/-- The second script is what some steps have left of the first, whatever it has seen. -/
inductive LeftOf (s : Script α) : Script α → Prop where
  | all : LeftOf s s
  | moves {s' s'' : Script α} {scene scene' : Scene} (h : LeftOf s s')
    (hs : s'.step scene = .moved s'' scene') : LeftOf s s''

theorem now_of_moved (h : s.step scene = .moved s' scene') : scene'.now = scene.now := by
  cases moves_of_step h <;> rfl

theorem cancelled_of_moved (h : s.step scene = .moved s' scene') (hc : scene.cancelled = true) :
    scene'.cancelled = true := by
  cases moves_of_step h with
  | cancel => rfl
  | _ => exact hc

/-- Only a script that is about to cancel the run does so. -/
theorem eq_cancel_of_moved (h : s.step scene = .moved s' scene') (hc : scene.cancelled = false)
    (hc' : scene'.cancelled = true) : s = .cancel s' := by
  cases moves_of_step h with
  | cancel => rfl
  | _ =>
    rw [hc] at hc'
    cases hc'

def NeverBreaks : Script α → Prop
  | .done _ => True
  | .crash => False
  | .sleep _ next => next.NeverBreaks
  | .sleepUntil _ next => next.NeverBreaks
  | .awaitCancel next => next.NeverBreaks
  | .readMemory next => ∀ v, (next v).NeverBreaks
  | .writeMemory _ next => next.NeverBreaks
  | .post _ next => next.NeverBreaks
  | .cancel next => next.NeverBreaks
  | .isCancelled next => ∀ c, (next c).NeverBreaks

theorem NeverBreaks.of_moved (h : s.NeverBreaks) (hs : s.step scene = .moved s' scene') :
    s'.NeverBreaks := by
  cases moves_of_step hs with
  | readMemory => exact h _
  | isCancelled => exact h _
  | _ => exact h

theorem NeverBreaks.not_crashed (h : s.NeverBreaks) : s.step scene ≠ .crashed := by
  intro hs
  obtain rfl := eq_crash_of_step hs
  exact h

end Script

structure Action.NeverBreaks (a : Action) : Prop where
  execute : ∀ executions attempt data view, (a.execute executions attempt data view).NeverBreaks
  onError : ∀ err view, (a.onError err view).NeverBreaks
  onSuccess : ∀ result view, (a.onSuccess result view).NeverBreaks

end TagLedger
