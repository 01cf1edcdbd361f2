import TagLedger.Action.Script

/-!
One step of a script, told once: where it leads, what it does to the scene, and which scripts are at
their end.
-/

namespace TagLedger.Script

variable {α : Type} {s s' : Script α} {scene scene' : Scene}

inductive Moves (scene : Scene) : Script α → Script α → Scene → Prop where
  | sleep {ms : Nat} {next : Script α} :
    Moves scene (.sleep ms next) (.sleepUntil (scene.now + ms) next) scene
  | sleepUntil {t : Nat} {next : Script α} (ht : t ≤ scene.now) :
    Moves scene (.sleepUntil t next) next scene
  | awaitCancel {next : Script α} (hc : scene.cancelled = true) :
    Moves scene (.awaitCancel next) next scene
  | readMemory {next : Json → Script α} : Moves scene (.readMemory next) (next scene.slice) scene
  | writeMemory {v : Json} {next : Script α} :
    Moves scene (.writeMemory v next) next { scene with slice := v }
  | post {p : Post} {next : Script α} :
    Moves scene (.post p next) next { scene with posts := scene.posts ++ [p] }
  | cancel {next : Script α} : Moves scene (.cancel next) next { scene with cancelled := true }
  | isCancelled {next : Bool → Script α} :
    Moves scene (.isCancelled next) (next scene.cancelled) scene

theorem moves_of_step (h : s.step scene = .moved s' scene') : Moves scene s s' scene' := by
  cases s with
  | done a => cases h
  | crash => cases h
  | sleep ms next =>
    cases h
    exact .sleep
  | sleepUntil t next =>
    simp only [step] at h
    split at h <;> cases h
    exact .sleepUntil ‹_›
  | awaitCancel next =>
    simp only [step] at h
    split at h <;> cases h
    exact .awaitCancel ‹_›
  | readMemory next =>
    cases h
    exact .readMemory
  | writeMemory v next =>
    cases h
    exact .writeMemory
  | post p next =>
    cases h
    exact .post
  | cancel next =>
    cases h
    exact .cancel
  | isCancelled next =>
    cases h
    exact .isCancelled

theorem eq_done_of_step {a : α} (h : s.step scene = .finished a) : s = .done a := by
  cases s with
  | done b =>
    cases h
    rfl
  | sleepUntil t next | awaitCancel next =>
    simp only [step] at h
    split at h <;> cases h
  | _ => cases h

theorem eq_crash_of_step (h : s.step scene = .crashed) : s = .crash := by
  cases s with
  | crash => rfl
  | sleepUntil t next | awaitCancel next =>
    simp only [step] at h
    split at h <;> cases h
  | _ => cases h

end TagLedger.Script
