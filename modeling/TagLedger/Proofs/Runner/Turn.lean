import Mathlib.Tactic.Common
import TagLedger.Proofs.Action.Runs
import TagLedger.Runner.Job

/-!
Turns of a job: what it is doing whenever it does not wait. A job asks for a permit once; with the
permit it makes attempts, pauses between them, and ends.
-/

namespace TagLedger.Runner

/-- The number of elements that pass a test, when one of them changes. -/
theorem countP_set_add {α : Type} (p : α → Bool) {xs : List α} {x : α} {i : Nat}
    (hx : xs[i]? = some x) (y : α) :
    (xs.set i y).countP p + (p x).toNat = xs.countP p + (p y).toNat := by
  obtain ⟨hlt, hget⟩ := List.getElem?_eq_some_iff.mp hx
  have hcount := List.countP_set (p := p) (a := y) hlt
  have hpos : p x = true → 0 < xs.countP p := fun h =>
    List.countP_pos_iff.mpr ⟨x, List.mem_of_getElem? hx, h⟩
  rw [hcount, hget]
  cases h : p x with
  | false => cases p y <;> rfl
  | true =>
    have hpos := hpos h
    simp only [↓reduceIte, Bool.toNat_true]
    cases p y <;> simp <;> omega

namespace Job

/-- An outcome after which there is no further attempt. -/
def IsLast (rule : RetryRule) (attempt : Nat) (outcome : Except RunError Json) : Prop :=
  ∀ err, outcome = .error err → err ≠ .aborted → rule.retries ≤ attempt

/-- What a job that does not wait does next. -/
inductive Turn (rule : RetryRule) (scene : Scene) : Job → JobStep → Prop where
  | asks : Turn rule scene .asking .asks
  | begins {n : Nat} (hc : scene.cancelled = false) : Turn rule scene (.admitted n) (.begins n)
  /-- The attempt goes on. -/
  | attempts {n : Nat} {script script' : Script (Except RunError Json)} {scene' : Scene}
    (hs : script.step scene = .moved script' scene') :
    Turn rule scene (.attempting n script) (.moves (.attempting n script') scene')
  /-- The attempt has failed, and there will be another. -/
  | fails {n : Nat} {script : Script (Except RunError Json)} {err : RunError}
    (hs : script.step scene = .finished (.error err)) (herr : err ≠ .aborted)
    (hn : n < rule.retries) :
    Turn rule scene (.attempting n script)
      (.moves (.pausing (n + 1) (scene.now + delay rule.baseDelay n)) scene)
  | resumes {n time : Nat} (hc : scene.cancelled = false) (ht : time ≤ scene.now) :
    Turn rule scene (.pausing n time) (.moves (.admitted n) scene)
  /-- Cancellation is seen before the next attempt. -/
  | aborts {job : Job} (hjob : (∃ n, job = .admitted n) ∨ ∃ n time, job = .pausing n time)
    (hc : scene.cancelled = true) : Turn rule scene job (.ends (.error .aborted))
  | ends {n : Nat} {script : Script (Except RunError Json)} {outcome : Except RunError Json}
    (hs : script.step scene = .finished outcome) (hlast : IsLast rule n outcome) :
    Turn rule scene (.attempting n script) (.ends outcome)
  | crashes {n : Nat} {script : Script (Except RunError Json)}
    (hs : script.step scene = .crashed) : Turn rule scene (.attempting n script) .crashes

variable {rule : RetryRule} {scene : Scene} {job : Job}

theorem afterAttempt_turn {n : Nat} {script : Script (Except RunError Json)}
    {outcome : Except RunError Json} (hs : script.step scene = .finished outcome) :
    Turn rule scene (.attempting n script) (afterAttempt rule scene n outcome) := by
  unfold afterAttempt
  split
  · exact .ends hs fun _ herr => by cases herr
  · refine .ends hs fun err herr hne => ?_
    cases herr
    exact absurd rfl hne
  · rename_i err hne
    split
    · rename_i hle
      exact .ends hs fun _ _ _ => hle
    · rename_i hlt
      exact .fails hs hne (Nat.lt_of_not_le hlt)

theorem next_turn (h : job.next rule scene ≠ .waits) :
    Turn rule scene job (job.next rule scene) := by
  cases job with
  | asking => exact .asks
  | queued => exact absurd rfl h
  | admitted n =>
    cases hc : scene.cancelled with
    | false =>
      simp only [next, hc, Bool.false_eq_true, ↓reduceIte]
      exact .begins hc
    | true =>
      simp only [next, hc, ↓reduceIte]
      exact .aborts (.inl ⟨n, rfl⟩) hc
  | attempting n script =>
    cases hs : script.step scene with
    | waiting => simp [next, hs] at h
    | moved script' scene' =>
      simp only [next, hs]
      exact .attempts hs
    | finished outcome =>
      simp only [next, hs]
      exact afterAttempt_turn hs
    | crashed =>
      simp only [next, hs]
      exact .crashes hs
  | pausing n time =>
    cases hc : scene.cancelled with
    | false =>
      simp only [next, hc, Bool.false_eq_true, ↓reduceIte] at h ⊢
      split
      · rename_i ht
        exact .resumes hc ht
      · rename_i ht
        simp [ht] at h
    | true =>
      simp only [next, hc, ↓reduceIte]
      exact .aborts (.inr ⟨n, time, rfl⟩) hc
  | ended => exact absurd rfl h

theorem turn_of_next {s : JobStep} (h : job.next rule scene = s) (hs : s ≠ .waits) :
    Turn rule scene job s := by
  subst h
  exact next_turn hs

/-- A job that waits is in the queue, has ended, or holds a permit while its attempt waits or the
pause lasts. -/
theorem eq_of_waits (h : job.next rule scene = .waits) :
    job = .queued ∨ job = .ended ∨
      (∃ n script, job = .attempting n script ∧ script.step scene = .waiting) ∨
        ∃ n time, job = .pausing n time ∧ scene.cancelled = false ∧ scene.now < time := by
  cases job with
  | asking => cases h
  | queued => exact .inl rfl
  | ended => exact .inr (.inl rfl)
  | admitted n =>
    simp only [next] at h
    split at h <;> cases h
  | attempting n script =>
    refine .inr (.inr (.inl ⟨n, script, rfl, ?_⟩))
    cases hs : script.step scene with
    | waiting => rfl
    | moved script' scene' => simp [next, hs] at h
    | finished outcome =>
      simp only [next, hs, afterAttempt] at h
      split at h
      · cases h
      · cases h
      · split at h <;> cases h
    | crashed => simp [next, hs] at h
  | pausing n time =>
    simp only [next] at h
    split at h
    · cases h
    · rename_i hc
      split at h
      · cases h
      · rename_i ht
        exact .inr (.inr (.inr ⟨n, time, rfl, by simpa using hc, Nat.lt_of_not_le ht⟩))

theorem Turn.holdsPermit_of_moves {job' : Job} {scene' : Scene}
    (h : job.Turn rule scene (.moves job' scene')) :
    job.holdsPermit = true ∧ job'.holdsPermit = true := by
  cases h <;> exact ⟨rfl, rfl⟩

theorem Turn.holdsPermit_of_ends {outcome : Except RunError Json}
    (h : job.Turn rule scene (.ends outcome)) : job.holdsPermit = true := by
  cases h with
  | aborts hjob hc =>
    rcases hjob with ⟨n, rfl⟩ | ⟨n, time, rfl⟩ <;> rfl
  | ends hs hlast => rfl

theorem Turn.now_of_moves {job' : Job} {scene' : Scene}
    (h : job.Turn rule scene (.moves job' scene')) : scene'.now = scene.now := by
  cases h with
  | attempts hs => exact Script.now_of_moved hs
  | fails _ _ _ => rfl
  | resumes _ _ => rfl

/-- A turn of a job does not take a cancellation back. -/
theorem Turn.cancelled_of_moves {job' : Job} {scene' : Scene}
    (h : job.Turn rule scene (.moves job' scene')) (hc : scene.cancelled = true) :
    scene'.cancelled = true := by
  cases h with
  | attempts hs => exact Script.cancelled_of_moved hs hc
  | fails _ _ _ => exact hc
  | resumes _ _ => exact hc

/-- Only an attempt that is about to cancel does so. -/
theorem Turn.eq_cancel_of_moves {job' : Job} {scene' : Scene}
    (h : job.Turn rule scene (.moves job' scene')) (hc : scene.cancelled = false)
    (hc' : scene'.cancelled = true) : ∃ n next, job = .attempting n (.cancel next) := by
  cases h with
  | attempts hs =>
    obtain rfl := Script.eq_cancel_of_moved hs hc hc'
    exact ⟨_, _, rfl⟩
  | fails _ _ _ =>
    rw [hc] at hc'
    cases hc'
  | resumes _ _ =>
    rw [hc] at hc'
    cases hc'

theorem Turn.holdsPermit_of_crashes (h : job.Turn rule scene .crashes) :
    job.holdsPermit = true := by
  cases h
  rfl

end Job

end TagLedger.Runner
