import Mathlib.Data.List.Nodup
import Mathlib.Tactic.Common
import TagLedger.Proofs.Runner.Turn
import TagLedger.Runner.Batch

/-!
Batches move by move: a task takes a step, time passes, or the batch is cancelled from outside.
Every order of moves is a course that a batch can take.
-/

namespace TagLedger.Runner.Batch

inductive Move where
  | step (i : Nat)
  | wait (ms : Nat)
  | cancel

def wait (b : Batch) (ms : Nat) : Batch := { b with now := b.now + ms }

def apply (b : Batch) : Move → Batch
  | .step i => b.step i
  | .wait ms => b.wait ms
  | .cancel => b.cancel

def applyAll (b : Batch) (ms : List Move) : Batch := ms.foldl apply b

@[simp] theorem applyAll_nil (b : Batch) : b.applyAll [] = b := rfl

@[simp] theorem applyAll_cons (b : Batch) (m : Move) (ms : List Move) :
    b.applyAll (m :: ms) = (b.apply m).applyAll ms :=
  rfl

theorem applyAll_append (b : Batch) (xs ys : List Move) :
    b.applyAll (xs ++ ys) = (b.applyAll xs).applyAll ys :=
  List.foldl_append

variable {i : Nat} {b b' : Batch} {t t' : BatchTask}

def rule (b : Batch) (t : BatchTask) : RetryRule := ⟨t.retries, b.baseDelay⟩

/-- What an attempt that breaks down counts as. -/
def broken : Except RunError Json := .error (.failure .action "attempt broke down")

inductive Ends (b : Batch) (t : BatchTask) : Except RunError Json → Prop where
  | ends {outcome : Except RunError Json}
    (hturn : t.job.Turn (b.rule t) b.scene (.ends outcome)) : Ends b t outcome
  | crashes (hturn : t.job.Turn (b.rule t) b.scene .crashes) : Ends b t broken

theorem Ends.holdsPermit {outcome : Except RunError Json} (h : Ends b t outcome) :
    t.job.holdsPermit = true := by
  cases h with
  | ends hturn => exact hturn.holdsPermit_of_ends
  | crashes hturn => exact hturn.holdsPermit_of_crashes

/-- The task when it has ended. -/
def closed (b : Batch) (t : BatchTask) (outcome : Except RunError Json) : BatchTask :=
  { t with job := .ended, outcome := some (outcome, b.now) }

def put (b : Batch) (i : Nat) (t : BatchTask) : Batch := { b with tasks := b.tasks.set i t }

/-- Everything that a step of task `i` can do. -/
inductive Acts (i : Nat) (b : Batch) (t : BatchTask) : BatchTask → Batch → Prop where
  | enters (hjob : t.job = .asking) (hfree : 0 < b.permits.free) :
    Acts i b t { t with job := .admitted 0 }
      ({ b with permits := { b.permits with free := b.permits.free - 1 } }.put i
        { t with job := .admitted 0 })
  | queues (hjob : t.job = .asking) (hfree : b.permits.free = 0) :
    Acts i b t { t with job := .queued }
      ({ b with permits := { b.permits with queue := b.permits.queue ++ [i] } }.put i
        { t with job := .queued })
  | begins {n : Nat} (hjob : t.job = .admitted n) (hc : b.cancelled = false) :
    Acts i b t { t with job := .attempting n (t.attempt n) }
      ({ b with begun := b.begun ++ [Beginning.mk t.name n b.now] }.put i
        { t with job := .attempting n (t.attempt n) })
  | moves {job : Job} {scene : Scene}
    (hturn : t.job.Turn (b.rule t) b.scene (.moves job scene)) :
    Acts i b t { t with job } ({ b with cancelled := scene.cancelled }.put i { t with job })
  /-- The permit is given back. -/
  | ends {outcome : Except RunError Json} (hends : Ends b t outcome) :
    Acts i b t (b.closed t outcome) (b.put i (b.closed t outcome)).giveBack

theorem modify_eq_set {α : Type} {xs : List α} {x : α} {i : Nat} (hx : xs[i]? = some x)
    (f : α → α) : xs.modify i f = xs.set i (f x) := by
  rw [List.modify_eq_set_getElem?, hx]
  rfl

theorem finish_eq (ht : b.tasks[i]? = some t) (outcome : Except RunError Json) :
    b.finish i outcome = (b.put i (b.closed t outcome)).giveBack := by
  rw [finish, modify_eq_set ht]
  rfl

theorem setJob_eq (ht : b.tasks[i]? = some t) (job : Job) :
    b.setJob i job = b.put i { t with job } := by
  rw [setJob, modify_eq_set ht]
  rfl

/-- A task that does not wait acts. -/
theorem step_acts (ht : b.tasks[i]? = some t) (h : b.next t ≠ .waits) :
    ∃ t', Acts i b t t' (b.step i) := by
  have hturn : t.job.Turn (b.rule t) b.scene (b.next t) := Job.next_turn h
  simp only [step, ht]
  generalize b.next t = s at h hturn ⊢
  cases s with
  | waits => contradiction
  | asks =>
    have hjob : t.job = .asking := by
      generalize t.job = job at hturn
      cases hturn
      rfl
    by_cases hfree : 0 < b.permits.free
    · simp only [Permits.ask, if_pos hfree]
      rw [setJob_eq (by exact ht)]
      exact ⟨_, .enters hjob hfree⟩
    · simp only [Permits.ask, if_neg hfree]
      rw [setJob_eq (by exact ht)]
      exact ⟨_, .queues hjob (Nat.eq_zero_of_not_pos hfree)⟩
  | begins n =>
    dsimp only
    rw [setJob_eq (by exact ht)]
    cases hjob : t.job with
    | admitted k =>
      rw [hjob] at hturn
      cases hturn with
      | begins hc => exact ⟨_, .begins hjob hc⟩
    | _ =>
      rw [hjob] at hturn
      cases hturn
  | moves job scene =>
    dsimp only
    rw [setJob_eq (by exact ht)]
    exact ⟨_, .moves hturn⟩
  | ends outcome =>
    dsimp only
    rw [finish_eq ht]
    exact ⟨_, .ends (.ends hturn)⟩
  | crashes =>
    dsimp only
    rw [finish_eq ht]
    exact ⟨_, .ends (.crashes hturn)⟩

/-- A step does nothing if the task waits; else the task acts. -/
theorem step_cases (b : Batch) (i : Nat) :
    (b.step i = b ∧ ∀ t, b.tasks[i]? = some t → b.next t = .waits) ∨
      ∃ t t', b.tasks[i]? = some t ∧ Acts i b t t' (b.step i) := by
  cases ht : b.tasks[i]? with
  | none => exact .inl ⟨by simp [step, ht], fun u hu => by cases hu⟩
  | some t =>
    by_cases h : b.next t = .waits
    · refine .inl ⟨by simp [step, ht, h], fun u hu => ?_⟩
      cases hu
      exact h
    · obtain ⟨t', hacts⟩ := step_acts ht h
      exact .inr ⟨t, t', rfl, hacts⟩

/-- A permit that is given back changes nothing but permits and tasks. -/
theorem giveBack_kept (b : Batch) :
    b.giveBack.scene = b.scene ∧ b.giveBack.baseDelay = b.baseDelay ∧
      b.giveBack.begun = b.begun := by
  unfold giveBack
  split <;> exact ⟨rfl, rfl, rfl⟩

/-- A step takes no time, and takes no cancellation back. -/
theorem Acts.later (h : Acts i b t t' b') : b.scene.Later b'.scene := by
  have hnow : b.scene.Later b.scene := .refl rfl rfl
  cases h with
  | enters hjob hfree => exact hnow
  | queues hjob hfree => exact hnow
  | begins hjob hc => exact hnow
  | moves hturn => exact ⟨Nat.le_refl _, hturn.cancelled_of_moves, rfl, rfl⟩
  | ends hends =>
    rw [(giveBack_kept _).1]
    exact hnow

theorem Acts.baseDelay (h : Acts i b t t' b') : b'.baseDelay = b.baseDelay := by
  cases h with
  | ends hends => exact (giveBack_kept _).2.1
  | _ => rfl

/-- Only an attempt cancels a batch from inside. -/
theorem Acts.eq_cancel (h : Acts i b t t' b') (hc : b.cancelled = false)
    (hc' : b'.cancelled = true) : ∃ n next, t.job = .attempting n (.cancel next) := by
  have hno : ¬b.cancelled = true := by simp [hc]
  cases h with
  | moves hturn => exact hturn.eq_cancel_of_moves hc hc'
  | @ends outcome hends =>
    have hsame := congrArg Scene.cancelled (giveBack_kept (b.put i (b.closed t outcome))).1
    exact absurd (hsame.symm.trans hc') hno
  | _ => exact absurd hc' hno

/-- Steps take no time. -/
theorem now_step (b : Batch) (i : Nat) : (b.step i).now = b.now := by
  rcases step_cases b i with ⟨hsame, -⟩ | ⟨t, t', ht, hacts⟩
  · rw [hsame]
  · generalize b.step i = b' at hacts
    cases hacts with
    | ends hends => exact congrArg Scene.now (giveBack_kept _).1
    | _ => rfl

end TagLedger.Runner.Batch
