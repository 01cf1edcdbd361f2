import Mathlib.Order.WellFounded
import Mathlib.Tactic.Common
import TagLedger.Proofs.Runner.Log
import TagLedger.Proofs.Runner.Schedule
import TagLedger.Proofs.Runner.Winding

/-!
Batches as a whole. At every moment the limit holds and every task is accounted for; and if the
attempts come to an end by themselves, so does the batch, whatever turns the tasks take and whenever
it is cancelled.
-/

namespace TagLedger.Runner.Batch

open Relation (CutExpand TransGen)

variable {n i baseDelay : Nat} {b b' : Batch} {t t' : BatchTask} {l : List (Nat × Note)}
  {tasks : List Spec}

inductive Advances (b : Batch) : Batch → Prop where
  | steps (ms i : Nat) (h : (b.wait ms).canStep i = true) :
    Advances b (b.applyAll [.wait ms, .step i])

/-- A task takes a step, or the batch is cancelled from outside. -/
inductive Proceeds (b : Batch) : Batch → Prop where
  | advances {b' : Batch} (h : Advances b b') : Proceeds b b'
  | cancelled (ms : Nat) (h : b.cancelled = false) : Proceeds b (b.applyAll [.wait ms, .cancel])

/-- Whatever turns are taken, the time comes when `P` holds. -/
inductive Inevitable (P : Batch → Prop) : Batch → Prop where
  | reached {b : Batch} (h : P b) : Inevitable P b
  | goesOn {b : Batch} (h : ∃ b', Advances b b') (hall : ∀ b', Proceeds b b' → Inevitable P b') :
    Inevitable P b

def IsOver (b : Batch) : Prop := ∀ t ∈ b.tasks, t.outcome.isSome

theorem Advances.exists_applyAll (h : Advances b b') : ∃ ms, b' = b.applyAll ms := by
  cases h with
  | steps ms i _ => exact ⟨_, rfl⟩

theorem Proceeds.exists_applyAll (h : Proceeds b b') : ∃ ms, b' = b.applyAll ms := by
  cases h with
  | advances h => exact h.exists_applyAll
  | cancelled ms _ => exact ⟨_, rfl⟩

theorem exists_of_canStep (h : b.canStep i = true) :
    ∃ t, b.tasks[i]? = some t ∧ b.next t ≠ .waits := by
  cases ht : b.tasks[i]? with
  | none => simp [canStep, ht] at h
  | some t =>
    refine ⟨t, rfl, fun hwaits => ?_⟩
    simp [canStep, ht, hwaits] at h

theorem canStep_of_next (ht : b.tasks[i]? = some t) (h : b.next t ≠ .waits) :
    b.canStep i = true := by
  simp [canStep, ht]

section Termination

/-- What is left of a batch: the tasks, and whether it may still be cancelled from outside. -/
def left (b : Batch) : Multiset (Nat × Job) × Nat := (b.remains, (!b.cancelled).toNat)

def Less : Multiset (Nat × Job) × Nat → Multiset (Nat × Job) × Nat → Prop :=
  Prod.Lex (TransGen (CutExpand Job.Lower)) (· < ·)

theorem less_wf : WellFounded Less := by
  have hremains : WellFounded (TransGen (CutExpand Job.Lower)) := Job.lower_wf.cutExpand.transGen
  exact hremains.prod_lex wellFounded_lt

theorem Proceeds.less (h : Proceeds b b') (hl : Limited n b) : Less (left b') (left b) := by
  cases h with
  | advances h =>
    cases h with
    | steps ms i hstep =>
      obtain ⟨t, ht, hnext⟩ := exists_of_canStep hstep
      obtain ⟨t', hacts⟩ := step_acts ht hnext
      exact .left _ _ (hacts.remains_lt (hl.apply (.wait ms)) ht)
  | cancelled ms hc =>
    refine .right _ ?_
    simp [applyAll, apply, wait, cancel, hc]

end Termination

section Progress

/-- All attempts of the tasks come to an end, and so does what is left of those that are made. -/
def Returning (b : Batch) : Prop :=
  ∀ t ∈ b.tasks, (∀ k, (t.attempt k).Returns false) ∧
    ∀ k script, t.job = .attempting k script → script.Returns b.cancelled

/-- What an attempt leaves comes to an end as well. -/
theorem Acts.returns (h : Acts i b t t' b') (hattempt : ∀ k, (t.attempt k).Returns false)
    (hjob : ∀ k script, t.job = .attempting k script → script.Returns b.cancelled) :
    ∀ k script, t'.job = .attempting k script → script.Returns b'.cancelled := by
  intro k script hscript
  cases h with
  | begins _ hc =>
    cases hscript
    show (t.attempt k).Returns b.cancelled
    rw [hc]
    exact hattempt k
  | @moves job scene hturn =>
    obtain rfl : job = .attempting k script := hscript
    generalize hbefore : t.job = before at hturn
    cases hturn with
    | attempts hs => exact (hjob _ _ hbefore).of_moved hs
  | _ => cases hscript

theorem Returning.acts (hr : Returning b) (hl : Limited n b) (ht : b.tasks[i]? = some t)
    (h : Acts i b t t' b') : Returning b' := by
  obtain ⟨hattempt, hjob⟩ := hr t (List.mem_of_getElem? ht)
  have hold {u : BatchTask} (hu : u ∈ b.tasks) : ∀ k script, u.job = .attempting k script →
      script.Returns b'.cancelled :=
    fun k script hscript => ((hr u hu).2 k script hscript).mono h.later.cancelled
  intro u hu
  obtain ⟨k, hk⟩ := List.mem_iff_getElem?.mp hu
  by_cases hik : i = k
  · subst hik
    rw [h.own hl ht] at hk
    cases hk
    have hsame : t'.attempt = t.attempt := congrArg (·.2.2) h.spec_eq
    rw [hsame]
    exact ⟨hattempt, h.returns hattempt hjob⟩
  · rcases h.others hl ht hik with hsame | ⟨v, hv, -, hlet⟩
    · have hmem := List.mem_of_getElem? (hsame ▸ hk)
      exact ⟨(hr u hmem).1, hold hmem⟩
    · rw [hlet] at hk
      cases hk
      exact ⟨(hr v (List.mem_of_getElem? hv)).1, fun _ _ hscript => by cases hscript⟩

theorem Returning.apply (hr : Returning b) (hl : Limited n b) (m : Move) :
    Returning (b.apply m) := by
  cases m with
  | step i =>
    rcases step_cases b i with ⟨hsame, -⟩ | ⟨t, t', ht, hacts⟩
    · rw [Batch.apply, hsame]
      exact hr
    · exact hr.acts hl ht hacts
  | wait ms => exact hr
  | cancel =>
    exact fun t ht => ⟨(hr t ht).1, fun k script hjob => ((hr t ht).2 k script hjob).cancelled⟩

theorem Returning.applyAll (hr : Returning b) (hl : Limited n b) (ms : List Move) :
    Returning (b.applyAll ms) := by
  induction ms generalizing b with
  | nil => exact hr
  | cons m ms ih => exact ih (hr.apply hl m) (hl.apply m)

theorem Returning.new {limit baseDelay : Nat} {tasks : List Spec}
    (h : ∀ s ∈ tasks, ∀ k, (s.2.2 k).Returns false) : Returning (new limit baseDelay tasks) := by
  intro t ht
  obtain ⟨s, hs, rfl⟩ := List.mem_map.mp ht
  exact ⟨h s hs, fun _ _ hjob => by cases hjob⟩

/-- A task that holds a permit can go on, now or when its pause or its delay is over. -/
theorem Returning.canGoOn (hr : Returning b) (ht : b.tasks[i]? = some t)
    (hholds : t.job.holdsPermit = true) : ∃ ms, (b.wait ms).canStep i = true := by
  by_cases hnext : b.next t = .waits
  · have hlater (time : Nat) : time ≤ (b.wait (time - b.now)).now := by
      simp only [wait]
      omega
    rcases Job.eq_of_waits hnext with hjob | hjob | ⟨k, script, hjob, hs⟩ |
      ⟨k, time, hjob, -, -⟩
    · rw [hjob] at hholds
      cases hholds
    · rw [hjob] at hholds
      cases hholds
    · have hreturns : script.Returns b.scene.cancelled :=
        (hr t (List.mem_of_getElem? ht)).2 k script hjob
      obtain ⟨time, -, -, hwakes⟩ := hreturns.wakes hs
      refine ⟨time - b.now, canStep_of_next (by exact ht) fun hwaits => ?_⟩
      have hwaiting := Job.eq_of_waits hwaits
      simp only [hjob, reduceCtorEq, false_or, Job.attempting.injEq, false_and, exists_false,
        or_false] at hwaiting
      obtain ⟨_, _, ⟨-, rfl⟩, hstill⟩ := hwaiting
      exact hwakes _ (hlater time) hstill
    · refine ⟨time - b.now, canStep_of_next (by exact ht) fun hwaits => ?_⟩
      have hwaiting := Job.eq_of_waits hwaits
      simp only [hjob, reduceCtorEq, false_or, Job.pausing.injEq, false_and, exists_false]
        at hwaiting
      obtain ⟨_, _, ⟨-, rfl⟩, -, hlt⟩ := hwaiting
      exact absurd hlt (Nat.not_lt_of_le (hlater time))
  · exact ⟨0, canStep_of_next (by exact ht) hnext⟩

theorem Told.isSome_outcome_iff (h : Told l b) (ht : b.tasks[i]? = some t) :
    t.outcome.isSome ↔ t.job = .ended := by
  exact (h i t ht).isSome_iff

/-- As long as a task has not returned, some task can go on. -/
theorem isOver_or_advances (h : Sound (n + 1) baseDelay tasks l b) (hr : Returning b) :
    IsOver b ∨ ∃ b', Advances b b' := by
  have hl := h.limited
  by_cases hholds : ∃ t ∈ b.tasks, t.job.holdsPermit = true
  · obtain ⟨t, hmem, hholds⟩ := hholds
    obtain ⟨i, ht⟩ := List.mem_iff_getElem?.mp hmem
    obtain ⟨ms, hstep⟩ := hr.canGoOn ht hholds
    exact .inr ⟨_, .steps ms i hstep⟩
  have hnone : b.holders = 0 := by
    refine List.countP_eq_zero.mpr fun t ht hholds' => hholds ⟨t, ht, hholds'⟩
  -- so a permit is free, and no task waits for one
  have hqueue : b.permits.queue = [] := by
    by_contra hne
    have htotal := hl.total
    rw [hl.busy hne, hnone] at htotal
    cases htotal
  by_cases hasks : ∃ t ∈ b.tasks, t.job = .asking
  · obtain ⟨t, hmem, hjob⟩ := hasks
    obtain ⟨i, ht⟩ := List.mem_iff_getElem?.mp hmem
    refine .inr ⟨_, .steps 0 i (canStep_of_next (by exact ht) ?_)⟩
    simp [next, hjob, Job.next]
  · refine .inl fun t hmem => ?_
    obtain ⟨i, ht⟩ := List.mem_iff_getElem?.mp hmem
    refine (h.told.isSome_outcome_iff ht).mpr ?_
    have hqueued : t.job ≠ .queued := by
      intro hjob
      have hin := (hl.queued i).mpr ⟨t, ht, hjob⟩
      rw [hqueue] at hin
      cases hin
    cases hjob : t.job with
    | ended => rfl
    | asking => exact absurd ⟨t, hmem, hjob⟩ hasks
    | queued => exact absurd hjob hqueued
    | _ => exact absurd ⟨t, hmem, by rw [hjob]; rfl⟩ hholds

end Progress

/-- If all attempts come to an end by themselves, all tasks return, whatever turns they take. -/
theorem inevitable_isOver (h : Sound (n + 1) baseDelay tasks l b) (hr : Returning b) :
    Inevitable IsOver b := by
  have hacc : Acc (InvImage Less left) b := (InvImage.wf left less_wf).apply b
  induction hacc generalizing l with
  | intro b _ ih =>
    rcases isOver_or_advances h hr with hover | hadvances
    · exact .reached hover
    · refine .goesOn hadvances fun b' hb => ?_
      obtain ⟨ms, rfl⟩ := hb.exists_applyAll
      exact ih _ (hb.less h.limited) (h.applyAll ms) (hr.applyAll h.limited ms)

def running (b : Batch) : Nat :=
  b.tasks.countP fun t => match t.job with
    | .attempting _ _ => true
    | _ => false

/-- An attempt runs only with a permit. -/
theorem running_le_holders (b : Batch) : b.running ≤ b.holders := by
  refine List.countP_mono_left fun t _ hrunning => ?_
  split at hrunning
  · rename_i hjob
    rw [hjob]
    rfl
  · cases hrunning

theorem permits_of_isOver (h : Sound n baseDelay tasks l b) (hover : IsOver b) :
    b.permits = ⟨n, []⟩ := by
  refine h.limited.permits_of_ended fun t hmem => ?_
  obtain ⟨i, ht⟩ := List.mem_iff_getElem?.mp hmem
  exact (h.told.isSome_outcome_iff ht).mp (hover t hmem)

/-- Any tasks started together, whatever turns they take, whatever time passes and whenever they are
cancelled. Free permits and those that tasks hold add up to the limit, at least one, and attempts
run only with a permit. Every task makes its attempts in order, no more than its retries allow, and
what an attempt returns is what its script comes to, begun in the scene of its beginning. The
outcome of the task is the first success or abortion, or the failure of the last attempt, and
nothing is done after it. The batch is cancelled from outside, or by an attempt that was begun; a
cancellation that a task finds before an attempt or in a pause ends it as aborted at once. When all
tasks have returned all permits are free. And if the attempts come to an end by themselves, all
tasks return. What is run by the schedule is such a course. -/
theorem bounded_with_retry (limit baseDelay : Nat) (tasks : List Spec) (ms : List Move) :
    let started := new limit baseDelay tasks
    let b := started.applyAll ms
    let log := started.log ms
    (b.permits.free + b.holders = max limit 1 ∧ b.running ≤ b.holders) ∧
    (b.specs = tasks ∧ b.baseDelay = baseDelay ∧ b.begun = beginnings tasks log ∧
      InOrder log b.scene ∧
      ∀ (i : Nat) t, b.tasks[i]? = some t → Account b t (notesOf i log)) ∧
    ((Move.cancel ∈ ms → b.cancelled = true) ∧
      (b.cancelled = true → Move.cancel ∈ ms ∨ Cancels tasks log)) ∧
    (b.cancelled = true → ∀ (i : Nat) t, b.tasks[i]? = some t →
      ((∃ k, t.job = .admitted k) ∨ ∃ k time, t.job = .pausing k time) →
      (b.step i).tasks[i]? = some (b.closed t (.error .aborted))) ∧
    (IsOver b → b.permits = Permits.new limit) ∧
    ((∀ s ∈ tasks, ∀ k, (s.2.2 k).Returns false) → Inevitable IsOver b) ∧
    ∀ cancelAt, ∃ moves, started.run cancelAt = started.applyAll moves := by
  intro started b log
  obtain ⟨m, hm⟩ : ∃ m, max limit 1 = m + 1 :=
    Nat.exists_eq_succ_of_ne_zero (by omega)
  have hstarted : Sound (max limit 1) baseDelay tasks [] started := .new limit baseDelay tasks
  have hb : Sound (max limit 1) baseDelay tasks log b := hstarted.applyAll ms
  refine ⟨⟨hb.limited.total, running_le_holders b⟩,
    ⟨hb.specs, hb.baseDelay, hb.begun, hb.inOrder, fun i t ht => (hb.told i t ht).account⟩,
    ⟨cancelled_of_mem, fun hc => ?_⟩,
    fun hc i t ht hjob => step_of_cancelled hb.limited ht hc hjob, permits_of_isOver hb,
    fun hreturns => ?_, fun cancelAt => run_leads fun c _ => Nat.zero_le c⟩
  · rcases hstarted.cancelled_cases ms hc with hfirst | hcause
    · cases hfirst
    · exact hcause
  · have hreturning : Returning started := .new hreturns
    exact inevitable_isOver (hm ▸ hb) (hreturning.applyAll hstarted.limited ms)

namespace Sample

/-- A task whose first attempt takes a while and fails, and one that cancels the batch. -/
def pair : List Spec :=
  [("flaky", 2, fun n =>
      if n = 0 then .sleep 5 (.done (.error (.failure .action "busy"))) else .done (.ok .null)),
    ("stopper", 1, fun _ => .cancel (.sleep 3 (.done (.error (.failure .action "stopped")))))]

/-- The first task fails, pauses and succeeds; the second one then gets the permit, cancels the
batch and is aborted after its failure. -/
def pairMoves : List Move :=
  [.step 0, .step 1, .step 0, .step 0, .wait 5, .step 0, .step 0, .wait 10, .step 0, .step 0,
    .step 0, .step 1, .step 1, .step 1, .wait 3, .step 1, .step 1, .step 1]

end Sample

open Sample in
/-- Two tasks that share one permit return whatever turns they take. In one course the first
succeeds with its second attempt, and the second cancels the batch and is aborted in its pause. -/
theorem bounded_with_retry_two_tasks :
    let b := (new 1 10 pair).applyAll pairMoves
    let log := (new 1 10 pair).log pairMoves
    ((∀ s ∈ pair, ∀ k, (s.2.2 k).Returns false) ∧ Inevitable IsOver (new 1 10 pair)) ∧
    b.tasks.map (·.outcome) = [some (.ok .null, 15), some (.error .aborted, 18)] ∧
    (∀ (i : Nat) t, b.tasks[i]? = some t → Account b t (notesOf i log)) ∧
    (b.cancelled = true ∧ Cancels pair log) ∧ IsOver b ∧ b.permits = Permits.new 1 := by
  intro b log
  have hreturns : ∀ s ∈ pair, ∀ k, (s.2.2 k).Returns false := by
    intro s hs k
    simp only [pair, List.mem_cons, List.not_mem_nil, or_false] at hs
    rcases hs with rfl | rfl
    · dsimp only
      split <;> trivial
    · trivial
  obtain ⟨-, -, -, -, -, hinevitable, -⟩ := bounded_with_retry 1 10 pair []
  obtain ⟨-, ⟨-, -, -, -, haccounts⟩, ⟨-, hcause⟩, -, hpermits, -, -⟩ :=
    bounded_with_retry 1 10 pair pairMoves
  have houtcomes : b.tasks.map (·.outcome) = [some (.ok .null, 15), some (.error .aborted, 18)] :=
    rfl
  have hover : IsOver b := by
    intro t ht
    have houtcome := List.mem_map_of_mem (f := (·.outcome)) ht
    rw [houtcomes] at houtcome
    simp only [List.mem_cons, List.not_mem_nil, or_false] at houtcome
    rcases houtcome with hok | herr
    · rw [hok]
      rfl
    · rw [herr]
      rfl
  refine ⟨⟨hreturns, hinevitable hreturns⟩, houtcomes, haccounts, ⟨rfl, ?_⟩, hover,
    hpermits hover⟩
  rcases hcause rfl with houtside | hinside
  · simp [pairMoves] at houtside
  · exact hinside

end TagLedger.Runner.Batch
