import Mathlib.Algebra.Order.Ring.Nat
import Mathlib.Tactic.Common
import TagLedger.Proofs.Run.CausalOrder
import TagLedger.Proofs.Runner.Delay
import TagLedger.Proofs.Runner.Log

/-!
Retries in words of a machine. The counter of the attempts that have failed never passes the budget
of its task, in a batch as in a run; so a counter of 32 bits never wraps, and the delays between
attempts are the exact ones.
-/

namespace TagLedger

namespace Runner

/-- How many attempts have failed so far, while a job holds a permit. -/
def Job.retriesUsed? : Job → Option Nat
  | .admitted n => some n
  | .attempting n _ => some n
  | .pausing n _ => some n
  | _ => none

namespace Word

/-- The counter of a task after a deed, in a word; none if it would leave it. It goes up when an
attempt has failed and there will be another. -/
def used? (budget used : BitVec 32) : Deed → Option (BitVec 32)
  | .returns _ (.error .aborted) => some used
  | .returns _ (.error _) => if budget ≤ used then some used else succ? used
  | _ => some used

/-- The counter after all deeds. -/
def usedBy? (budget : BitVec 32) (ds : List Deed) : Option (BitVec 32) :=
  ds.foldlM (used? budget) 0#32

end Word

open Word

variable {attempt : Nat → Script (Except RunError Json)} {rule : RetryRule}
  {budget used : BitVec 32} {n time : Nat} {ns : List Note}

theorem used?_of_begins (n : Nat) : used? budget used (.begins n) = some used := rfl

theorem used?_of_failure {err : RunError} (herr : err ≠ .aborted) :
    used? budget used (.returns n (.error err)) =
      if budget ≤ used then some used else succ? used := by
  cases err with
  | aborted => contradiction
  | _ => rfl

theorem usedBy?_append (ds ds' : List Deed) :
    usedBy? budget (ds ++ ds') =
      (usedBy? budget ds).bind fun used => ds'.foldlM (used? budget) used :=
  List.foldlM_append

/-- Before attempt `n` the counter is at `n`. -/
theorem Rounds.exists_usedBy? (h : Rounds attempt rule n time ns)
    (hbudget : rule.retries = budget.toNat) :
    ∃ used, usedBy? budget (ns.map Note.deed) = some used ∧ used.toNat = n := by
  induction h with
  | none => exact ⟨0#32, rfl, rfl⟩
  | fails _ _ _ _ herr hn ih =>
    obtain ⟨used, hused, rfl⟩ := ih
    rw [hbudget] at hn
    have hgoesOn : ¬budget ≤ used := Nat.not_le_of_lt hn
    -- below the budget, which is a word itself, there is room for one more
    have hroom : used.toNat + 1 < 2 ^ 32 := Nat.lt_of_le_of_lt hn budget.isLt
    obtain ⟨next, hnext, hcount⟩ := exists_succ? hroom
    refine ⟨next, ?_, hcount⟩
    rw [List.map_append, usedBy?_append, hused]
    simp [used?_of_begins, used?_of_failure herr, hgoesOn, hnext]

/-- The deeds that end a task leave its counter. -/
theorem LastRound.leaves_counter {outcome : Except RunError Json × Nat} {last : List Note}
    (h : LastRound attempt rule used.toNat time last outcome)
    (hbudget : rule.retries = budget.toNat) :
    (last.map Note.deed).foldlM (used? budget) used = some used := by
  cases h with
  | cancelled _ => rfl
  | breaks _ _ _ => rfl
  | @returns _ _ outcome _ _ _ hlast =>
    cases outcome with
    | ok v => rfl
    | error err =>
      by_cases herr : err = .aborted
      · rw [herr]
        rfl
      · have hspent : budget ≤ used := BitVec.le_def.mpr (hbudget ▸ hlast err rfl herr)
        simp [used?_of_begins, used?_of_failure herr, hspent]

/-- The counter of a task stays in its word and within the budget, and is where the task stands. -/
theorem Tale.exists_usedBy? {now : Scene} {job : Job}
    {outcome : Option (Except RunError Json × Nat)}
    (h : Tale attempt rule now ns job outcome) (hbudget : rule.retries = budget.toNat) :
    ∃ used, usedBy? budget (ns.map Note.deed) = some used ∧ used ≤ budget ∧
      ∀ n, job.retriesUsed? = some n → used.toNat = n := by
  have hrounds {n time : Nat} {ns : List Note} (h : Rounds attempt rule n time ns) :
      ∃ used, usedBy? budget (ns.map Note.deed) = some used ∧ used ≤ budget ∧ used.toNat = n := by
    obtain ⟨used, hused, rfl⟩ := h.exists_usedBy? hbudget
    exact ⟨used, hused, BitVec.le_def.mpr (hbudget ▸ h.le), rfl⟩
  cases h with
  | asks | waits => exact ⟨0#32, rfl, BitVec.le_def.mpr (Nat.zero_le _), nofun⟩
  | admitted h _ | pauses h =>
    obtain ⟨used, hused, hle, rfl⟩ := hrounds h
    exact ⟨used, hused, hle, fun _ => Option.some.inj⟩
  | attempts h _ _ _ =>
    obtain ⟨used, hused, hle, rfl⟩ := hrounds h
    refine ⟨used, ?_, hle, fun _ => Option.some.inj⟩
    rw [List.map_append, usedBy?_append, hused]
    rfl
  | ended h hlast =>
    obtain ⟨used, hused, hle, rfl⟩ := hrounds h
    refine ⟨used, ?_, hle, nofun⟩
    rw [List.map_append, usedBy?_append, hused]
    exact hlast.leaves_counter hbudget

/-- A job goes on within its budget. -/
theorem Job.Turn.retriesUsed_le {rule : RetryRule} {scene scene' : Scene} {job job' : Job}
    (h : job.Turn rule scene (.moves job' scene'))
    (hle : ∀ n, job.retriesUsed? = some n → n ≤ rule.retries) :
    ∀ n, job'.retriesUsed? = some n → n ≤ rule.retries := by
  intro n hn
  cases h with
  | attempts hs => exact hle n hn
  | fails hs herr hlt =>
    cases hn
    exact hlt
  | resumes hc ht => exact hle n hn

end Runner

def CallTask.retriesUsed? (t : CallTask) : Option Nat :=
  match t.phase with
  | .working _ job => job.retriesUsed?
  | _ => none

namespace Run

variable {i : Nat} {t t' : CallTask} {sent : List Message} {r r' : Run}

def WithinBudget (r : Run) : Prop :=
  ∀ t ∈ r.tasks, ∀ n, t.retriesUsed? = some n → n ≤ (r.retryRule t.action.action).retries

/-- A step of a task takes no more retries than its action allows. -/
theorem Conduct.retriesUsed_le (h : Conduct i r t t' sent r')
    (hle : ∀ n, t.retriesUsed? = some n → n ≤ (r.retryRule t.action.action).retries) :
    ∀ n, t'.retriesUsed? = some n → n ≤ (r.retryRule t.action.action).retries := by
  intro n hn
  cases h with
  | enters _ _ =>
    cases hn
    exact Nat.zero_le _
  | begins hp _ =>
    refine hle n ?_
    rw [CallTask.retriesUsed?, hp]
    exact hn
  | works hp hturn _ _ =>
    refine hturn.retriesUsed_le (fun k hk => hle k ?_) n hn
    rw [CallTask.retriesUsed?, hp]
    exact hk
  | _ => cases hn

namespace WithinBudget

theorem aside (h : WithinBudget r) (ha : Aside r r') : WithinBudget r' := by
  obtain ⟨new, htasks, hnew⟩ := ha.tasks
  intro t ht n hn
  rw [retryRule, ha.setup]
  rw [htasks] at ht
  rcases List.mem_append.mp ht with ht | ht
  · exact h t ht n hn
  · have hresolving := hnew t ht
    cases hp : t.phase with
    | working slice job =>
      rw [hp] at hresolving
      cases hresolving
    | _ => simp [CallTask.retriesUsed?, hp] at hn

theorem steps (h : WithinBudget r) (hs : r.stepTask? i = some r') : WithinBudget r' := by
  obtain ⟨t, t', sent, ht, hconduct⟩ := stepTask?_conduct hs
  have hsteps := hconduct.steps ht
  intro u hu n hn
  rw [retryRule, hsteps.setup]
  rcases hsteps.mem_cases hu with rfl | ⟨v, hv, hkept⟩
  · rw [hconduct.task_follows.action]
    exact hconduct.retriesUsed_le (h t (List.mem_of_getElem? ht)) n hn
  · cases hkept with
    | same => exact h _ hv n hn
    | admitted _ =>
      cases hn
      exact Nat.zero_le _

theorem apply (h : WithinBudget r) (m : Move) : WithinBudget (r.apply m) := by
  by_cases hm : ∃ i, m = .task i
  · obtain ⟨i, rfl⟩ := hm
    rw [Run.apply, stepTask]
    cases hs : r.stepTask? i with
    | none => exact h
    | some r' => exact h.steps hs
  · exact h.aside (Aside.apply (fun i hi => hm ⟨i, hi⟩) r)

theorem applyAll (h : WithinBudget r) (ms : List Move) : WithinBudget (r.applyAll ms) := by
  induction ms generalizing r with
  | nil => exact h
  | cons m ms ih => exact ih (h.apply m)

theorem new (setup : Setup) (store : Store) (archive : Archive) (subscribers : Subscribers) :
    WithinBudget (new setup store archive subscribers) := by
  simp [WithinBudget, Run.new]

end WithinBudget

open Runner

/-- Delays and retries in words. Whatever the base of 64 bits and the number of the retry of 32 bits
are, no operation leaves its word, and what comes out is the base doubled that often, up to half a
minute; so later delays are never shorter. Whatever moves a batch or a run takes, no task has more
retries than its budget: a counter of 32 bits shows how many there were, and never has to go past
the budget. -/
theorem exact_within_words (base : BitVec 64) (limit : Nat) (tasks : List Batch.Spec)
    (ms : List Batch.Move) (setup : Setup) (store : Store) (archive : Archive)
    (subscribers : Subscribers) (moves : List Move) :
    let started := Batch.new limit base.toNat tasks
    (∀ retries : BitVec 32, ∃ wait, Word.delay? base retries = some wait ∧
      wait.toNat = delay base.toNat retries.toNat ∧
      wait.toNat = min (base.toNat * 2 ^ retries.toNat) 30000) ∧
    Monotone (delay base.toNat) ∧
    (∀ (i : Nat) t (budget : BitVec 32), (started.applyAll ms).tasks[i]? = some t →
      t.retries = budget.toNat →
      ∃ used, Word.usedBy? budget (Batch.deedsOf i (started.log ms)) = some used ∧
        used ≤ budget ∧ ∀ n, t.job.retriesUsed? = some n → used.toNat = n) ∧
    ∀ t ∈ ((new setup store archive subscribers).applyAll moves).tasks, ∀ n,
      t.retriesUsed? = some n → n ≤ t.action.action.retry.getD setup.config.defaultRetry := by
  intro started
  refine ⟨fun retries => ?_, delay_monotone base.isLt, fun i t budget ht hbudget => ?_,
    fun t ht n hn => ?_⟩
  · obtain ⟨wait, hwait, hexact⟩ := Word.exists_delay? base retries
    exact ⟨wait, hwait, hexact, hexact.trans (delay_eq base.isLt retries.toNat)⟩
  · have hsound : Batch.Sound (max limit 1) base.toNat tasks (started.log ms)
        (started.applyAll ms) :=
      (Batch.Sound.new limit base.toNat tasks).applyAll ms
    exact (hsound.told i t ht).exists_usedBy? hbudget
  · have hwithin := (WithinBudget.new setup store archive subscribers).applyAll moves t ht n hn
    rwa [retryRule, (applyAll_grows _ moves).setup] at hwithin

end Run

namespace Sample

/-- A task that fails whenever it is tried, with as many retries as a word can tell. -/
def busyTask : Runner.Batch.Spec :=
  ("busy", 4294967295, fun _ => .done (.error (.failure .action "busy")))

def busyBatch : Runner.Batch := Runner.Batch.new 1 18446744073709551615 [busyTask]

/-- The task has failed twice. -/
def busyMoves : List Runner.Batch.Move :=
  List.replicate 3 (.step 0) ++ [.wait 30000] ++ List.replicate 3 (.step 0)

/-- A call waits for the only other attempt that it has. -/
def retryingMoves : List Move :=
  [.start, .push (callNamed "tell" 1)] ++ List.replicate 6 (.task 0)

end Sample

open Sample in
/-- The first pause is half a minute at once, and the task may be tried again after the second; the
call has spent its budget. -/
theorem Run.exact_within_words_at_the_limits :
    (∃ t, (busyBatch.applyAll busyMoves).tasks[0]? = some t ∧
      t.retries = (BitVec.allOnes 32).toNat ∧ t.job.retriesUsed? = some 2 ∧
      ∃ used, Runner.Word.usedBy? (BitVec.allOnes 32)
          (Runner.Batch.deedsOf 0 (busyBatch.log busyMoves)) = some used ∧
        used ≤ BitVec.allOnes 32 ∧ used.toNat = 2) ∧
    ∃ t ∈ (tellingRun.applyAll retryingMoves).tasks, t.retriesUsed? = some 1 ∧
      1 ≤ t.action.action.retry.getD tellingRun.setup.config.defaultRetry := by
  obtain ⟨-, -, hbatch, hrun⟩ := exact_within_words (BitVec.allOnes 64) 1 [busyTask] busyMoves
    tellingRun.setup Store.empty Archive.empty Subscribers.empty retryingMoves
  constructor
  · have hpauses : ∃ t, (busyBatch.applyAll busyMoves).tasks[0]? = some t ∧
        t.retries = (BitVec.allOnes 32).toNat ∧ t.job = .pausing 2 60000 :=
      ⟨_, rfl, rfl, rfl⟩
    obtain ⟨t, ht, hretries, hjob⟩ := hpauses
    have htwo : t.job.retriesUsed? = some 2 := by rw [hjob]; rfl
    obtain ⟨used, hused, hle, hcount⟩ := hbatch 0 t (BitVec.allOnes 32) ht hretries
    exact ⟨t, ht, hretries, htwo, used, hused, hle, hcount 2 htwo⟩
  · have hused : (tellingRun.applyAll retryingMoves).tasks.map (·.retriesUsed?) = [some 1] := by
      decide +kernel
    obtain ⟨t, ht, hone⟩ := List.mem_map.mp (hused ▸ List.mem_singleton_self (some 1))
    exact ⟨t, ht, hone, hrun t ht 1 hone⟩

end TagLedger
