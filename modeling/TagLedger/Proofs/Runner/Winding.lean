import Mathlib.Logic.Hydra
import Mathlib.Order.WellFounded
import Mathlib.Tactic.Common
import TagLedger.Proofs.Action.Returns
import TagLedger.Proofs.Runner.Limit

/-!
How a batch winds down. Every step of a task leads to a later stage of its job, or within the script
of an attempt, so all tasks together take finitely many steps.
-/

namespace TagLedger.Runner

open Relation (CutExpand TransGen)

/-- One of the values that a list is taken to becomes less. -/
theorem cutExpand_map_set {α β : Type} {Rel : β → β → Prop} {f : α → β} {xs : List α} {x y : α}
    {i : Nat} (hx : xs[i]? = some x) (h : Rel (f y) (f x)) :
    CutExpand Rel ((xs.set i y).map f : Multiset β) (xs.map f : Multiset β) := by
  obtain ⟨hlt, rfl⟩ := List.getElem?_eq_some_iff.mp hx
  have hset : ((xs.set i y).map f : Multiset β) = {f y} + ((xs.eraseIdx i).map f : Multiset β) := by
    rw [Multiset.singleton_add, Multiset.cons_coe, Multiset.coe_eq_coe]
    exact (List.set_perm_cons_eraseIdx hlt y).map _
  have hall : (xs.map f : Multiset β) = {f xs[i]} + ((xs.eraseIdx i).map f : Multiset β) := by
    rw [Multiset.singleton_add, Multiset.cons_coe, Multiset.coe_eq_coe]
    exact (List.getElem_cons_eraseIdx_perm hlt).symm.map _
  rw [hset, hall]
  exact Relation.cutExpand_single_add h _

namespace Job

/-- How far a job is from its end. -/
@[simp] def distance (retries : Nat) : Job → Nat
  | .asking => 3 * retries + 6
  | .queued => 3 * retries + 5
  | .pausing n _ => 3 * (retries - n) + 4
  | .admitted n => 3 * (retries - n) + 3
  | .attempting n _ => 3 * (retries - n) + 2
  | .ended => 0

inductive GoesOn : Job → Job → Prop where
  | attempts {n : Nat} {script script' : Script (Except RunError Json)}
    (h : script'.After script) : GoesOn (.attempting n script') (.attempting n script)

theorem goesOn_wf : WellFounded GoesOn := by
  refine ⟨fun job => ?_⟩
  cases job with
  | attempting n script =>
    induction script.acc_after with
    | intro script _ ih =>
      refine Acc.intro _ fun job hjob => ?_
      cases hjob with
      | attempts h => exact ih _ h
  | _ => exact Acc.intro _ fun job hjob => by cases hjob

def Lower : Nat × Job → Nat × Job → Prop := Prod.Lex (· < ·) GoesOn

theorem lower_wf : WellFounded Lower := wellFounded_lt.prod_lex goesOn_wf

variable {rule : RetryRule} {scene scene' : Scene} {job job' : Job}

theorem Turn.distance_of_moves (h : job.Turn rule scene (.moves job' scene')) :
    Lower (job'.distance rule.retries, job') (job.distance rule.retries, job) := by
  cases h with
  | attempts hs => exact .right _ (.attempts ⟨_, _, hs⟩)
  | fails hs herr hn =>
    refine .left _ _ ?_
    simp only [distance]
    omega
  | resumes hc ht => exact .left _ _ (Nat.lt_succ_self _)

theorem distance_pos_of_holdsPermit (h : job.holdsPermit = true) (retries : Nat) :
    0 < job.distance retries := by
  cases job with
  | asking | queued | ended => cases h
  | _ => exact Nat.succ_pos _

end Job

namespace Batch

variable {n i : Nat} {b b' : Batch} {t t' : BatchTask}

def toGo (t : BatchTask) : Nat × Job := (t.job.distance t.retries, t.job)

def remains (b : Batch) : Multiset (Nat × Job) := b.tasks.map toGo

theorem Acts.toGo_lt (h : Acts i b t t' b') : Job.Lower (toGo t') (toGo t) := by
  cases h with
  | enters hjob hfree => exact .left _ _ (by simp [hjob])
  | queues hjob hfree => exact .left _ _ (by simp [hjob])
  | begins hjob hc => exact .left _ _ (by simp [hjob])
  | moves hturn => exact hturn.distance_of_moves
  | ends hends => exact .left _ _ (Job.distance_pos_of_holdsPermit hends.holdsPermit t.retries)

theorem remains_put (ht : b.tasks[i]? = some t) (h : Job.Lower (toGo t') (toGo t)) :
    CutExpand Job.Lower (b.put i t').remains b.remains :=
  cutExpand_map_set ht h

/-- A permit that is given back brings the task that gets it nearer to its end. -/
theorem remains_giveBack (hl : Limited n b) :
    b.giveBack.remains = b.remains ∨ CutExpand Job.Lower b.giveBack.remains b.remains := by
  cases hqueue : b.permits.queue with
  | nil =>
    rw [giveBack_nil hqueue]
    exact .inl rfl
  | cons j rest =>
    obtain ⟨u, hu, hjob⟩ := (hl.queued j).mp (hqueue ▸ List.mem_cons_self)
    rw [giveBack_cons hqueue hu]
    have hlower : Job.Lower (toGo { u with job := .admitted 0 }) (toGo u) :=
      .left _ _ (by simp [hjob])
    exact .inr (remains_put hu hlower)

/-- Every step of a task leaves less. -/
theorem Acts.remains_lt (h : Acts i b t t' b') (hl : Limited n b) (ht : b.tasks[i]? = some t) :
    TransGen (CutExpand Job.Lower) b'.remains b.remains := by
  have hlower := h.toGo_lt
  cases h with
  | ends hends =>
    obtain ⟨m, -, hended⟩ := hl.ended ht hends
    have hfirst := remains_put ht hlower
    rcases remains_giveBack hended with hsame | hless
    · rw [hsame]
      exact .single hfirst
    · exact .tail (.single hless) hfirst
  | _ => exact .single (remains_put ht hlower)

end Batch

end TagLedger.Runner
