import Mathlib.Logic.Hydra
import Mathlib.Order.WellFounded
import Mathlib.Tactic.Common
import TagLedger.Proofs.Run.Permits
import TagLedger.Proofs.Run.Progress
import TagLedger.Proofs.Runner.Winding

/-!
How tasks wind down in a run that is cancelled. No attempt begins any more, so a task only goes on
to later phases or within the script that it runs, and so takes finitely many steps.
-/

namespace TagLedger

open Relation (CutExpand TransGen)

/-- How far a task is from its end in a cancelled run, by its phase. -/
@[simp] def Runner.Job.stage : Runner.Job → Nat
  | .asking => 7
  | .queued => 6
  | .attempting _ _ => 5
  | .admitted _ => 4
  | .pausing _ _ => 4
  | .ended => 4

@[simp, inherit_doc Runner.Job.stage]
def Phase.stage : Phase → Nat
  | .resolving _ todo => 9 + todo.length
  | .loading => 8
  | .working _ job => job.stage
  | .recovering _ _ => 3
  | .concluding _ _ => 2
  | .succeeding _ _ _ => 1
  | .ended => 0

namespace Phase

inductive Follows : Phase → Phase → Prop where
  | descends {p p' : Phase} (h : p'.stage < p.stage) : Follows p' p
  | attempts {slice slice' : Json} {n : Nat} {script script' : Script (Except RunError Json)}
    (h : script'.After script) :
    Follows (.working slice' (.attempting n script')) (.working slice (.attempting n script))
  | recovers {slice slice' : Json} {script script' : Script (Except RunError Json)}
    (h : script'.After script) : Follows (.recovering slice' script') (.recovering slice script)
  | succeeds {slice slice' : Json} {result : Entry.Result}
    {script script' : Script (Except RunError Unit)} (h : script'.After script) :
    Follows (.succeeding slice' result script') (.succeeding slice result script)

inductive GoesOn : Phase → Phase → Prop where
  | attempts {slice slice' : Json} {n : Nat} {script script' : Script (Except RunError Json)}
    (h : script'.After script) :
    GoesOn (.working slice' (.attempting n script')) (.working slice (.attempting n script))
  | recovers {slice slice' : Json} {script script' : Script (Except RunError Json)}
    (h : script'.After script) : GoesOn (.recovering slice' script') (.recovering slice script)
  | succeeds {slice slice' : Json} {result : Entry.Result}
    {script script' : Script (Except RunError Unit)} (h : script'.After script) :
    GoesOn (.succeeding slice' result script') (.succeeding slice result script)

theorem goesOn_wf : WellFounded GoesOn := by
  refine ⟨fun p => ?_⟩
  cases p with
  | working slice job =>
    cases job with
    | attempting k script =>
      induction script.acc_after generalizing slice with
      | intro script _ ih =>
        refine Acc.intro _ fun q hq => ?_
        cases hq with
        | attempts h => exact ih _ h _
    | _ => exact Acc.intro _ fun q hq => by cases hq
  | recovering slice script =>
    induction script.acc_after generalizing slice with
    | intro script _ ih =>
      refine Acc.intro _ fun q hq => ?_
      cases hq with
      | recovers h => exact ih _ h _
  | succeeding slice result script =>
    induction script.acc_after generalizing slice with
    | intro script _ ih =>
      refine Acc.intro _ fun q hq => ?_
      cases hq with
      | succeeds h => exact ih _ h _
  | _ => exact Acc.intro _ fun q hq => by cases hq

def Lower : Nat × Phase → Nat × Phase → Prop := Prod.Lex (· < ·) GoesOn

theorem lower_wf : WellFounded Lower := wellFounded_lt.prod_lex goesOn_wf

theorem acc_follows (p : Phase) : Acc Follows p := by
  have hwf : WellFounded (InvImage Lower fun p : Phase => (p.stage, p)) := InvImage.wf _ lower_wf
  refine Subrelation.accessible (fun {q p} h => ?_) (hwf.apply p)
  cases h with
  | descends h => exact Prod.Lex.left _ _ h
  | attempts h => exact Prod.Lex.right _ (.attempts h)
  | recovers h => exact Prod.Lex.right _ (.recovers h)
  | succeeds h => exact Prod.Lex.right _ (.succeeds h)

end Phase

def phases (ts : List CallTask) : Multiset Phase := ts.map (·.phase)

namespace Run

variable {i : Nat} {t t' : CallTask} {sent : List Message} {r r' : Run} {m : Message}

/-- A step of a task in a cancelled run leads to a phase that follows. -/
theorem Conduct.follows_phase (h : Conduct i r t t' sent r') (hc : r.cancelled = true) :
    t'.phase.Follows t.phase := by
  have hends {job : Runner.Job} {slice : Json} {p : Phase} {outcome : Except RunError Json}
      (hp : t.phase = .working slice job)
      (hturn : job.Turn (r.retryRule t.action.action) (r.scene slice) (.ends outcome))
      (hlow : p.stage < 4) : p.Follows t.phase := by
    refine .descends ?_
    rw [hp]
    cases hturn with
    | aborts hjob _ => rcases hjob with ⟨n, rfl⟩ | ⟨n, time, rfl⟩ <;> exact hlow
    | ends _ _ => exact Nat.lt_succ_of_lt hlow
  cases h with
  | rejects hp _ => exact .descends (by simp [hp])
  | fills hp _ _ _ => exact .descends (by simp [hp])
  | prepares hp _ => exact .descends (by simp [hp])
  | loads hp => exact .descends (by simp [hp])
  | enters hp _ => exact .descends (by simp [hp])
  | queues hp _ => exact .descends (by simp [hp])
  | begins _ hnot => cases hnot.symm.trans hc
  | works hp hturn _ _ =>
    rw [hp]
    cases hturn with
    | attempts hs => exact .attempts ⟨_, _, hs⟩
    | fails _ _ _ => exact .descends (by simp)
    | resumes hnot _ =>
      have hnot : r.cancelled = false := hnot
      cases hc.symm.trans hnot
  | succeeds hp hturn => exact hends hp hturn (by simp)
  | fails hp hturn => exact hends hp hturn (by simp)
  | crashes hp hturn _ =>
    cases hturn
    exact .descends (by simp [hp])
  | recovers hp hs _ _ => exact hp ▸ .recovers ⟨_, _, hs⟩
  | recovered hp _ => exact .descends (by simp [hp])
  | recoveryBreaks hp _ _ => exact .descends (by simp [hp])
  | concludes hp _ _ _ => exact .descends (by simp [hp])
  | concludesError hp _ _ _ => exact .descends (by simp [hp])
  | follows hp hs _ _ => exact hp ▸ .succeeds ⟨_, _, hs⟩
  | finishes hp _ => exact .descends (by simp [hp])
  | followBreaks hp _ _ => exact .descends (by simp [hp])

/-- If a step makes a task less, it makes all tasks together less: a task that is let in by it
becomes less too. -/
theorem PermitUse.map_lt {β : Type} {Rel : β → β → Prop} {f : CallTask → β} (hl : Lined r)
    (ht : r.tasks[i]? = some t) (hu : PermitUse i t t' r r') (h : Rel (f t') (f t))
    (hadmitted : ∀ (u : CallTask) v, u.phase = .working v .queued →
      Rel (f { u with phase := .working v (.admitted 0) }) (f u)) :
    TransGen (CutExpand Rel) (r'.tasks.map f : Multiset β) (r.tasks.map f : Multiset β) := by
  have hone (htasks : r'.tasks = r.tasks.set i t') :
      TransGen (CutExpand Rel) (r'.tasks.map f : Multiset β) (r.tasks.map f : Multiset β) :=
    .single (htasks ▸ Runner.cutExpand_map_set ht h)
  cases hu with
  | keeps _ htasks _ _ _ => exact hone htasks
  | takes _ htasks _ _ _ _ _ => exact hone htasks
  | joins _ htasks _ _ _ _ => exact hone htasks
  | returns _ htasks hholds _ _ =>
    cases hqueue : r.permits.queue with
    | nil =>
      rw [giveBack_nil hqueue] at htasks
      exact hone htasks
    | cons j rest =>
      obtain ⟨u, v, hu, hphase, hgiven⟩ := hl.tasks_giveBack hqueue
      have hne : j ≠ i := by
        rintro rfl
        obtain rfl := Option.some.inj (ht.symm.trans hu)
        rw [hphase] at hholds
        cases hholds
      have hin : CutExpand Rel (r.giveBack.tasks.map f : Multiset β)
          (r.tasks.map f : Multiset β) := by
        rw [hgiven]
        exact Runner.cutExpand_map_set hu (hadmitted u v hphase)
      refine .tail (.single ?_) hin
      rw [htasks]
      exact Runner.cutExpand_map_set (by rw [hgiven, List.getElem?_set_ne hne, ht]) h

/-- So the step of a task makes the phases of all tasks less. -/
theorem PermitUse.phases_lt (hl : Lined r) (ht : r.tasks[i]? = some t)
    (hu : PermitUse i t t' r r') (h : t'.phase.Follows t.phase) :
    TransGen (CutExpand Phase.Follows) (phases r'.tasks) (phases r.tasks) :=
  hu.map_lt hl ht h fun u v hphase => .descends (by simp [hphase])

end Run

end TagLedger
