import Mathlib.Tactic.Common
import TagLedger.Proofs.Run.Course
import TagLedger.Proofs.Run.Winding

/-!
How tasks near their ends. Every step of a task takes it to a later phase, on in the script that it
runs, or to one of finitely many further attempts. So a call that has come to its action ends in
finitely many steps of tasks, if the actions come to their ends.
-/

namespace TagLedger

open Relation (CutExpand TransGen)

/-- How far a task is from its end if failed attempts are repeated that often. -/
@[simp] def Runner.Job.rank (retries : Nat) : Runner.Job → Nat
  | .asking => 3 * retries + 10
  | .queued => 3 * retries + 9
  | .pausing n _ => 3 * (retries - n) + 8
  | .admitted n => 3 * (retries - n) + 7
  | .attempting n _ => 3 * (retries - n) + 6
  | .ended => 4

@[simp, inherit_doc Runner.Job.rank]
def Phase.rank (retries : Nat) : Phase → Nat
  | .resolving _ todo => 3 * retries + 12 + todo.length
  | .loading => 3 * retries + 11
  | .working _ job => job.rank retries
  | .recovering _ _ => 3
  | .concluding _ _ => 2
  | .succeeding _ _ _ => 1
  | .ended => 0

def CallTask.ranked (retries : Action → Nat) (t : CallTask) : Nat × Phase :=
  (t.phase.rank (retries t.action.action), t.phase)

namespace Run

variable {i j k : Nat} {t t' : CallTask} {sent : List Message} {r r' : Run} {retries : Action → Nat}

/-- Every step takes a task nearer to its end. -/
theorem Conduct.lower (h : Conduct i r t t' sent r')
    (hretries : (r.retryRule t.action.action).retries = retries t.action.action) :
    Phase.Lower (t'.ranked retries) (t.ranked retries) := by
  have hlower (h : t'.phase.rank (retries t'.action.action) <
      t.phase.rank (retries t.action.action)) :
      Phase.Lower (t'.ranked retries) (t.ranked retries) := Prod.Lex.left _ _ h
  have hgoesOn (hrank : t'.phase.rank (retries t'.action.action) =
      t.phase.rank (retries t.action.action)) (h : t'.phase.GoesOn t.phase) :
      Phase.Lower (t'.ranked retries) (t.ranked retries) := by
    rw [CallTask.ranked, CallTask.ranked, hrank]
    exact Prod.Lex.right _ h
  -- A job that ends leaves an attempt or a pause, whose ranks are above all that follow.
  have hends {slice : Json} {job : Runner.Job} {step : Runner.JobStep}
      (hp : t.phase = .working slice job)
      (hturn : job.Turn (r.retryRule t.action.action) (r.scene slice) step)
      (hholds : job.holdsPermit = true) (n : Nat) (hn : n < 4) :
      n < t.phase.rank (retries t.action.action) := by
    rw [hp]
    cases job with
    | asking | queued | ended => cases hholds
    | _ =>
      simp only [Phase.rank, Runner.Job.rank]
      omega
  cases h with
  | rejects hp _ => exact hlower (by simp [hp])
  | fills hp _ _ _ => exact hlower (by simp [hp])
  | prepares hp _ => exact hlower (by simp [hp])
  | loads hp => exact hlower (by simp [hp])
  | enters hp _ => exact hlower (by simp [hp])
  | queues hp _ => exact hlower (by simp [hp])
  | begins hp _ => exact hlower (by simp [hp])
  | @works slice job job' scene _ hp hturn _ _ =>
    cases hturn with
    | attempts hs => exact hgoesOn (by simp [hp]) (by rw [hp]; exact .attempts ⟨_, _, hs⟩)
    | fails _ _ hn =>
      refine hlower ?_
      simp only [hp, Phase.rank, Runner.Job.rank]
      omega
    | resumes _ _ => exact hlower (by simp [hp])
  | succeeds hp hturn => exact hlower (hends hp hturn hturn.holdsPermit_of_ends 2 (by omega))
  | fails hp hturn => exact hlower (hends hp hturn hturn.holdsPermit_of_ends 3 (by omega))
  | crashes hp hturn _ => exact hlower (hends hp hturn hturn.holdsPermit_of_crashes 0 (by omega))
  | recovers hp hs _ _ => exact hgoesOn (by simp [hp]) (by rw [hp]; exact .recovers ⟨_, _, hs⟩)
  | recovered hp _ => exact hlower (by simp [hp])
  | recoveryBreaks hp _ _ => exact hlower (by simp [hp])
  | concludes hp _ _ _ => exact hlower (by simp [hp])
  | concludesError hp _ _ _ => exact hlower (by simp [hp])
  | follows hp hs _ _ => exact hgoesOn (by simp [hp]) (by rw [hp]; exact .succeeds ⟨_, _, hs⟩)
  | finishes hp _ => exact hlower (by simp [hp])
  | followBreaks hp _ _ => exact hlower (by simp [hp])

theorem Conduct.isPreparing (h : Conduct i r t t' sent r') (hpast : t.phase.isPreparing = false) :
    t'.phase.isPreparing = false := by
  cases h with
  | rejects hp _ => rfl
  | fills hp _ _ _ | prepares hp _ =>
    rw [hp] at hpast
    cases hpast
  | _ => rfl

/-- A call that has come to its action stays there. -/
theorem exists_past_of_stepTask? (hl : Lined r) (hs : r.stepTask? i = some r')
    (ht : r.tasks[k]? = some t) (hpast : t.phase.isPreparing = false) :
    ∃ t', r'.tasks[k]? = some t' ∧ t'.phase.isPreparing = false := by
  obtain ⟨u, u', sent, hu, hconduct⟩ := stepTask?_conduct hs
  by_cases hk : k = i
  · subst hk
    obtain rfl : t = u := Option.some.inj (ht.symm.trans hu)
    exact ⟨u', (hconduct.steps hu).after, hconduct.isPreparing hpast⟩
  · have hserved := hconduct.neighbours.served hl hk
    rw [ht] at hserved
    cases hafter : r'.tasks[k]? with
    | none =>
      rw [hafter] at hserved
      cases hserved
    | some t' =>
      rw [hafter] at hserved
      refine ⟨t', rfl, ?_⟩
      cases hserved with
      | some hserved =>
        cases hserved with
        | same => exact hpast
        | admitted _ => rfl

/-- While a call that has come to its action is not over, it goes on, or one that holds a permit
does. -/
theorem exists_canGoOn {h : List (Run × Message)} {n : Nat} (ha : Attended h r)
    (hl : Limited (max n 1) r) (hr : Returning r) (ht : r.tasks[k]? = some t)
    (hpast : t.phase.isPreparing = false) (hover : t.isOver = false) : ∃ i, CanGoOn r i := by
  cases hs : r.stepTask? k with
  | some q => exact ⟨k, .inl (by rw [canStep, hs]; rfl)⟩
  | none =>
    cases ha.stalls ht hover hs with
    | awaitsCall hp _ _ _ _ _ _ =>
      rw [hp] at hpast
      cases hpast
    | queued hp =>
      obtain ⟨j, u, hu, hholds⟩ := hl.exists_holder ht (by rw [hp]; rfl)
      exact ⟨j, (ha.acts_of_holdsPermit hu hholds).canGoOn hr⟩
    | inAction hin => exact ⟨k, Acts.canGoOn hr (.inr ⟨t, ht, hin⟩)⟩

theorem CanGoOn.exists_step (h : CanGoOn r i) : ∃ ms q, (r.wait ms).stepTask? i = some q := by
  rcases h with h | ⟨time, _, _, h⟩
  · exact ⟨0, Option.isSome_iff_exists.mp h⟩
  · exact ⟨time - r.now, Option.isSome_iff_exists.mp h⟩

/-- Time passes and tasks take steps, and nothing else happens. -/
def IsWork (ms : List Move) : Prop := ∀ m ∈ ms, (∃ i, m = .task i) ∨ ∃ n, m = .wait n

def ranks (retries : Action → Nat) (r : Run) : Multiset (Nat × Phase) :=
  r.tasks.map (CallTask.ranked retries)

/-- A step of any task, after some waiting, leaves less before the tasks. -/
theorem ranks_lt (hl : Lined r) (n : Nat) (hs : (r.wait n).stepTask? i = some r')
    (hretries : ∀ a, (r.retryRule a).retries = retries a) :
    TransGen (CutExpand Phase.Lower) (r'.ranks retries) (r.ranks retries) := by
  obtain ⟨t, t', sent, ht, hconduct⟩ := stepTask?_conduct hs
  have hlined : Lined (r.wait n) := ⟨hl.nodup, hl.waits⟩
  have hless : TransGen (CutExpand Phase.Lower) (r'.ranks retries) ((r.wait n).ranks retries) :=
    (hconduct.permitUse ht).map_lt hlined ht (hconduct.lower (hretries _)) fun v _ hphase =>
      Prod.Lex.left _ _ (by simp [hphase])
  exact hless

section

variable {setup : Setup} {store : Store} {archive : Archive} {subscribers : Subscribers}
  {ms : List Move}

/-- While a call that has come to its action is not over, some task can take a step. -/
theorem exists_work (hreturns : ∀ a ∈ setup.catalog.actions, a.Returns)
    (ht : ((new setup store archive subscribers).applyAll ms).tasks[k]? = some t)
    (hpast : t.phase.isPreparing = false) (hended : t.phase ≠ .ended) :
    ∃ n i q, (((new setup store archive subscribers).applyAll ms).wait n).stepTask? i = some q := by
  have hover : t.isOver = false := by
    cases hphase : t.phase with
    | ended => exact absurd hphase hended
    | _ => simp [CallTask.isOver, hphase]
  have ha := (Attended.new setup store archive subscribers).applyAll ms
  have hl := (Limited.new setup store archive subscribers).applyAll ms
  have hr : Returning ((new setup store archive subscribers).applyAll ms) := by
    refine Returning.applyAll ⟨fun a ha => (hreturns a ha).returnsIn, ?_, ?_⟩ ms
    · simp [new, Ledger.empty]
    · simp [new]
  obtain ⟨i, hgoes⟩ := exists_canGoOn ha hl hr ht hpast hover
  obtain ⟨n, q, hs⟩ := hgoes.exists_step
  exact ⟨n, i, q, hs⟩

/-- If the actions come to their ends, a call that has come to its action can be worked to its
end. -/
theorem exists_ended (hreturns : ∀ a ∈ setup.catalog.actions, a.Returns)
    (ht : ((new setup store archive subscribers).applyAll ms).tasks[k]? = some t)
    (hpast : t.phase.isPreparing = false) :
    ∃ more t', IsWork more ∧
      ((new setup store archive subscribers).applyAll (ms ++ more)).tasks[k]? = some t' ∧
        t'.phase = .ended := by
  set r₀ := new setup store archive subscribers
  set retries := fun a => (r₀.retryRule a).retries
  have hwf : WellFounded (TransGen (CutExpand Phase.Lower)) := Phase.lower_wf.cutExpand.transGen
  generalize hrest : (r₀.applyAll ms).ranks retries = rest
  induction rest using hwf.induction generalizing ms t with
  | _ rest ih =>
    by_cases hended : t.phase = .ended
    · refine ⟨[], t, by simp [IsWork], ?_, hended⟩
      rwa [List.append_nil]
    · obtain ⟨n, i, q, hs⟩ := exists_work hreturns ht hpast hended
      have hq : r₀.applyAll (ms ++ [.wait n] ++ [.task i]) = q := by
        rw [applyAll_concat, applyAll_concat]
        change ((r₀.applyAll ms).wait n).stepTask i = q
        rw [stepTask, hs, Option.getD_some]
      have hl := ((Limited.new setup store archive subscribers).applyAll ms).toLined
      have hretries (a : Action) : ((r₀.applyAll ms).retryRule a).retries = retries a := by
        rw [retryRule, (r₀.applyAll_grows ms).setup]
        rfl
      have hless := ranks_lt hl n hs hretries
      have hlined : Lined ((r₀.applyAll ms).wait n) := ⟨hl.nodup, hl.waits⟩
      obtain ⟨t₁, ht₁, hpast₁⟩ := exists_past_of_stepTask? hlined hs ht hpast
      obtain ⟨more, t', hwork, ht', hended'⟩ :=
        ih _ (hrest ▸ hless) hpast₁ (hq.symm ▸ ht₁) (congrArg (ranks retries) hq)
      refine ⟨.wait n :: .task i :: more, t', ?_, ?_, hended'⟩
      · rintro m (_ | ⟨_, _ | ⟨_, hm⟩⟩)
        · exact .inr ⟨n, rfl⟩
        · exact .inl ⟨i, rfl⟩
        · exact hwork m hm
      · rwa [List.append_cons, List.append_cons]

end

end Run

end TagLedger
