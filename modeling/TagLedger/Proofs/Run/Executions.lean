import Mathlib.Tactic.Common
import TagLedger.Proofs.Action.Runs
import TagLedger.Proofs.Run.Growth
import TagLedger.Proofs.Run.Slices

/-!
Executions of actions, one for each attempt that a task begins. They are read off a schedule; the
counts that a run keeps for its actions count them all. Whatever attempt is under way at any moment
is what is left of one of them.
-/

namespace TagLedger

/-- An attempt that was begun: the place of the task, the number of the attempt, the action and the
data that it was given. -/
structure Execution where
  task : Nat
  attempt : Nat
  action : Action
  data : Json

def CallTask.attempt? (t : CallTask) : Option (Nat × Script (Except RunError Json)) :=
  match t.phase with
  | .working _ (.attempting n script) => some (n, script)
  | _ => none

theorem CallTask.attempt?_eq_some {t : CallTask} {n : Nat}
    {script : Script (Except RunError Json)} :
    t.attempt? = some (n, script) ↔ ∃ slice, t.phase = .working slice (.attempting n script) := by
  constructor
  · intro h
    unfold attempt? at h
    split at h
    · rename_i slice n' script' hphase
      cases h
      exact ⟨slice, hphase⟩
    · cases h
  · rintro ⟨slice, hphase⟩
    rw [attempt?, hphase]

/-- An execution begins between two runs: its task is in the attempt, and the script is what the
action makes of the data. -/
def Execution.Begins (e : Execution) (r r' : Run) : Prop :=
  ∃ t, r'.tasks[e.task]? = some t ∧
    t.attempt? = some (e.attempt,
      e.action.execute (r.executionsOf e.action.name) e.attempt e.data t.view)

namespace Run

def executed (r : Run) (i : Nat) : List Execution :=
  match r.tasks[i]? with
  | none => []
  | some t =>
    match t.phase with
    | .working slice job =>
      match job.next (r.retryRule t.action.action) (r.scene slice) with
      | .begins n => [⟨i, n, t.action.action, t.call.data.getD .null⟩]
      | _ => []
    | _ => []

/-- The executions that a schedule brings about. -/
def executionsIn : List Move → Run → List Execution
  | [], _ => []
  | .task i :: ms, r => r.executed i ++ executionsIn ms (r.apply (.task i))
  | m :: ms, r => executionsIn ms (r.apply m)

variable {i : Nat} {t t' : CallTask} {sent : List Message} {r r' : Run} {x : Execution}
  {ms : List Move} {name : String}

theorem executionsIn_cons_of_ne {m : Move} (hm : ∀ i, m ≠ .task i) (ms : List Move) (r : Run) :
    executionsIn (m :: ms) r = executionsIn ms (r.apply m) := by
  cases m with
  | task i => exact absurd rfl (hm i)
  | _ => rfl

/-- Where an execution begins, its action is run on the data of the call. -/
theorem begins_of_executed (h : x ∈ r.executed i) :
    ∃ t slice, r.tasks[i]? = some t ∧ t.phase = .working slice (.admitted x.attempt) ∧
      x = ⟨i, x.attempt, t.action.action, t.call.data.getD .null⟩ ∧
      r.apply (.task i) = r.beginAttempt i t slice x.attempt := by
  unfold executed at h
  split at h
  · cases h
  · rename_i t ht
    split at h
    · rename_i slice job hphase
      split at h
      · rename_i n hnext
        obtain rfl := List.mem_singleton.mp h
        cases Runner.Job.turn_of_next hnext nofun
        refine ⟨t, slice, ht, hphase, rfl, ?_⟩
        simp only [apply, stepTask, stepTask?, ht, Option.bind_some, hphase, stepWorking?, hnext,
          Option.getD_some]
      · cases h
    · cases h

theorem executed_of_admitted {slice : Json} {n : Nat} (ht : r.tasks[i]? = some t)
    (hphase : t.phase = .working slice (.admitted n)) (hc : r.cancelled = false) :
    r.executed i = [⟨i, n, t.action.action, t.call.data.getD .null⟩] := by
  have hscene : (r.scene slice).cancelled = false := hc
  simp [executed, ht, hphase, Runner.Job.next, hscene]

/-- A step that begins no attempt counts none. -/
theorem Conduct.executions (h : Conduct i r t t' sent r') (ht : r.tasks[i]? = some t)
    (hnone : r.executed i = []) : r'.executions = r.executions := by
  have habsorb (s : Scene) : (r.absorb s).executions = r.executions :=
    (r.absorb_still s).1.executions
  have hgive : r.giveBack.executions = r.executions := r.giveBack_idle.executions
  have hkeep (slice : Json) :
      ((r.draw 1).keepSlice t.action.action slice).executions = r.executions := by
    rw [keepSlice_frame]
    rfl
  cases h with
  | begins hp hc =>
    rw [executed_of_admitted ht hp hc] at hnone
    cases hnone
  | works _ _ _ _ => exact habsorb _
  | succeeds _ _ => exact hgive
  | fails _ _ => exact hgive
  | crashes _ _ _ => exact hgive
  | recovers _ _ _ _ => exact habsorb _
  | concludes _ _ _ => exact hkeep _
  | concludesError _ _ _ => exact hkeep _
  | follows _ _ _ _ => exact habsorb _
  | _ => rfl

theorem executionsOf_task (r : Run) (i : Nat) (name : String) :
    (r.apply (.task i)).executionsOf name =
      r.executionsOf name + (r.executed i).countP fun x => x.action.name == name := by
  cases hexecuted : r.executed i with
  | nil =>
    refine executionsOf_congr ?_ name
    rw [apply, stepTask]
    cases hs : r.stepTask? i with
    | none => rfl
    | some r' =>
      obtain ⟨t, t', sent, ht, hconduct⟩ := stepTask?_conduct hs
      exact hconduct.executions ht hexecuted
  | cons x xs =>
    obtain ⟨t, slice, ht, hphase, hx, happly⟩ :=
      begins_of_executed (hexecuted ▸ List.mem_cons_self : x ∈ r.executed i)
    have hone : xs = [] := by
      unfold executed at hexecuted
      rw [ht] at hexecuted
      simp only [hphase, Runner.Job.next] at hexecuted
      split at hexecuted <;> cases hexecuted
      rfl
    subst hone
    have hcount : (r.apply (.task i)).executions =
        (r.countExecution t.action.action.name).executions := by
      rw [happly]
      rfl
    have haction : x.action = t.action.action := by rw [hx]
    rw [List.countP_singleton, haction]
    by_cases hname : t.action.action.name = name
    · subst hname
      rw [executionsOf_of_count hcount]
      simp
    · rw [executionsOf_of_count_ne (Ne.symm hname) hcount]
      simp [hname]

/-- The count that a run keeps for an action is that of its executions. -/
theorem executionsOf_applyAll (r : Run) (ms : List Move) (name : String) :
    (r.applyAll ms).executionsOf name =
      r.executionsOf name + (executionsIn ms r).countP fun x => x.action.name == name := by
  induction ms generalizing r with
  | nil => rfl
  | cons m ms ih =>
    have hstep : (r.applyAll (m :: ms)).executionsOf name =
        ((r.apply m).applyAll ms).executionsOf name := rfl
    rw [hstep, ih]
    by_cases hm : ∃ i, m = .task i
    · obtain ⟨i, rfl⟩ := hm
      rw [executionsIn, List.countP_append, executionsOf_task, Nat.add_assoc]
    · have hm : ∀ i, m ≠ .task i := fun i h => hm ⟨i, h⟩
      rw [executionsIn_cons_of_ne hm, executionsOf_congr (Aside.apply hm r).executions]

/-- An execution of a schedule begins with one of its moves. -/
theorem exists_move_of_executionsIn (h : x ∈ executionsIn ms r) :
    ∃ before after, ms = before ++ .task x.task :: after ∧
      x ∈ (r.applyAll before).executed x.task := by
  induction ms generalizing r with
  | nil => cases h
  | cons m ms ih =>
    have hlater (h : x ∈ executionsIn ms (r.apply m)) : ∃ before after,
        m :: ms = before ++ .task x.task :: after ∧
          x ∈ (r.applyAll before).executed x.task := by
      obtain ⟨before, after, rfl, hx⟩ := ih h
      exact ⟨m :: before, after, rfl, hx⟩
    cases m with
    | task i =>
      rcases List.mem_append.mp h with h | h
      · obtain ⟨_, _, _, _, hx, _⟩ := begins_of_executed h
        have hi : x.task = i := by rw [hx]
        subst hi
        exact ⟨[], ms, rfl, h⟩
      · exact hlater h
    | _ => exact hlater h

theorem begins_apply (h : x ∈ r.executed x.task) : x.Begins r (r.apply (.task x.task)) := by
  obtain ⟨t, slice, ht, hphase, hx, happly⟩ := begins_of_executed h
  have haction : x.action = t.action.action := by rw [hx]
  have hdata : x.data = t.call.data.getD .null := by rw [hx]
  rw [Execution.Begins, happly, haction, hdata]
  exact ⟨_, getElem?_setPhase_self ht _, rfl⟩

/-- The attempts that are under way are what is left of the given executions. -/
def Attempting (es : List Execution) (r : Run) : Prop :=
  ∀ (k : Nat) t n script, r.tasks[k]? = some t → t.attempt? = some (n, script) →
    ∃ e ∈ es, e.task = k ∧ e.attempt = n ∧
      ∃ executions, (e.action.execute executions n e.data t.view).LeftOf script

/-- A task after its step is in an attempt that it has just begun, or was in before. -/
theorem Conduct.attempt_cases {n : Nat} {script : Script (Except RunError Json)}
    (h : Conduct i r t t' sent r') (ht' : t'.attempt? = some (n, script)) :
    t'.view = t.view ∧
      ((∃ slice, t.phase = .working slice (.admitted n) ∧ r.cancelled = false ∧
          script = t.action.action.execute (r.executionsOf t.action.action.name) n
            (t.call.data.getD .null) t.view) ∨
        ∃ script' scene scene', t.attempt? = some (n, script') ∧
          script'.step scene = .moved script scene') := by
  cases h with
  | begins hp hc =>
    cases ht'
    exact ⟨rfl, .inl ⟨_, hp, hc, rfl⟩⟩
  | works hp hturn _ _ =>
    cases hturn with
    | attempts hs =>
      cases ht'
      exact ⟨rfl, .inr ⟨_, _, _, CallTask.attempt?_eq_some.mpr ⟨_, hp⟩, hs⟩⟩
    | _ => cases ht'
  | _ => cases ht'

namespace Attempting

variable {es : List Execution}

theorem append (h : Attempting es r) (es' : List Execution) : Attempting (es ++ es') r := by
  intro k t n script ht hattempt
  obtain ⟨e, he, hleft⟩ := h k t n script ht hattempt
  exact ⟨e, List.mem_append_left _ he, hleft⟩

theorem steps (h : Attempting es r) (hs : r.stepTask? i = some r') :
    Attempting (es ++ r.executed i) r' := by
  obtain ⟨t, t', sent, ht, hconduct⟩ := stepTask?_conduct hs
  have hsteps := hconduct.steps ht
  intro k u n script hu hattempt
  by_cases hk : k = i
  · subst hk
    obtain rfl : t' = u := Option.some.inj (hsteps.after.symm.trans hu)
    obtain ⟨hview, hcases⟩ := hconduct.attempt_cases hattempt
    rw [hview]
    rcases hcases with ⟨slice, hp, hc, rfl⟩ | ⟨script', _, _, hold, hmoved⟩
    · have hexecuted := executed_of_admitted ht hp hc
      refine ⟨_, List.mem_append_right _ (hexecuted ▸ List.mem_singleton_self _), rfl, rfl, ?_⟩
      exact ⟨_, .all⟩
    · obtain ⟨e, he, htask, hnumber, executions, hleft⟩ := h k t n script' ht hold
      exact ⟨e, List.mem_append_left _ he, htask, hnumber, executions, hleft.moves hmoved⟩
  · obtain ⟨v, hv, hkept⟩ := hsteps.exists_kept hk hu
    cases hkept with
    | same => exact h.append _ k u n script hv hattempt
    | admitted _ => cases hattempt

theorem aside (h : Attempting es r) (ha : Aside r r') : Attempting es r' := by
  obtain ⟨new, htasks, hnew⟩ := ha.tasks
  intro k t n script ht hattempt
  rw [htasks] at ht
  rcases Nat.lt_or_ge k r.tasks.length with hlt | hge
  · rw [List.getElem?_append_left hlt] at ht
    exact h k t n script ht hattempt
  · rw [List.getElem?_append_right hge] at ht
    have hresolving := hnew t (List.mem_of_getElem? ht)
    obtain ⟨slice, hphase⟩ := CallTask.attempt?_eq_some.mp hattempt
    rw [hphase] at hresolving
    cases hresolving

theorem applyAll (h : Attempting es r) (ms : List Move) :
    Attempting (es ++ executionsIn ms r) (r.applyAll ms) := by
  induction ms generalizing r es with
  | nil => exact h.append _
  | cons m ms ih =>
    by_cases hm : ∃ i, m = .task i
    · obtain ⟨i, rfl⟩ := hm
      rw [executionsIn, ← List.append_assoc]
      refine ih ?_
      rw [Run.apply, stepTask]
      cases hs : r.stepTask? i with
      | none => exact h.append _
      | some r' => exact h.steps hs
    · have hm : ∀ i, m ≠ .task i := fun i h => hm ⟨i, h⟩
      rw [executionsIn_cons_of_ne hm]
      exact ih (h.aside (Aside.apply hm r))

theorem new (setup : Setup) (store : Store) (archive : Archive) (subscribers : Subscribers) :
    Attempting [] (new setup store archive subscribers) := by
  intro k t n script ht
  cases ht

end Attempting

end Run

end TagLedger
