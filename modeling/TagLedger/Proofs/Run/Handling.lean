import Mathlib.Tactic.Common
import TagLedger.Proofs.Action.Leaves
import TagLedger.Proofs.Run.Conduct

/-!
What a step of a task does to memory slices. A call holds a slice from the loading of its memory to
the writing; in between it alone changes the slice, and the store keeps its values. Executions are
counted where attempts begin. Beside its own task a step changes at most one other: the one that has
waited longest for a permit.
-/

namespace TagLedger

namespace Phase

/-- Whether the memory is loaded and not written yet. -/
def holdsSlice : Phase → Bool
  | .working _ _ => true
  | .recovering _ _ => true
  | .concluding _ _ => true
  | _ => false

def isResolving : Phase → Bool
  | .resolving _ _ => true
  | _ => false

theorem holdsSlice_of_isResolving {p : Phase} (h : p.isResolving = true) :
    p.holdsSlice = false := by
  cases p with
  | resolving payload todo => rfl
  | _ => cases h

/-- The slice satisfies `P` before the first attempt. When what runs on it has ended, it satisfies
`Q`. -/
def Carries (P Q : Json → Prop) : Phase → Prop
  | .working v .asking => P v
  | .working v .queued => P v
  | .working v (.admitted 0) => P v
  | .working v (.attempting _ script) => script.Leaves Q v
  | .working v _ => Q v
  | .recovering v script => script.Leaves Q v
  | .concluding v _ => Q v
  | _ => True

variable {P P' Q Q' : Json → Prop}

theorem Carries.mono (hP : ∀ v, P v → P' v) (hQ : ∀ v, Q v → Q' v) {p : Phase}
    (h : p.Carries P Q) : p.Carries P' Q' := by
  cases p with
  | working v job =>
    cases job with
    | asking => exact hP v h
    | queued => exact hP v h
    | admitted n =>
      cases n with
      | zero => exact hP v h
      | succ n => exact hQ v h
    | attempting n script => exact Script.Leaves.mono hQ h
    | pausing n time => exact hQ v h
    | ended => exact hQ v h
  | recovering v script => exact Script.Leaves.mono hQ h
  | concluding v outcome => exact hQ v h
  | _ => trivial

theorem Carries.of_admitted (hQP : ∀ v, Q v → P v) {v : Json} {n : Nat}
    (h : (Phase.working v (.admitted n)).Carries P Q) : P v := by
  cases n with
  | zero => exact h
  | succ n => exact hQP v h

theorem carries_admitted (hQP : ∀ v, Q v → P v) {v : Json} (n : Nat) (h : Q v) :
    (Phase.working v (.admitted n)).Carries P Q := by
  cases n with
  | zero => exact hQP v h
  | succ n => exact h

end Phase

namespace Runner.Job.Turn

variable {rule : RetryRule} {scene scene' : Scene} {job job' : Job} {P Q : Json → Prop}

theorem carries_of_moves (hQP : ∀ v, Q v → P v) (h : job.Turn rule scene (.moves job' scene'))
    (hcancel : scene.cancelled = false) (hcancel' : scene'.cancelled = false)
    (hjob : (Phase.working scene.slice job).Carries P Q) :
    (Phase.working scene'.slice job').Carries P Q := by
  cases h with
  | attempts hs => exact Script.Leaves.of_moved hjob hs hcancel hcancel'
  | fails hs herr hn => exact Script.Leaves.of_finished hjob hs
  | resumes hc ht => exact Phase.carries_admitted hQP _ hjob

/-- A job that ends without cancellation leaves what its last attempt does. -/
theorem slice_of_ends {outcome : Except RunError Json} (h : job.Turn rule scene (.ends outcome))
    (hcancel : scene.cancelled = false) (hjob : (Phase.working scene.slice job).Carries P Q) :
    Q scene.slice := by
  cases h with
  | aborts hwaits hc =>
    rw [hcancel] at hc
    cases hc
  | ends hs hlast => exact Script.Leaves.of_finished hjob hs

theorem not_carries_of_crashes (h : job.Turn rule scene .crashes) :
    ¬ (Phase.working scene.slice job).Carries P Q := by
  cases h with
  | crashes hs => exact fun hleaves => Script.Leaves.not_crashed hleaves hs

end Runner.Job.Turn

namespace Store

theorem value?_read (s : Store) (key other : String) :
    (s.read key).2.value? other = s.value? other := by
  unfold read
  split <;> rfl

@[simp] theorem readFault_read (s : Store) (key : String) :
    (s.read key).2.readFault = s.readFault := by
  unfold read
  split <;> rfl

@[simp] theorem writeFault_read (s : Store) (key : String) :
    (s.read key).2.writeFault = s.writeFault := by
  unfold read
  split <;> rfl

end Store

def CallTask.letIn (t : CallTask) : CallTask :=
  match t.phase with
  | .working slice _ => { t with phase := .working slice (.admitted 0) }
  | _ => t

namespace Run

def loaded (a : Action) (r : Run) : Json :=
  match a.memory with
  | none => .null
  | some m =>
    match (r.store.read m.key).1 with
    | .ok (some v) => v
    | _ => m.initial

theorem loaded_of_memory {a : Action} {m : ActionMemory} (h : a.memory = some m) (r : Run) :
    r.loaded a =
      match (r.store.read m.key).1 with
      | .ok (some v) => v
      | _ => m.initial := by
  simp only [loaded, h]

/-- The store once the memory of the action has been looked for. -/
def readStore (a : Action) (r : Run) : Store :=
  match a.memory with
  | none => r.store
  | some m => (r.store.read m.key).2

structure Idle (r r' : Run) : Prop where
  values : ∀ key, r'.store.value? key = r.store.value? key
  readFault : r'.store.readFault = r.store.readFault
  writeFault : r'.store.writeFault = r.store.writeFault
  executions : r'.executions = r.executions
  cancelled : r'.cancelled = false → r.cancelled = false

structure Still (r r' : Run) : Prop extends Idle r r' where
  tasks : r'.tasks = r.tasks
  permits : r'.permits = r.permits

/-- What a step of a task does that is in phase `p` afterwards. -/
inductive Handling (r : Run) (t : CallTask) (p : Phase) (r' : Run) : Prop where
  | outside (ht : t.phase.holdsSlice = false) (hp : p.holdsSlice = false) (hi : Idle r r')
  | loads (ht : t.phase = .loading) (hp : p = .working (r.loaded t.action.action) .asking)
    (hi : Idle r r')
  | inside (ht : t.phase.holdsSlice = true) (hp : p.holdsSlice = true)
    (hkeep : ∀ P Q : Json → Prop, (∀ v, Q v → P v) →
      (∀ err v, Q v → (t.action.action.onError err t.view).Leaves Q v) →
        t.phase.Carries P Q → p.Carries P Q)
    (hi : Idle r r')
  | begins {v : Json} {n : Nat} (ht : t.phase = .working v (.admitted n))
    (hp : p = .working v (.attempting n (t.action.action.execute
      (r.executionsOf t.action.action.name) n (t.call.data.getD .null) t.view)))
    (hs : r'.store = r.store)
    (he : r'.executions = (r.countExecution t.action.action.name).executions)
    (hc : r'.cancelled = r.cancelled)
  | writes {v : Json} {outcome : Except RunError Json} (ht : t.phase = .concluding v outcome)
    (hp : p.holdsSlice = false) (hs : r'.store = (r.keepSlice t.action.action v).store)
    (he : r'.executions = r.executions) (hc : r'.cancelled = r.cancelled)
  /-- What runs on the slice breaks down, and the slice is lost. -/
  | breaks (ht : t.phase.holdsSlice = true) (hp : p.holdsSlice = false)
    (hlost : ∀ P Q, ¬ t.phase.Carries P Q) (hi : Idle r r')

/-- A step that leaves task `i` in phase `p`, as the other tasks see it. -/
inductive Neighbours (i : Nat) (p : Phase) (r r' : Run) : Prop where
  | still (hq : r'.permits.queue = r.permits.queue)
    (ht : ∀ k, k ≠ i → r'.tasks[k]? = r.tasks[k]?)
  /-- The task waits for a permit from now on. -/
  | joins {v : Json} (hp : p = .working v .queued)
    (hq : r'.permits.queue = r.permits.queue ++ [i])
    (ht : ∀ k, k ≠ i → r'.tasks[k]? = r.tasks[k]?)
  /-- The task that has waited longest gets the permit. -/
  | admits {j : Nat} (hq : r.permits.queue = j :: r'.permits.queue)
    (ht : ∀ k, k ≠ i → r'.tasks[k]? =
      if j = k then r.tasks[k]?.map CallTask.letIn else r.tasks[k]?)

def Handles (i : Nat) (t : CallTask) (r r' : Run) : Prop :=
  ∃ p, (∀ t', r'.tasks[i]? = some t' → t'.phase = p) ∧ Handling r t p r' ∧ Neighbours i p r r'

variable {i : Nat} {t t' : CallTask} {p : Phase} {r r' q : Run}

theorem Handling.cancelled (h : Handling r t p r') (hc : r'.cancelled = false) :
    r.cancelled = false := by
  cases h with
  | outside _ _ hi => exact hi.cancelled hc
  | loads _ _ hi => exact hi.cancelled hc
  | inside _ _ _ hi => exact hi.cancelled hc
  | begins _ _ _ _ hc' => exact hc' ▸ hc
  | writes _ _ _ _ hc' => exact hc' ▸ hc
  | breaks _ _ _ hi => exact hi.cancelled hc

theorem Still.of_eq (hs : r'.store = r.store) (he : r'.executions = r.executions)
    (hc : r'.cancelled = r.cancelled) (ht : r'.tasks = r.tasks) (hp : r'.permits = r.permits) :
    Still r r' where
  values := fun _ => hs ▸ rfl
  readFault := hs ▸ rfl
  writeFault := hs ▸ rfl
  executions := he
  cancelled := fun h => hc ▸ h
  tasks := ht
  permits := hp

theorem Still.refl (r : Run) : Still r r := .of_eq rfl rfl rfl rfl rfl

theorem Idle.congr {r'' : Run} (h : Idle r r') (hs : r''.store = r'.store)
    (he : r''.executions = r'.executions) (hc : r''.cancelled = r'.cancelled) : Idle r r'' where
  values := fun key => hs ▸ h.values key
  readFault := hs ▸ h.readFault
  writeFault := hs ▸ h.writeFault
  executions := he.trans h.executions
  cancelled := fun h' => h.cancelled (hc ▸ h')

theorem giveBack_idle (r : Run) : Idle r r.giveBack := by
  rw [giveBack_frame]
  exact (Still.refl r).toIdle.congr rfl rfl rfl

theorem absorb_still (s : Scene) (r : Run) :
    Still r (r.absorb s) ∧ (r.absorb s).cancelled = (r.cancelled || s.cancelled) := by
  rw [absorb_frame]
  have hidle : Idle r { r with cancelled := r.cancelled || s.cancelled } :=
    ⟨fun _ => rfl, rfl, rfl, rfl, fun hc => (Bool.or_eq_false_iff.mp hc).1⟩
  exact ⟨⟨hidle.congr rfl rfl rfl, rfl, rfl⟩, rfl⟩

theorem setPhase_neighbours (ht : q.tasks = r.tasks) (hp : q.permits = r.permits) :
    Neighbours i p r (q.setPhase i p) := by
  refine .still (congrArg _ hp) fun k hk => ?_
  rw [getElem?_setPhase_of_ne hk, ht]

/-- A permit that nobody waits for is free again. -/
theorem giveBack_nil (h : r.permits.queue = []) :
    r.giveBack = { r with permits := { r.permits with free := r.permits.free + 1 } } := by
  simp only [giveBack, Runner.Permits.giveBack, h]

/-- A permit goes to the task that has waited longest. -/
theorem giveBack_cons {j : Nat} {rest : List Nat} (h : r.permits.queue = j :: rest) :
    r.giveBack = { r with
      permits := { r.permits with queue := rest }
      tasks := r.tasks.modify j CallTask.letIn } := by
  simp only [giveBack, Runner.Permits.giveBack, h]
  rfl

theorem giveBack_neighbours (r : Run) : Neighbours i p r (r.giveBack.setPhase i p) := by
  have hothers (k : Nat) (hk : k ≠ i) :
      (r.giveBack.setPhase i p).tasks[k]? = r.giveBack.tasks[k]? := getElem?_setPhase_of_ne hk _ p
  have hsame : (r.giveBack.setPhase i p).permits = r.giveBack.permits := rfl
  cases hqueue : r.permits.queue with
  | nil =>
    have hgive := giveBack_nil hqueue
    refine .still ?_ fun k hk => ?_
    · rw [hsame, hgive]
    · rw [hothers k hk, hgive]
  | cons j rest =>
    have hgive := giveBack_cons hqueue
    refine .admits (j := j) ?_ fun k hk => ?_
    · rw [hsame, hgive, hqueue]
    · rw [hothers k hk, hgive, List.getElem?_modify]
      split
      · rfl
      · simp

theorem Neighbours.congr {r'' : Run} (h : Neighbours i p r r') (ht : r''.tasks = r'.tasks)
    (hp : r''.permits = r'.permits) : Neighbours i p r r'' := by
  cases h with
  | still hq hothers => exact .still (hp ▸ hq) (ht ▸ hothers)
  | joins hphase hq hothers => exact .joins hphase (hp ▸ hq) (ht ▸ hothers)
  | admits hq hothers => exact .admits (hp ▸ hq) (ht ▸ hothers)

theorem readStore_idle (a : Action) (r : Run) : Idle r { r with store := r.readStore a } := by
  cases hm : a.memory with
  | none =>
    have hread : r.readStore a = r.store := by simp only [readStore, hm]
    exact (Still.refl r).toIdle.congr hread rfl rfl
  | some m =>
    have hread : r.readStore a = (r.store.read m.key).2 := by simp only [readStore, hm]
    rw [hread]
    exact ⟨Store.value?_read r.store m.key, Store.readFault_read r.store m.key,
      Store.writeFault_read r.store m.key, rfl, id⟩

/-- The step in which the memory of the action is loaded. -/
theorem stepTask?_loading (ht : r.tasks[i]? = some t) (hp : t.phase = .loading) :
    r.stepTask? i = some ({ r with store := r.readStore t.action.action }.setPhase i
      (.working (r.loaded t.action.action) .asking)) := by
  simp only [stepTask?, ht, Option.bind_some, hp, stepLoading, readStore, loaded]
  cases t.action.action.memory <;> rfl

theorem store_keepSlice_draw (a : Action) (v : Json) (r : Run) :
    ((r.draw 1).keepSlice a v).store = (r.keepSlice a v).store := by
  unfold keepSlice
  split <;> rfl

namespace Conduct

/-- What a step does with the slice of its task. What the loading finds is told apart. -/
theorem handling (h : Conduct i r t t' sent r') (hload : t.phase ≠ .loading)
    (hcancel : r'.cancelled = false) : Handling r t t'.phase r' := by
  have hidle : Idle r r := (Still.refl r).toIdle
  have hgive := r.giveBack_idle
  have hkeep (slice : Json) :
      ((r.draw 1).keepSlice t.action.action slice).executions = r.executions ∧
        ((r.draw 1).keepSlice t.action.action slice).cancelled = r.cancelled := by
    rw [keepSlice_frame]
    exact ⟨rfl, rfl⟩
  -- Where the run is not cancelled afterwards, it was not before, nor did the script cancel it.
  have hquiet {s : Scene} (hs : (r.absorb s).cancelled = false) :
      r.cancelled = false ∧ s.cancelled = false :=
    Bool.or_eq_false_iff.mp ((r.absorb_still s).2.symm.trans hs)
  cases h with
  | rejects hp h => exact .outside (hp ▸ rfl) rfl (hidle.congr rfl rfl rfl)
  | fills hp hkey hask hfill => exact .outside (hp ▸ rfl) rfl (hidle.congr rfl rfl rfl)
  | prepares hp hdata => exact .outside (hp ▸ rfl) rfl (hidle.congr rfl rfl rfl)
  | loads hp => exact absurd hp hload
  | enters hp hfree =>
    exact .inside (hp ▸ rfl) rfl (fun P Q _ _ hcarries => by rwa [hp] at hcarries)
      (hidle.congr rfl rfl rfl)
  | queues hp hfree =>
    exact .inside (hp ▸ rfl) rfl (fun P Q _ _ hcarries => by rwa [hp] at hcarries)
      (hidle.congr rfl rfl rfl)
  | begins hp hc => exact .begins hp rfl rfl rfl rfl
  | works hp hturn hsends hcome =>
    obtain ⟨hbefore, hscene⟩ := hquiet hcancel
    refine .inside (hp ▸ rfl) rfl (fun P Q hQP _ hcarries => ?_)
      ((r.absorb_still _).1.toIdle.congr rfl rfl rfl)
    rw [hp] at hcarries
    exact hturn.carries_of_moves hQP hbefore hscene hcarries
  | succeeds hp hturn =>
    refine .inside (hp ▸ rfl) rfl (fun P Q _ _ hcarries => ?_) (hgive.congr rfl rfl rfl)
    rw [hp] at hcarries
    exact hturn.slice_of_ends (hgive.cancelled hcancel) hcarries
  | fails hp hturn =>
    refine .inside (hp ▸ rfl) rfl (fun P Q _ herror hcarries => ?_) (hgive.congr rfl rfl rfl)
    rw [hp] at hcarries
    exact herror _ _ (hturn.slice_of_ends (hgive.cancelled hcancel) hcarries)
  | crashes hp hturn hresult =>
    refine .breaks (hp ▸ rfl) rfl (fun P Q hcarries => ?_) (hgive.congr rfl rfl rfl)
    rw [hp] at hcarries
    exact hturn.not_carries_of_crashes hcarries
  | @recovers slice script script' scene sent hp hs hsends hcome =>
    obtain ⟨hbefore, hscene⟩ := hquiet hcancel
    refine .inside (hp ▸ rfl) rfl (fun P Q _ _ hcarries => ?_)
      ((r.absorb_still scene).1.toIdle.congr rfl rfl rfl)
    have hleaves : script.Leaves Q (r.scene slice).slice := by rwa [hp] at hcarries
    exact hleaves.of_moved hs hbefore hscene
  | @recovered slice script outcome hp hs =>
    refine .inside (hp ▸ rfl) rfl (fun P Q _ _ hcarries => ?_) (hidle.congr rfl rfl rfl)
    have hleaves : script.Leaves Q (r.scene slice).slice := by rwa [hp] at hcarries
    exact hleaves.of_finished hs
  | @recoveryBreaks slice script result hp hs hresult =>
    refine .breaks (hp ▸ rfl) rfl (fun P Q hcarries => ?_) (hidle.congr rfl rfl rfl)
    have hleaves : script.Leaves Q (r.scene slice).slice := by rwa [hp] at hcarries
    exact hleaves.not_crashed hs
  | concludes hp _ _ _ =>
    exact .writes hp rfl (store_keepSlice_draw _ _ r) (hkeep _).1 (hkeep _).2
  | concludesError hp _ _ _ =>
    exact .writes hp rfl (store_keepSlice_draw _ _ r) (hkeep _).1 (hkeep _).2
  | follows hp hs hsends hcome =>
    exact .outside (hp ▸ rfl) rfl ((r.absorb_still _).1.toIdle.congr rfl rfl rfl)
  | finishes hp hs => exact .outside (hp ▸ rfl) rfl (hidle.congr rfl rfl rfl)
  | followBreaks hp hs hresult => exact .outside (hp ▸ rfl) rfl (hidle.congr rfl rfl rfl)

/-- What the other tasks see of a step. -/
theorem neighbours (h : Conduct i r t t' sent r') : Neighbours i t'.phase r r' := by
  have habsorb (s : Scene) (p : Phase) : Neighbours i p r ((r.absorb s).setPhase i p) :=
    setPhase_neighbours (r.absorb_still s).1.tasks (r.absorb_still s).1.permits
  cases h with
  | prepares hp hdata => exact .still rfl fun k hk => List.getElem?_set_ne hk.symm
  | enters hp hfree => exact .still rfl fun k hk => getElem?_setPhase_of_ne hk _ _
  | queues hp hfree => exact .joins rfl rfl fun k hk => getElem?_setPhase_of_ne hk _ _
  | works hp hturn hsends hcome => exact habsorb _ _
  | succeeds hp hturn => exact giveBack_neighbours r
  | fails hp hturn => exact giveBack_neighbours r
  | crashes hp hturn hresult => exact (giveBack_neighbours r).congr rfl rfl
  | recovers hp hs hsends hcome => exact habsorb _ _
  | concludes hp _ _ _ =>
    rw [keepSlice_frame]
    exact setPhase_neighbours rfl rfl
  | concludesError hp _ _ _ =>
    rw [keepSlice_frame]
    exact (setPhase_neighbours (q := r) rfl rfl).congr rfl rfl
  | follows hp hs hsends hcome => exact habsorb _ _
  | _ => exact (setPhase_neighbours (q := r) rfl rfl).congr rfl rfl

end Conduct

theorem stepTask?_handles (h : r.stepTask? i = some r') (hcancel : r'.cancelled = false) :
    ∃ t, r.tasks[i]? = some t ∧ Handles i t r r' := by
  obtain ⟨t, t', sent, ht, hconduct⟩ := stepTask?_conduct h
  have hafter := (hconduct.steps ht).after
  have hphase (u : CallTask) (hu : r'.tasks[i]? = some u) : u.phase = t'.phase :=
    congrArg CallTask.phase (Option.some.inj (hu.symm.trans hafter))
  refine ⟨t, ht, t'.phase, hphase, ?_, hconduct.neighbours⟩
  by_cases hload : t.phase = .loading
  · obtain rfl := Option.some.inj ((stepTask?_loading ht hload).symm.trans h)
    refine .loads hload ?_ ((r.readStore_idle t.action.action).congr rfl rfl rfl)
    exact (hphase _ (getElem?_setPhase_self (r := { r with store := _ }) ht _)).symm
  · exact hconduct.handling hload hcancel

end Run

end TagLedger
