import Mathlib.Tactic.Common
import TagLedger.Proofs.Run.Keeping
import TagLedger.Proofs.Run.Nearing

/-!
One call through the engine. Its stages are those of the course of its action; its memory is read
once, before the first attempt, and kept once, after the last attempt and the hook after an error.
What the store gives and takes is told by the runs in which the call takes these two steps; if
nobody else uses the key, by the store as it was in the beginning.
-/

namespace TagLedger

/-- What an operation of a store finds for a memory. -/
def ActionMemory.found (m : ActionMemory) (s : Store) (operation : Nat) : Json :=
  match s.readFault operation m.key with
  | some _ => m.initial
  | none => (s.value? m.key).getD m.initial

/-- What is stored for a memory after an operation that keeps a slice: a failure leaves what was
there. -/
def ActionMemory.stored (m : ActionMemory) (s : Store) (operation : Nat) (slice : Json) :
    Option Json :=
  match s.writeFault operation m.key with
  | some _ => s.value? m.key
  | none => some slice

theorem ActionMemory.value?_write (m : ActionMemory) (s : Store) (slice : Json) :
    (s.write m.key slice).2.value? m.key = m.stored s s.operations slice := by
  unfold ActionMemory.stored
  cases hf : s.writeFault s.operations m.key with
  | none => exact Store.value?_write hf slice
  | some err =>
    unfold Store.write
    rw [hf]
    rfl

namespace Action

variable {a : Action} {rule : Runner.RetryRule} {view : CallView} {log : List Stage} {C : Prop}

theorem Attempts.kept {n : Nat} {scene scene' : Scene} {outcome : Except RunError Json}
    (h : a.Attempts rule view n scene log outcome scene') : Stage.kept log = [] := by
  induction h with
  | passes _ _ ih => exact ih
  | aborts _ => rfl
  | ends _ _ _ => rfl
  | repeats _ _ _ _ _ ih => exact ih

theorem Recovers.kept {scene scene' : Scene} {outcome settled : Except RunError Json}
    (h : a.Recovers view outcome scene log settled scene') : Stage.kept log = [] := by
  cases h <;> rfl

theorem Concludes.kept {scene : Scene} {outcome : Except RunError Json}
    (h : a.Concludes view C outcome scene log) :
    Stage.kept log = Stage.kept (a.keeps scene.slice) := by
  cases h with
  | succeeds _ _ _ _ => simp [Stage.kept, Stage.kept?]
  | fails _ _ _ => simp [Stage.kept, Stage.kept?]

theorem Course.kept {stored : Json} (h : a.Course rule view C stored log) :
    ∃ slice, Stage.kept log = Stage.kept (a.keeps slice) := by
  cases h with
  | @intro _ _ scene _ _ _ _ _ _ ha hr hc =>
    refine ⟨scene.slice, ?_⟩
    rw [Stage.kept_append, Stage.kept_append, hr.kept, hc.kept, List.nil_append]
    have hattempts := ha.kept
    simpa [Stage.kept, Stage.kept?] using hattempts

end Action

namespace Run

variable {j k : Nat} {t : CallTask} {r r' q : Run} {log : List Stage} {ms : List Move}
  {m : ActionMemory} {slice : Json}

/-- The schedule has come to a step of task `k` in that run. -/
def StepsIn (k : Nat) (ms : List Move) (r q : Run) : Prop :=
  ∃ before after, ms = before ++ .task k :: after ∧ q = r.applyAll before

/-- A slice that the call has loaded in the schedule, before any other of its stages. -/
def LoadsIn (k : Nat) (ms : List Move) (r : Run) (a : Action) (slice : Json) : Prop :=
  ∃ before after t, ms = before ++ .task k :: after ∧ stagesIn k before r = [] ∧
    (r.applyAll before).tasks[k]? = some t ∧ t.phase = .loading ∧
      slice = (r.applyAll before).loaded a

theorem LoadsIn.concat {a : Action} (move : Move) (h : LoadsIn k ms r a slice) :
    LoadsIn k (ms ++ [move]) r a slice := by
  obtain ⟨before, after, t, rfl, hrest⟩ := h
  exact ⟨before, after ++ [move], t, by simp, hrest⟩

/-- The stages of call `k` that were seen are those of its course. The slices that it may have
loaded satisfy `L`. -/
structure Charts (L : Action → Json → Prop) (k : Nat) (log : List Stage) (r : Run) : Prop where
  course : ∀ t, r.tasks[k]? = some t → t.action.action.NeverBreaks →
    OnCourse (L t.action.action) r log t
  nothing : r.tasks[k]? = none → log = []

namespace Charts

variable {L L' : Action → Json → Prop}

theorem mono (hL : ∀ a v, L a v → L' a v) (h : Charts L k log r) : Charts L' k log r where
  course := fun t ht ha => (h.course t ht ha).mono (hL _)
  nothing := h.nothing

/-- The task is served at most. -/
theorem served (h : Charts L k log r) (hsetup : r'.setup = r.setup)
    (hc : r.cancelled = true → r'.cancelled = true)
    (hserved : Option.Rel CallTask.Served r.tasks[k]? r'.tasks[k]?) : Charts L k log r' where
  course := fun u hu ha => by
    rw [hu] at hserved
    cases ht : r.tasks[k]? with
    | none =>
      rw [ht] at hserved
      cases hserved
    | some t =>
      rw [ht] at hserved
      cases hserved with
      | some hserved =>
        have haction := hserved.action_eq
        rw [haction] at ha ⊢
        exact (h.course t ht ha).served hsetup hc hserved
  nothing := fun hnone => by
    rw [hnone] at hserved
    cases ht : r.tasks[k]? with
    | none => exact h.nothing ht
    | some t =>
      rw [ht] at hserved
      cases hserved

/-- Moves that are no steps of tasks. -/
theorem aside (h : Charts L k log r) (hsetup : r'.setup = r.setup) (ha : Aside r r') :
    Charts L k log r' := by
  obtain ⟨new, htasks, hnew⟩ := ha.tasks
  have hc : r.cancelled = true → r'.cancelled = true := fun hc => by
    by_contra hnot
    rw [ha.cancelled (Bool.eq_false_iff.mpr hnot)] at hc
    cases hc
  by_cases hk : k < r.tasks.length
  · refine h.served hsetup hc ?_
    rw [htasks, List.getElem?_append_left hk, List.getElem?_eq_getElem hk]
    exact .some (.same _)
  · have hlog := h.nothing (List.getElem?_eq_none (Nat.le_of_not_lt hk))
    refine ⟨fun u hu _ => .prepares ?_ hlog, fun _ => hlog⟩
    rw [htasks, List.getElem?_append_right (Nat.le_of_not_lt hk)] at hu
    have hresolving := hnew u (List.mem_of_getElem? hu)
    cases hphase : u.phase with
    | resolving _ _ => rfl
    | _ =>
      rw [hphase] at hresolving
      cases hresolving

/-- A step of the call itself. -/
theorem steps (h : Charts L k log r) (hs : r.stepTask? k = some r')
    (hL : ∀ t, r.tasks[k]? = some t → t.phase = .loading → log = [] →
      L t.action.action (r.loaded t.action.action)) :
    Charts L k (log ++ r.staged k) r' := by
  obtain ⟨t, t', sent, ht, hconduct⟩ := stepTask?_conduct hs
  have hafter := (hconduct.steps ht).after
  have haction := hconduct.task_follows.action
  refine ⟨fun u hu ha => ?_, fun hnone => ?_⟩
  · obtain rfl : t' = u := Option.some.inj (hafter.symm.trans hu)
    rw [haction] at ha ⊢
    have hcourse := h.course t ht ha
    have hloading (hp : t.phase = .loading) :
        L t.action.action (r.loaded t.action.action) := by
      refine hL t ht hp ?_
      cases hcourse with
      | prepares _ hlog => exact hlog
      | rejected hended _ => cases hp.symm.trans hended
      | goesOn _ hpast _ _ =>
        rw [hp] at hpast
        cases hpast
    obtain ⟨v, hv, _, hcourse'⟩ := hcourse.steps ht hs ha hloading
    obtain rfl : t' = v := Option.some.inj (hafter.symm.trans hv)
    exact hcourse'
  · rw [hafter] at hnone
    cases hnone

end Charts

/-- Over every schedule the stages of a call are those of its course. -/
theorem charts_applyAll {r : Run} (hnone : r.tasks = []) (hl : ∀ ms, Lined (r.applyAll ms))
    (k : Nat) (ms : List Move) :
    Charts (LoadsIn k ms r) k (stagesIn k ms r) (r.applyAll ms) := by
  induction ms using List.reverseRecOn with
  | nil =>
    refine ⟨fun t ht _ => ?_, fun _ => rfl⟩
    have ht : r.tasks[k]? = some t := ht
    simp [hnone] at ht
  | append_singleton ms move ih =>
    have ih : Charts (LoadsIn k (ms ++ [move]) r) k (stagesIn k ms r) (r.applyAll ms) :=
      ih.mono fun _ _ => LoadsIn.concat move
    have hsetup := (r.applyAll_append_grows ms [move]).setup
    cases movedOn_concat k ms move r with
    | own hmove hs hlog =>
      rw [hlog]
      exact ih.steps hs fun t ht hp hnothing => ⟨ms, [], t, by rw [hmove], hnothing, ht, hp, rfl⟩
    | other hj hs hlog =>
      rw [hlog]
      obtain ⟨t, t', sent, ht, hconduct⟩ := stepTask?_conduct hs
      have hserved := hconduct.neighbours.served (hl ms) hj.symm
      exact ih.served hsetup hconduct.cancelled hserved
    | aside ha hlog =>
      rw [hlog]
      exact ih.aside hsetup ha

/-- The task belongs to the same action throughout. -/
theorem action_of_later {before after : List Move} {t u : CallTask}
    (ht : (r.applyAll (before ++ after)).tasks[k]? = some t)
    (hu : (r.applyAll before).tasks[k]? = some u) : u.action = t.action := by
  obtain ⟨v, hv, hf⟩ := (r.applyAll_append_grows before after).tasks k u hu
  obtain rfl : t = v := Option.some.inj (ht.symm.trans hv)
  exact hf.action.symm

/-- The step in which a call loads its memory, and what it finds. -/
theorem LoadsIn.exists_step (h : LoadsIn k ms r t.action.action slice)
    (ht : (r.applyAll ms).tasks[k]? = some t) (hm : t.action.action.memory = some m) :
    ∃ q, StepsIn k ms r q ∧ (q.stepTask k).store = (q.store.read m.key).2 ∧
      slice = m.found q.store q.store.operations ∧
        (Alone m.key k (r.applyAll ms) → slice = m.found r.store q.store.operations) := by
  obtain ⟨before, after, u, rfl, hnothing, hu, hp, hslice⟩ := h
  have hown {u : CallTask} (hu : (r.applyAll before).tasks[k]? = some u) :
      u.action.action.memory = some m := action_of_later ht hu ▸ hm
  have humemory := hown hu
  have hfound : slice =
      m.found (r.applyAll before).store (r.applyAll before).store.operations := by
    rw [hslice, loaded_of_memory hm, ActionMemory.found, Store.read]
    cases (r.applyAll before).store.readFault (r.applyAll before).store.operations m.key with
    | some err => rfl
    | none => cases (r.applyAll before).store.value? m.key <;> rfl
  refine ⟨_, ⟨before, after, rfl, rfl⟩, ?_, hfound, fun halone => ?_⟩
  · simp [stepTask, stepTask?_loading hu hp, readStore, humemory, setPhase]
  · have halone := halone.before (r.applyAll_append_grows before _)
    have hspared : Store.Spared m.key r.store (r.applyAll before).store :=
      spared_applyAll before r halone (fun _ => hown) (by rw [hnothing]; rfl)
    rw [hfound, ActionMemory.found, ActionMemory.found, hspared.readFault, hspared.value]

/-- The step in which a call keeps its slice, and what is stored from then on. -/
theorem exists_keeping_step (hkept : Stage.kept (stagesIn k ms r) = [slice])
    (ht : (r.applyAll ms).tasks[k]? = some t) (hm : t.action.action.memory = some m) :
    ∃ q, StepsIn k ms r q ∧ (q.stepTask k).store = (q.store.write m.key slice).2 ∧
      (Alone m.key k (r.applyAll ms) →
        (r.applyAll ms).store.value? m.key = m.stored r.store q.store.operations slice) := by
  obtain ⟨before, after, rfl, hnone, hone, hrest⟩ := exists_step_of_kept ms r hkept
  refine ⟨_, ⟨before, after, rfl, rfl⟩, ?_⟩
  have hown {u : CallTask} (hu : (r.applyAll before).tasks[k]? = some u) :
      u.action.action.memory = some m := action_of_later ht hu ▸ hm
  cases hs : (r.applyAll before).stepTask? k with
  | none =>
    rw [staged_of_none hs] at hone
    cases hone
  | some q' =>
    have hstep : (r.applyAll before).stepTask k = q' := by rw [stepTask, hs, Option.getD_some]
    have hlater : r.applyAll (before ++ [.task k]) = q' := by
      rw [applyAll_concat]
      exact hstep
    obtain ⟨u, _, _, hu, _⟩ := stepTask?_conduct hs
    have hwritten := store_of_kept hu (hown hu) hs hone
    refine ⟨by rw [hstep, hwritten], fun halone => ?_⟩
    have hfinal : r.applyAll (before ++ .task k :: after) = q'.applyAll after := by
      rw [List.append_cons, applyAll_append, hlater]
    have hbefore : Store.Spared m.key r.store (r.applyAll before).store :=
      spared_applyAll before r (halone.before (r.applyAll_append_grows before _)) (fun _ => hown)
        hnone
    have hafter : Store.Spared m.key q'.store (q'.applyAll after).store := by
      refine spared_applyAll after q' (hfinal ▸ halone) (fun u hu => ?_) (hlater ▸ hrest)
      rw [← hfinal] at hu
      exact Option.some.inj (ht.symm.trans hu) ▸ hm
    calc (r.applyAll (before ++ .task k :: after)).store.value? m.key
        = q'.store.value? m.key := by rw [hfinal, hafter.value]
      _ = m.stored (r.applyAll before).store (r.applyAll before).store.operations slice := by
          rw [hwritten, m.value?_write]
      _ = m.stored r.store (r.applyAll before).store.operations slice := by
          rw [ActionMemory.stored, ActionMemory.stored, hbefore.writeFault, hbefore.value]

/-- What a call does with the memory of its action in a schedule. An action without a memory begins
with nothing, and leaves the store alone. Otherwise the memory is read in one step and kept in
another; if nobody else uses its key, the call begins with what the store held in the beginning, and
what it keeps is there in the end. -/
def UsesMemory (a : Action) (k : Nat) (ms : List Move) (r : Run) (stored : Json) : Prop :=
  match a.memory with
  | none => stored = .null ∧ ∀ q, StepsIn k ms r q → (q.stepTask k).store = q.store
  | some m => ∃ slice loading keeping, Stage.kept (stagesIn k ms r) = [slice] ∧
      StepsIn k ms r loading ∧ (loading.stepTask k).store = (loading.store.read m.key).2 ∧
      stored = m.found loading.store loading.store.operations ∧
      StepsIn k ms r keeping ∧ (keeping.stepTask k).store = (keeping.store.write m.key slice).2 ∧
      (Alone m.key k (r.applyAll ms) → stored = m.found r.store loading.store.operations ∧
        (r.applyAll ms).store.value? m.key = m.stored r.store keeping.store.operations slice)

theorem usesMemory_of_course {rule : Runner.RetryRule} {C : Prop} {stored : Json}
    (ht : (r.applyAll ms).tasks[k]? = some t) (hloads : LoadsIn k ms r t.action.action stored)
    (hcourse : t.action.action.Course rule t.view C stored (stagesIn k ms r)) :
    UsesMemory t.action.action k ms r stored := by
  obtain ⟨slice, hkept⟩ := hcourse.kept
  unfold UsesMemory
  cases hm : t.action.action.memory with
  | none =>
    obtain ⟨before, after, u, -, -, -, -, hslice⟩ := hloads
    refine ⟨by rw [hslice, loaded, hm], ?_⟩
    rintro q ⟨before, after, rfl, rfl⟩
    rw [stepTask]
    cases hs : (r.applyAll before).stepTask? k with
    | none => rfl
    | some q' =>
      obtain ⟨u, _, _, hu, _⟩ := stepTask?_conduct hs
      exact store_of_no_memory hu (action_of_later ht hu ▸ hm) hs
  | some m =>
    rw [Action.keeps, hm] at hkept
    obtain ⟨loading, hloading, hread, hfound, hbegins⟩ := hloads.exists_step ht hm
    obtain ⟨keeping, hkeeping, hwritten, hleaves⟩ := exists_keeping_step hkept ht hm
    exact ⟨slice, loading, keeping, hkept, hloading, hread, hfound, hkeeping, hwritten,
      fun halone => ⟨hbegins halone, hleaves halone⟩⟩

/-- A call that has come to its action takes the course of its action, whatever else happens in the
run and whatever the store does, and uses the memory of its action as it should. If the actions come
to their ends, so does the call. -/
theorem course_of_call (setup : Setup) (store : Store) (archive : Archive)
    (subscribers : Subscribers) (ms : List Move) {k : Nat} {t : CallTask}
    (ht : ((new setup store archive subscribers).applyAll ms).tasks[k]? = some t)
    (hsafe : t.action.action.NeverBreaks)
    (hbegun : stagesIn k ms (new setup store archive subscribers) ≠ []) :
    let r := new setup store archive subscribers
    let a := t.action.action
    (t.phase = .ended → ∃ stored,
      a.Course (r.retryRule a) t.view ((r.applyAll ms).cancelled = true) stored (stagesIn k ms r) ∧
      UsesMemory a k ms r stored) ∧
    ((∀ a ∈ setup.catalog.actions, a.Returns) → ∃ more t', IsWork more ∧
      (r.applyAll (ms ++ more)).tasks[k]? = some t' ∧ t'.phase = .ended) := by
  intro r a
  have hl (ms : List Move) : Lined (r.applyAll ms) :=
    ((Limited.new setup store archive subscribers).applyAll ms).toLined
  have hrule : (r.applyAll ms).retryRule a = r.retryRule a := by
    rw [retryRule, retryRule, (r.applyAll_grows ms).setup]
  have hcharts : Charts (LoadsIn k ms r) k (stagesIn k ms r) (r.applyAll ms) :=
    charts_applyAll rfl hl k ms
  cases hcharts.course t ht hsafe with
  | prepares _ hlog => exact absurd hlog hbegun
  | rejected _ hlog => exact absurd hlog hbegun
  | @goesOn stored hloads hpast _ hcourse =>
    refine ⟨fun hended => ⟨stored, ?_⟩, fun hreturns => exists_ended hreturns ht hpast⟩
    have hwhole : a.Course (r.retryRule a) t.view ((r.applyAll ms).cancelled = true) stored
        (stagesIn k ms r) := by
      rw [← List.append_nil (stagesIn k ms r), ← hrule]
      refine hcourse _ [] ?_
      rw [hended]
      exact .ended id
    exact ⟨hwhole, usesMemory_of_course ht hloads hwhole⟩

end Run

namespace Sample

/-- An action that appends the data of the call to its memory in every attempt and fails. The hook
after an error makes up for that; the hook after the success fails, when the slice is kept already.
-/
def learningAction : Action where
  name := "learn"
  schema := none
  retry := some 1
  memory := some ⟨"lessons", .arr []⟩
  contextType := none
  enabled := fun _ _ => true
  execute := fun _ _ data _ =>
    .updateMemory (·.appended data) (.done (.error (.failure .action "again")))
  onError := fun _ _ => .updateMemory (·.appended (.str "made up")) (.done (.ok (.bool true)))
  format := fun _ => none
  onSuccess := fun _ _ =>
    .updateMemory (·.appended (.str "late")) (.done (.error (.failure .action "late")))

def learningSetup : Setup := { noteSetup with catalog := ⟨[learningAction], [], []⟩ }

def learningStore : Store := Store.ofCells [("lessons", .arr [.str "old"])]

def learningRun : Run := Run.new learningSetup learningStore Archive.empty Subscribers.empty

/-- One call, with the time that it waits for before its second attempt. -/
def learningMoves : List Move :=
  [.start, .push (callNamed "learn" 1)] ++ List.replicate 9 (.task 0) ++ [.wait 10000] ++
    List.replicate 12 (.task 0)

def learningResult : Entry.Result where
  toHeader := Header.final (Uuid.numbered 2) ⟨10, 0⟩
  callId := ⟨BitVec.ofNat 128 1⟩
  name := "learn"
  data := .bool true
  formatted := none

end Sample

open Sample in
/-- Two attempts fail, the hook makes up for them, and the failure of the last hook comes too late
to change the result or the store. -/
theorem Run.course_of_call_learning :
    ∃ t, (learningRun.applyAll learningMoves).tasks[0]? = some t ∧
      t.action.action = learningAction ∧ t.phase = .ended ∧
      stagesIn 0 learningMoves learningRun =
        [.loads (.arr [.str "old"]), .attempts 0 (.arr [.str "old"]),
          .attempts 1 (.arr [.str "old", .obj []]),
          .recovers (.arr [.str "old", .obj [], .obj []]),
          .keeps (.arr [.str "old", .obj [], .obj [], .str "made up"]),
          .follows learningResult, .ends learningResult] ∧
      Alone "lessons" 0 (learningRun.applyAll learningMoves) ∧
      (learningRun.applyAll learningMoves).store.value? "lessons" =
        some (.arr [.str "old", .obj [], .obj [], .str "made up"]) ∧
      (∃ stored, learningAction.Course (learningRun.retryRule learningAction) t.view
          ((learningRun.applyAll learningMoves).cancelled = true) stored
          (stagesIn 0 learningMoves learningRun) ∧
        UsesMemory learningAction 0 learningMoves learningRun stored) := by
  set r := learningRun.applyAll learningMoves
  have hone : r.tasks.length = 1 := by decide +kernel
  obtain ⟨t, ht⟩ : ∃ t, r.tasks[0]? = some t := ⟨_, List.getElem?_eq_getElem (by omega)⟩
  have haction : t.action.action = learningAction :=
    List.mem_singleton.mp ((bound_applyAll_new learningSetup learningStore Archive.empty
      Subscribers.empty learningMoves).1.tasks t (List.mem_of_getElem? ht))
  have hsafe : t.action.action.NeverBreaks := by
    rw [haction]
    exact ⟨fun _ _ _ _ _ => trivial, fun _ _ _ => trivial, fun _ _ _ => trivial⟩
  have hover : (r.tasks[0]?).map (·.isOver) = some true := by decide +kernel
  have hended : t.phase = .ended := by
    rw [ht, Option.map_some, Option.some.injEq] at hover
    cases hphase : t.phase with
    | ended => rfl
    | _ => simp [CallTask.isOver, hphase] at hover
  have hstages : stagesIn 0 learningMoves learningRun =
      [.loads (.arr [.str "old"]), .attempts 0 (.arr [.str "old"]),
        .attempts 1 (.arr [.str "old", .obj []]),
        .recovers (.arr [.str "old", .obj [], .obj []]),
        .keeps (.arr [.str "old", .obj [], .obj [], .str "made up"]),
        .follows learningResult, .ends learningResult] := by decide +kernel
  have halone : Alone "lessons" 0 r := by
    refine ⟨by decide +kernel, fun j u m hj hu _ => ?_⟩
    have hlt := (List.getElem?_eq_some_iff.mp hu).1
    omega
  have hvalue : r.store.value? "lessons" =
      some (.arr [.str "old", .obj [], .obj [], .str "made up"]) := by decide +kernel
  have hbegun : stagesIn 0 learningMoves learningRun ≠ [] := by
    rw [hstages]
    exact List.cons_ne_nil _ _
  obtain ⟨stored, hcourse, huses⟩ := (course_of_call learningSetup learningStore Archive.empty
    Subscribers.empty learningMoves ht hsafe hbegun).1 hended
  rw [haction] at hcourse huses
  exact ⟨t, ht, haction, hended, hstages, halone, hvalue, stored, hcourse, huses⟩

end TagLedger
