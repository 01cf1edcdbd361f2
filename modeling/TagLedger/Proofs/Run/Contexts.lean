import Mathlib.Tactic.Common
import TagLedger.Proofs.Run.Admission

/-!
The context that a call takes place in. An action is bound to the context that its type selects, and
is asked whether it is enabled there; of that context only the identifier is noted. A call that is
dispatched looks the identifier up again, among the contexts inside the run first. It finds the
context that was selected if no other one has the same identifier, and that context is what all
attempts and hooks of the call are given.
-/

namespace TagLedger

def IsFirst {α : Type} (p : α → Prop) (xs : List α) (x : α) : Prop :=
  ∃ before after, xs = before ++ x :: after ∧ p x ∧ ∀ y ∈ before, ¬ p y

theorem isFirst_of_find? {α : Type} {p : α → Bool} {xs : List α} {x : α}
    (h : xs.find? p = some x) : IsFirst (fun y => p y = true) xs x := by
  obtain ⟨hx, before, after, hxs, hbefore⟩ := List.find?_eq_some_iff_append.mp h
  exact ⟨before, after, hxs, hx, fun y hy => by simpa using hbefore y hy⟩

theorem IsFirst.mem {α : Type} {p : α → Prop} {xs : List α} {x : α} (h : IsFirst p xs x) :
    x ∈ xs := by
  obtain ⟨before, after, rfl, _⟩ := h
  exact List.mem_append_right before List.mem_cons_self

namespace Action

/-- The context that an action is meant for: the context of the run if the action is not restricted,
else the first one of its type, the context of the run before those inside it. -/
structure Selects (a : Action) (context : ContextState) (subContexts : List ContextState)
    (c : ContextState) : Prop where
  own : a.contextType = none → c = context
  first : ∀ type, a.contextType = some type →
    IsFirst (fun d => d.type = type) (context :: subContexts) c

variable {a : Action} {context c : ContextState} {subContexts : List ContextState}

theorem selects_of_target? (h : a.target? context subContexts = some c) :
    a.Selects context subContexts c := by
  unfold target? at h
  split at h
  · rename_i hnone
    cases h
    refine ⟨fun _ => rfl, fun type htype => ?_⟩
    cases hnone.symm.trans htype
  · rename_i wanted hsome
    refine ⟨fun hnone => ?_, fun type htype => ?_⟩
    · cases hsome.symm.trans hnone
    · obtain rfl := Option.some.inj (hsome.symm.trans htype)
      simpa using isFirst_of_find? h

theorem Selects.mem (h : a.Selects context subContexts c) : c ∈ context :: subContexts := by
  cases htype : a.contextType with
  | none =>
    rw [h.own htype]
    exact List.mem_cons_self
  | some type => exact (h.first type htype).mem

/-- An action is bound to the context that is selected for it, if it is enabled there. -/
theorem bound_of_mem_prepare {actions : List Action} {memory : WorkingMemory} {b : BoundAction}
    (h : b ∈ prepare actions context subContexts memory) :
    b.action ∈ actions ∧ ∃ c, b.action.Selects context subContexts c ∧
      b.action.enabled c memory = true ∧ b.contextId = c.id := by
  obtain ⟨a, ha, hbind⟩ := List.mem_filterMap.mp h
  obtain ⟨c, htarget, hbound⟩ := Option.bind_eq_some_iff.mp hbind
  split at hbound
  · rename_i henabled
    cases hbound
    exact ⟨ha, c, selects_of_target? htarget, henabled, rfl⟩
  · cases hbound

end Action

/-- Whatever of its action a task is doing after a step, it has been doing before, or has begun with
a view of the context `c`. -/
structure CallTask.Hands (c : ContextState) (t t' : CallTask) : Prop where
  execute : ∀ slice n script, t'.phase = .working slice (.attempting n script) →
    (∃ slice' script', t.phase = .working slice' (.attempting n script')) ∨
      ∃ executions data view, view.context = c ∧
        script = t.action.action.execute executions n data view
  onError : ∀ slice script, t'.phase = .recovering slice script →
    (∃ slice' script', t.phase = .recovering slice' script') ∨
      ∃ err view, view.context = c ∧ script = t.action.action.onError err view
  onSuccess : ∀ slice result script, t'.phase = .succeeding slice result script →
    (∃ slice' script', t.phase = .succeeding slice' result script') ∨
      ∃ view, view.context = c ∧ script = t.action.action.onSuccess result view

namespace Run

variable {i k : Nat} {t t' : CallTask} {sent : List Message} {r r' r₀ q : Run} {m : Message}
  {ms : List Move} {x : Run × Entry.Call} {c : ContextState}

theorem Conduct.hands (h : Conduct i r t t' sent r') : t.Hands t.context t' := by
  cases h with
  | begins hp _ =>
    refine ⟨fun slice n script hphase => .inr ?_, nofun, nofun⟩
    cases hphase
    exact ⟨_, _, t.view, rfl, rfl⟩
  | works hp hturn _ _ =>
    refine ⟨fun slice n script hphase => .inl ?_, nofun, nofun⟩
    cases hphase
    cases hturn with
    | attempts _ => exact ⟨_, _, hp⟩
  | @fails slice job err hp _ =>
    refine ⟨nofun, fun _ script hphase => .inr ?_, nofun⟩
    cases hphase
    exact ⟨err, t.view, rfl, rfl⟩
  | recovers hp _ _ _ =>
    refine ⟨nofun, fun _ script hphase => .inl ⟨_, _, hp⟩, nofun⟩
  | concludes hp _ _ _ =>
    refine ⟨nofun, nofun, fun _ result script hphase => .inr ?_⟩
    cases hphase
    exact ⟨t.view, rfl, rfl⟩
  | follows hp _ _ _ =>
    refine ⟨nofun, nofun, fun _ result script hphase => .inl ?_⟩
    cases hphase
    exact ⟨_, _, hp⟩
  | _ => exact ⟨nofun, nofun, nofun⟩

/-- The context of every task is what the identifier of its action leads to. -/
def LooksUp (r : Run) : Prop := ∀ t ∈ r.tasks, t.context = r.contextFor t.action.contextId

theorem LooksUp.congr (h : LooksUp r) (hs : r'.setup = r.setup) (ht : r'.tasks = r.tasks) :
    LooksUp r' := by
  intro t hmem
  rw [contextFor, hs]
  exact h t (ht ▸ hmem)

theorem LooksUp.reception (h : LooksUp q) (hm : Reception q m r') : LooksUp r' := by
  cases hm with
  | plain _ hl =>
    obtain ⟨_, _, hl, _⟩ := hl
    exact h.congr hl.setup hl.tasks
  | result _ hl => exact h.congr hl.setup hl.tasks
  | refused _ _ hl => exact h.congr hl.setup hl.tasks
  | @accepted _ c p q' _ _ hl =>
    have hlogged : LooksUp q' := h.congr hl.setup hl.tasks
    intro t ht
    rcases List.mem_append.mp ht with ht | ht
    · exact hlogged t ht
    · rw [List.mem_singleton.mp ht]
      rfl
  | prepared id data =>
    have hpatch := patchCall_untouched id data q
    exact h.congr hpatch.setup hpatch.tasks
  | failed hl => exact h.congr hl.setup hl.tasks
  | completed hl => exact h.congr hl.setup hl.tasks

theorem LooksUp.steps (h : LooksUp r) (hs : r.stepTask? i = some r') : LooksUp r' := by
  obtain ⟨t, t', sent, ht, hconduct⟩ := stepTask?_conduct hs
  have hsteps := hconduct.steps ht
  intro u hu
  -- a step changes neither the context of a task nor its action
  have hfollows : ∃ v ∈ r.tasks, v.Follows u := by
    rcases hsteps.mem_cases hu with rfl | ⟨v, hv, hkept⟩
    · exact ⟨t, List.mem_of_getElem? ht, hconduct.task_follows⟩
    · exact ⟨v, hv, hkept.follows⟩
  obtain ⟨v, hv, hf⟩ := hfollows
  rw [hf.context, hf.action, contextFor, hsteps.setup]
  exact h v hv

theorem LooksUp.applyAll (h : LooksUp r) (ms : List Move) : LooksUp (r.applyAll ms) := by
  refine applyAll_keeps (I := fun _ q => LooksUp q) (g := []) ?_ ?_ ?_ ?_ h ms
  · exact fun h hq => h.congr hq.setup hq.tasks
  · exact fun h hm => h.reception hm
  · intro _ q m rest _ h _ hm
    have htaken : LooksUp { q with inbox := rest } := h
    exact htaken.reception hm
  · exact fun h hs => h.steps hs

/-- What an identifier leads to: the first context that has it, those inside the run coming before
the context of the run. -/
theorem contextFor_isFirst (hc : c ∈ r.contexts) :
    IsFirst (fun d => d.id = c.id) (r.setup.subContexts ++ [r.setup.context])
      (r.contextFor c.id) := by
  unfold contextFor
  cases hfind : r.setup.subContexts.find? (·.id == c.id) with
  | some d =>
    obtain ⟨before, after, hsub, hd, hbefore⟩ := isFirst_of_find? hfind
    refine ⟨before, after ++ [r.setup.context], ?_, by simpa using hd, by simpa using hbefore⟩
    rw [hsub, Option.getD_some, List.append_assoc, List.cons_append]
  | none =>
    have hnone : ∀ d ∈ r.setup.subContexts, d.id ≠ c.id := by simpa using hfind
    refine ⟨r.setup.subContexts, [], rfl, ?_, hnone⟩
    rcases List.mem_cons.mp hc with rfl | hsub
    · rfl
    · exact absurd rfl (hnone c hsub)

/-- A context is found again by its identifier if no other one has it. -/
theorem contextFor_eq_self (hc : c ∈ r.contexts) (hunique : ∀ d ∈ r.contexts, d.id = c.id → d = c) :
    r.contextFor c.id = c := by
  have hfirst := contextFor_isFirst hc
  have hmem : r.contextFor c.id ∈ r.contexts := by
    rcases List.mem_append.mp hfirst.mem with hsub | hown
    · exact List.mem_cons_of_mem _ hsub
    · exact List.mem_cons.mpr (.inl (List.mem_singleton.mp hown))
  obtain ⟨_, _, _, hid, _⟩ := hfirst
  exact hunique _ hmem hid

/-- Where the call that was accepted as `x`, with the task `t` after the schedule, takes place: `c`
is the context that was selected for its action. -/
structure TakesPlace (ms : List Move) (r₀ : Run) (k : Nat) (x : Run × Entry.Call) (t : CallTask)
    (c : ContextState) : Prop where
  /-- The action is the one that the call named. -/
  action : ∃ p, PreparedCall.ofCall x.1.ledger.actions x.2 = .ok p ∧ t.action = p.action
  listed : t.action.action ∈ r₀.setup.catalog.actions
  selected : t.action.action.Selects r₀.setup.context r₀.setup.subContexts c
  /-- A start has asked the action whether it is enabled there. -/
  asked : ∃ before after memory store, ms = before ++ .start :: after ∧
    WorkingMemory.load (r₀.applyAll before).memoryKey (r₀.applyAll before).store =
      (.ok memory, store) ∧
    t.action.action.enabled c memory = true
  /-- The context of the task is the first that has the identifier of the one selected. -/
  found : IsFirst (fun d => d.id = c.id) (r₀.setup.subContexts ++ [r₀.setup.context]) t.context
  same : (∀ d ∈ r₀.contexts, d.id = c.id → d = c) → t.context = c
  /-- The action is given the context of the task whenever an attempt or a hook begins. -/
  hands : ∀ r' t', (r₀.applyAll ms).stepTask? k = some r' → r'.tasks[k]? = some t' →
    t.Hands t.context t'

/-- Every call that is dispatched takes place in the context that its action was bound to, if no
other context has the identifier of that one. -/
theorem takesPlace_of_accepted (setup : Setup) (store : Store) (archive : Archive)
    (subscribers : Subscribers) (ms : List Move) :
    let r₀ := new setup store archive subscribers
    ∀ (k : Nat) x, (acceptedCalls (history ms r₀))[k]? = some x →
      ∃ t c, (r₀.applyAll ms).tasks[k]? = some t ∧ TakesPlace ms r₀ k x t c := by
  intro r₀ k x hx
  have hsetup : (r₀.applyAll ms).setup = r₀.setup := (r₀.applyAll_grows ms).setup
  have hroster : Roster (history ms r₀) (r₀.applyAll ms) :=
    (Roster.new setup store archive subscribers).applyAll ms
  obtain ⟨t, _, ht, _, hserves, _⟩ := hroster.exists_task hx
  obtain ⟨p, hp, haction⟩ := hserves.prepared
  have hbound : t.action ∈ x.1.ledger.actions := haction ▸ PreparedCall.mem_of_ofCall hp
  obtain ⟨before, after, memory, store', hms, hload, hactions⟩ :=
    boundBy_of_accepted rfl (List.mem_of_getElem? hx) hbound
  obtain ⟨hlisted, c, hselects, henabled, hid⟩ :=
    Action.bound_of_mem_prepare (hactions ▸ hbound)
  have hlooks : LooksUp r₀ := by simp [LooksUp, r₀, new]
  have hcontext : t.context = r₀.contextFor c.id := by
    rw [hlooks.applyAll ms t (List.mem_of_getElem? ht), hid, contextFor, hsetup, contextFor]
  have hc : c ∈ r₀.contexts := hselects.mem
  refine ⟨t, c, ht, ⟨p, hp, haction⟩, hlisted, hselects,
    ⟨before, after, memory, store', hms, hload, henabled⟩, ?_, ?_, ?_⟩
  · rw [hcontext]
    exact contextFor_isFirst hc
  · rw [hcontext]
    exact contextFor_eq_self hc
  · intro r' t' hs ht'
    obtain ⟨u, u', sent, hu, hconduct⟩ := stepTask?_conduct hs
    obtain rfl := Option.some.inj (ht.symm.trans hu)
    obtain rfl := Option.some.inj ((hconduct.steps ht).after.symm.trans ht')
    exact hconduct.hands

end Run

namespace Sample

/-- An action for contexts of the type of the run that tells where it takes place. -/
def placingAction : Action where
  name := "place"
  schema := none
  retry := none
  memory := none
  contextType := some "root"
  enabled := fun c _ => c.type == "root"
  execute := fun _ _ _ view => .done (.ok view.context.toJson)
  onError := fun e _ => .done (.error e)
  format := fun _ => none
  onSuccess := fun _ _ => .done (.ok ())

def goalsAction : Action :=
  { placingAction with contextType := some "goals", enabled := fun c _ => c.type == "goals" }

def innerContext : ContextState := ⟨"inner", "goals", .arr []⟩

/-- The context inside the run has an identifier of its own. -/
def distinctContexts : Setup :=
  { noteSetup with catalog := ⟨[goalsAction], [], []⟩, subContexts := [innerContext] }

/-- The task of the call has got its permit. -/
def goalsMoves : List Move := [.start, .push (callNamed "place" 1)] ++ List.replicate 3 (.task 0)

end Sample

open Sample in
/-- A call takes place in the context inside the run, the only one with its identifier, and the
attempt that its task begins next is given that context. -/
theorem Run.takesPlace_of_accepted_inside :
    let r₀ := Run.new distinctContexts Store.empty Archive.empty Subscribers.empty
    let r := r₀.applyAll goalsMoves
    ∃ x t, (acceptedCalls (history goalsMoves r₀))[0]? = some x ∧ r.tasks[0]? = some t ∧
      TakesPlace goalsMoves r₀ 0 x t innerContext ∧
      (∀ d ∈ r₀.contexts, d.id = innerContext.id → d = innerContext) ∧
      t.context = innerContext ∧
      ∃ r' t' script, r.stepTask? 0 = some r' ∧ r'.tasks[0]? = some t' ∧
        t'.attempt? = some (0, script) ∧ ∃ executions data view, view.context = innerContext ∧
          script = goalsAction.execute executions 0 data view := by
  intro r₀ r
  have haccepted : ((acceptedCalls (history goalsMoves r₀))[0]?).isSome = true := by
    decide +kernel
  obtain ⟨x, hx⟩ := Option.isSome_iff_exists.mp haccepted
  obtain ⟨t, c, ht, hplace⟩ :=
    takesPlace_of_accepted distinctContexts Store.empty Archive.empty Subscribers.empty goalsMoves
      0 x hx
  have haction : t.action.action = goalsAction := List.mem_singleton.mp hplace.listed
  have hcontexts : r₀.contexts = [noteSetup.context, innerContext] := rfl
  have hc : c = innerContext := by
    obtain ⟨before, after, hsplit, htype, -⟩ := hplace.selected.first "goals" (by rw [haction]; rfl)
    have hmem : c ∈ [noteSetup.context, innerContext] :=
      hsplit ▸ List.mem_append_right before List.mem_cons_self
    simp only [List.mem_cons, List.not_mem_nil, or_false] at hmem
    rcases hmem with rfl | rfl
    · exact absurd htype (by decide)
    · rfl
  subst hc
  have hunique : ∀ d ∈ r₀.contexts, d.id = innerContext.id → d = innerContext := by
    rw [hcontexts]
    decide
  have hsame := hplace.same hunique
  have hidle : ((r.tasks[0]?.bind CallTask.attempt?).map (·.1)) = none := by decide +kernel
  have hbegins :
      (((r.stepTask? 0).bind (·.tasks[0]?)).bind CallTask.attempt?).map (·.1) = some 0 := by
    decide +kernel
  obtain ⟨⟨n, script⟩, hattempt, rfl⟩ := Option.map_eq_some_iff.mp hbegins
  obtain ⟨t', ht', hattempt⟩ := Option.bind_eq_some_iff.mp hattempt
  obtain ⟨r', hs, ht'⟩ := Option.bind_eq_some_iff.mp ht'
  refine ⟨x, t, hx, ht, hplace, hunique, hsame, r', t', script, hs, ht', hattempt, ?_⟩
  obtain ⟨slice, hphase⟩ := CallTask.attempt?_eq_some.mp hattempt
  rcases (hplace.hands r' t' hs ht').execute slice 0 script hphase with
    ⟨_, _, hbefore⟩ | ⟨executions, data, view, hview, hscript⟩
  · have hrunning := CallTask.attempt?_eq_some.mpr ⟨_, hbefore⟩
    rw [ht, Option.bind_some, hrunning] at hidle
    cases hidle
  · exact ⟨executions, data, view, hview.trans hsame, haction ▸ hscript⟩

namespace Sample

/-- A context inside the run has the identifier of the run's own. -/
def twinContexts : Setup :=
  { noteSetup with
    catalog := ⟨[placingAction], [], []⟩
    subContexts := [⟨noteSetup.context.id, "goals", .arr []⟩] }

end Sample

open Sample in
/-- The action is bound to the context of the run and enabled there, and is given another one, of
a type that it is not meant for. -/
theorem Run.twin_context_is_handed :
    let r := (Run.new twinContexts Store.empty Archive.empty Subscribers.empty).applyAll
      ([.start, .push (callNamed "place" 1)] ++ List.replicate 8 (.task 0) ++
        [.deliver, .deliver])
    placingAction.target? twinContexts.context twinContexts.subContexts =
        some ⟨"context", "root", .obj []⟩ ∧
      r.ledger.actions.map (fun b => (b.name, b.contextId)) = [("place", "context")] ∧
      r.tasks.map (·.context) = [⟨"context", "goals", .arr []⟩] ∧
      (r.ledger.slots.map (·.report?)).filterMap (fun report => report.bind fun
        | .ok result => some result.data
        | .error _ => none) = [ContextState.toJson ⟨"context", "goals", .arr []⟩] := by
  intro r
  exact ⟨by decide, by decide +kernel, by decide +kernel, by decide +kernel⟩

end TagLedger
