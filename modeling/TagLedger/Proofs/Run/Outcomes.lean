import Mathlib.Tactic.Common
import TagLedger.Proofs.Action.Behaviour
import TagLedger.Proofs.Run.Intake
import TagLedger.Proofs.Run.Mail
import TagLedger.Proofs.Run.Progress
import TagLedger.Proofs.Run.Slices

/-!
The outcomes of calls. If actions behave as described and the run is not cancelled, every task is on
its way to the result that the behaviour of its action gives for the data of its call, whatever the
schedule and the memory of the action are; and no task sends a call.
-/

namespace TagLedger

namespace Script

variable {α : Type} {Q : Post → Prop} {P P' : Option α → Prop}

theorem Gives.imp {s : Script α} (h : s.Gives Q P) (hP : ∀ o, P o → P' o) : s.Gives Q P' := by
  induction s with
  | done a => exact hP _ h
  | crash => exact hP _ h
  | sleep ms next ih => exact ih h
  | sleepUntil t next ih => exact ih h
  | awaitCancel next _ => trivial
  | readMemory next ih => exact fun v => ih v (h v)
  | writeMemory w next ih => exact ih h
  | post p next ih => exact ⟨h.1, ih h.2⟩
  | cancel next _ => trivial
  | isCancelled next ih => exact ih false h

end Script

namespace Runner.Job

variable {b : Behaviour} {rule : RetryRule} {data : Json} {scene scene' : Scene} {job job' : Job}

/-- However many attempts were made, those that are left come to what all of them come to. -/
def Fits (b : Behaviour) (retries : Nat) (data : Json) : Job → Prop
  | .admitted n => b.outcome data (retries - n) n = b.outcome data retries 0
  | .attempting n script =>
    script.Gives Post.IsNoCall (fun o => o = b.attempt data n) ∧
      b.outcome data (retries - n) n = b.outcome data retries 0
  | .pausing n _ => b.outcome data (retries - n) n = b.outcome data retries 0
  | _ => True

theorem Fits.moves (h : job.Fits b rule.retries data)
    (hturn : job.Turn rule scene (.moves job' scene')) (hposts : scene.posts = [])
    (hc : scene.cancelled = false) (hc' : scene'.cancelled = false) :
    job'.Fits b rule.retries data ∧ ∀ p ∈ scene'.posts, p.IsNoCall := by
  have hnone : ∀ p ∈ scene.posts, p.IsNoCall := by
    rw [hposts]
    simp
  cases hturn with
  | attempts hs =>
    obtain ⟨hgives, hrest⟩ := h
    obtain ⟨hgives', hsent⟩ := hgives.of_moved hs hposts hc hc'
    exact ⟨⟨hgives', hrest⟩, hsent⟩
  | fails hs herr hn =>
    obtain ⟨hgives, hrest⟩ := h
    refine ⟨?_, hnone⟩
    exact (Behaviour.outcome_of_failure (hgives.of_finished hs).symm herr hn).symm.trans hrest
  | resumes _ _ => exact ⟨h, hnone⟩

theorem Fits.ends {outcome : Except RunError Json} (h : job.Fits b rule.retries data)
    (hturn : job.Turn rule scene (.ends outcome)) (hc : scene.cancelled = false) :
    b.outcome data rule.retries 0 = some outcome := by
  cases hturn with
  | aborts _ hcancelled => cases hc.symm.trans hcancelled
  | ends hs hlast =>
    obtain ⟨hgives, hrest⟩ := h
    exact hrest.symm.trans (Behaviour.outcome_of_last (hgives.of_finished hs).symm hlast)

theorem Fits.crashes (h : job.Fits b rule.retries data) (hturn : job.Turn rule scene .crashes) :
    b.outcome data rule.retries 0 = none := by
  cases hturn with
  | crashes hs =>
    obtain ⟨hgives, hrest⟩ := h
    exact hrest.symm.trans (Behaviour.outcome_of_crash (hgives.of_crashed hs).symm)

end Runner.Job

def Phase.Fits (b : Behaviour) (retries : Nat) (data : Json) : Phase → Prop
  | .working _ job => job.Fits b retries data
  | .recovering _ script =>
    script.Gives Post.IsNoCall fun o => b.resultOf data o = b.result retries data
  | .concluding _ outcome => b.resultOf data (some outcome) = b.result retries data
  | .succeeding _ res script => script.Gives Post.IsNoCall fun o =>
    (if o.isNone then Entry.Result.errorData "action handler panicked" else res.data) =
      b.result retries data
  | _ => True

theorem Post.IsSentAs.call?_eq {p : Post} {m : Message} (h : p.IsSentAs m) (hp : p.IsNoCall) :
    m.call? = none := by
  cases p with
  | entry e =>
    obtain rfl := h
    exact Entry.call?_eq_none hp
  | event name data =>
    obtain ⟨id, now, rfl⟩ := h
    rfl

namespace Run

variable {i : Nat} {t t' : CallTask} {sent : List Message} {r r' q : Run} {m : Message}
  {b : Action → Behaviour} {res : Entry.Result}

/-- The data of the call of a task, as its action gets it. -/
def dataOf (t : CallTask) : Json := t.call.data.getD .null

/-- The data of the result of a task, as its action behaves. -/
def expected (b : Action → Behaviour) (r : Run) (t : CallTask) : Json :=
  (b t.action.action).result (r.retryRule t.action.action).retries (dataOf t)

def Resulted (b : Action → Behaviour) (r : Run) (res : Entry.Result) : Prop :=
  ∃ t ∈ r.tasks, t.phase = .ended ∧ t.call.id = res.callId ∧ res.data = expected b r t

def TaskFits (b : Action → Behaviour) (r : Run) (t : CallTask) : Prop :=
  t.phase.Fits (b t.action.action) (r.retryRule t.action.action).retries (dataOf t)

theorem ComeOf.noCall {posts : List Post} (hcome : ComeOf posts sent)
    (hposts : ∀ p ∈ posts, p.IsNoCall) : ∀ m ∈ sent, m.call? = none := by
  intro m hm
  obtain ⟨p, hp, hsent⟩ := hcome m hm
  exact hsent.call?_eq (hposts p hp)

/-- What a task may have sent: no calls, and a result only at its end, as its action gives it. -/
def SendsExpected (b : Action → Behaviour) (r : Run) (t : CallTask) (sent : List Message) : Prop :=
  ∀ m ∈ sent, m.call? = none ∧ ∀ res, m = .completed res →
    t.phase = .ended ∧ t.call.id = res.callId ∧ res.data = expected b r t

theorem sendsExpected_of_comeOf {posts : List Post} (hcome : ComeOf posts sent)
    (hposts : ∀ p ∈ posts, p.IsNoCall) : SendsExpected b r t sent := by
  intro m hm
  refine ⟨hcome.noCall hposts m hm, ?_⟩
  rintro res rfl
  obtain ⟨e, he⟩ := hcome.isPush _ hm
  cases he

theorem sendsExpected_completed (hid : res.callId = t.call.id)
    (hdata : res.data = expected b r t) :
    SendsExpected b r { t with phase := .ended } [.completed res] := by
  intro m hm
  rw [List.mem_singleton.mp hm]
  refine ⟨rfl, ?_⟩
  rintro _ ⟨⟩
  exact ⟨rfl, hid.symm, hdata⟩

/-- A call that is rejected or prepared gets no result by that. -/
theorem sendsExpected_of_noResult (hcall : m.call? = none) (hres : ∀ res, m ≠ .completed res) :
    SendsExpected b r t [m] := by
  intro m' hm'
  rw [List.mem_singleton.mp hm']
  exact ⟨hcall, fun res h => absurd h (hres res)⟩

theorem cancelled_of_absorb {s : Scene} (h : (r.absorb s).cancelled = false) :
    s.cancelled = false := by
  cases hs : s.cancelled with
  | false => rfl
  | true => exact (absorb_cancelled_of_scene s r hs).symm.trans h

/-- A step of a task that is not cancelled leads on to the result that its action gives. -/
theorem Conduct.fits (hconduct : Conduct i r t t' sent r')
    (hd : (b t.action.action).Describes t.action.action) (hown : t.OwnsResult)
    (hfits : TaskFits b r t) (hc : r.cancelled = false) (hc' : r'.cancelled = false) :
    TaskFits b r t' ∧ SendsExpected b r t' sent := by
  have hnothing {t' : CallTask} : SendsExpected b r t' [] := fun _ hm => by cases hm
  unfold TaskFits at hfits ⊢
  cases hconduct with
  | rejects _ _ => exact ⟨trivial, sendsExpected_of_noResult rfl fun _ h => by cases h⟩
  | prepares _ _ => exact ⟨trivial, sendsExpected_of_noResult rfl fun _ h => by cases h⟩
  | fills _ _ _ _ => exact ⟨trivial, hnothing⟩
  | loads _ => exact ⟨trivial, hnothing⟩
  | enters _ _ => exact ⟨rfl, hnothing⟩
  | queues _ _ => exact ⟨trivial, hnothing⟩
  | begins hp _ =>
    rw [hp] at hfits
    exact ⟨⟨hd.execute _ _ _ _, hfits⟩, hnothing⟩
  | works hp hturn _ hcome =>
    rw [hp] at hfits
    obtain ⟨hjob, hposts⟩ := hfits.moves hturn rfl hc (cancelled_of_absorb hc')
    exact ⟨hjob, sendsExpected_of_comeOf hcome hposts⟩
  | @succeeds slice data job hp hturn =>
    rw [hp] at hfits
    exact ⟨Behaviour.result_of_outcome (hfits.ends hturn hc), hnothing⟩
  | @fails slice job err hp hturn =>
    rw [hp] at hfits
    refine ⟨(hd.onError err t.view).imp fun o ho => ?_, hnothing⟩
    rw [ho]
    exact Behaviour.result_of_outcome (hfits.ends hturn hc)
  | crashes hp hturn hresult =>
    rw [hp] at hfits
    rw [hresult]
    exact ⟨trivial, sendsExpected_completed rfl
      (Behaviour.result_of_outcome (hfits.crashes hturn))⟩
  | recovers hp hs _ hcome =>
    rw [hp] at hfits
    obtain ⟨hgives, hposts⟩ := Script.Gives.of_moved hfits hs rfl hc (cancelled_of_absorb hc')
    exact ⟨hgives, sendsExpected_of_comeOf hcome hposts⟩
  | recovered hp hs =>
    rw [hp] at hfits
    exact ⟨Script.Gives.of_finished hfits hs, hnothing⟩
  | recoveryBreaks hp hs hresult =>
    rw [hp] at hfits
    rw [hresult]
    exact ⟨trivial, sendsExpected_completed rfl (Script.Gives.of_crashed hfits hs)⟩
  | @concludes slice data result hp _ hdata =>
    rw [hp] at hfits
    refine ⟨(hd.onSuccess result t.view).imp fun o ho => ?_, hnothing⟩
    rw [ho, hdata]
    exact hfits
  | concludesError hp hid hdata =>
    rw [hp] at hfits
    exact ⟨trivial, sendsExpected_completed hid (hdata.trans hfits)⟩
  | follows hp hs _ hcome =>
    rw [hp] at hfits
    obtain ⟨hgives, hposts⟩ := Script.Gives.of_moved hfits hs rfl hc (cancelled_of_absorb hc')
    exact ⟨hgives, sendsExpected_of_comeOf hcome hposts⟩
  | finishes hp hs =>
    rw [hp] at hfits
    exact ⟨trivial, sendsExpected_completed (hown _ _ _ hp)
      (Script.Gives.of_finished hfits hs)⟩
  | followBreaks hp hs hresult =>
    rw [hp] at hfits
    rw [hresult]
    exact ⟨trivial, sendsExpected_completed rfl (Script.Gives.of_crashed hfits hs)⟩

structure Behaves (b : Action → Behaviour) (r : Run) : Prop where
  catalog : ∀ a ∈ r.setup.catalog.actions, (b a).Describes a
  actions : ∀ x ∈ r.ledger.actions, (b x.action).Describes x.action
  own : r.TasksOwn
  tasks : ∀ t ∈ r.tasks, (b t.action.action).Describes t.action.action ∧ TaskFits b r t
  inbox : ∀ m ∈ r.inbox, m.call? = none ∧ ∀ res, m = .completed res → Resulted b r res
  slots : ∀ s ∈ r.ledger.slots, ∀ res, s.state = .completed res → Resulted b r res

theorem expected_congr (hs : r'.setup = r.setup) (t : CallTask) :
    expected b r' t = expected b r t := by
  simp only [expected, retryRule, hs]

theorem taskFits_congr (hs : r'.setup = r.setup) (t : CallTask) :
    TaskFits b r' t ↔ TaskFits b r t := by
  simp only [TaskFits, retryRule, hs]

theorem Resulted.mono (h : Resulted b r res) (hs : r'.setup = r.setup)
    (ht : ∀ t ∈ r.tasks, t.phase = .ended → t ∈ r'.tasks) : Resulted b r' res := by
  obtain ⟨t, hmem, hended, hid, hdata⟩ := h
  exact ⟨t, ht t hmem hended, hended, hid, by rw [expected_congr hs, hdata]⟩

namespace Behaves

theorem quiet (hb : Behaves b r) (hq : Quiet r r') : Behaves b r' := by
  have hmono {res : Entry.Result} (h : Resulted b r res) : Resulted b r' res :=
    h.mono hq.setup fun t ht _ => hq.tasks ▸ ht
  refine ⟨hq.setup ▸ hb.catalog, ?_, ?_, ?_, ?_, ?_⟩
  · rcases hq.actions with ha | ⟨memory, ha⟩
    · exact ha ▸ hb.actions
    · intro x hx
      rw [ha] at hx
      exact hb.catalog _ (hq.setup ▸ Action.mem_of_mem_prepare hx)
  · exact hq.tasksOwn hb.own
  · intro t ht
    rw [hq.tasks] at ht
    exact ⟨(hb.tasks t ht).1, (taskFits_congr hq.setup t).mpr (hb.tasks t ht).2⟩
  · intro m hm
    obtain ⟨hcall, hres⟩ := hb.inbox m (hq.inbox ▸ hm)
    exact ⟨hcall, fun res h => hmono (hres res h)⟩
  · exact fun s hs res h => hmono (hb.slots s (hq.slots ▸ hs) res h)

/-- A slot that completed was completed before, or has just been told its result. -/
theorem slots_resolve (hb : Behaves b q) {id : Uuid} {state : CallState}
    (hstate : ∀ res, state = .completed res → Resulted b q res) {s : CallSlot}
    (hs : s ∈ CallSlot.resolve id state q.ledger.slots) (h : s.state = .completed res) :
    Resulted b q res := by
  obtain ⟨s', hs', rfl⟩ := List.mem_map.mp hs
  split at h
  · exact hstate res h
  · exact hb.slots s' hs' res h

/-- When a message is taken that brings a call its result, slots complete with results that tasks
gave. -/
theorem slots_reception (hb : Behaves b q) (hm : Reception q m r')
    (hres : ∀ res, m = .completed res → Resulted b q res) {s : CallSlot}
    (hs : s ∈ r'.ledger.slots) (h : s.state = .completed res) : Resulted b q res := by
  cases hm with
  | plain _ hl =>
    obtain ⟨_, _, hl, _⟩ := hl
    exact hb.slots s (hl.slots ▸ hs) res h
  | result _ hl => exact hb.slots s (hl.slots ▸ hs) res h
  | refused _ _ hl => exact hb.slots s (hl.slots ▸ hs) res h
  | @accepted _ c p logged _ _ hl =>
    have hslots : logged.ledger.slots = CallSlot.add q.ledger.slots c.name c.id := hl.slots
    simp only [spawn, hslots, CallSlot.add] at hs
    rcases List.mem_append.mp hs with hs | hs
    · exact hb.slots_resolve (fun _ h => by cases h) hs h
    · rw [List.mem_singleton.mp hs] at h
      cases h
  | prepared id data => exact hb.slots s ((patchCall_untouched id data q).slots ▸ hs) res h
  | failed hl =>
    rw [hl.slots] at hs
    exact hb.slots_resolve (fun _ h => by cases h) hs h
  | completed hl =>
    rw [hl.slots] at hs
    refine hb.slots_resolve (fun res' h' => ?_) hs h
    obtain rfl := CallState.completed.inj h'
    exact hres _ rfl

theorem reception (hb : Behaves b q) (hm : Reception q m r')
    (hres : ∀ res, m = .completed res → Resulted b q res) : Behaves b r' := by
  have hmono {res : Entry.Result} (h : Resulted b q res) : Resulted b r' res := by
    refine h.mono hm.setup fun t ht _ => ?_
    obtain ⟨k, hk⟩ := List.mem_iff_getElem?.mp ht
    exact List.mem_of_getElem? (hm.getElem?_tasks hk)
  refine ⟨hm.setup ▸ hb.catalog, hm.bound.2 ▸ hb.actions, hm.tasksOwn hb.own, fun t ht => ?_,
    fun m' hm' => ?_, fun s hs res h => hmono (hb.slots_reception hm hres hs h)⟩
  · rw [taskFits_congr hm.setup]
    cases hm.enlists with
    | same _ htasks => exact hb.tasks t (htasks ▸ ht)
    | more _ hp htasks =>
      rw [htasks] at ht
      rcases List.mem_append.mp ht with ht | ht
      · exact hb.tasks t ht
      · rw [List.mem_singleton.mp ht]
        exact ⟨hb.actions _ (PreparedCall.mem_of_ofCall hp), trivial⟩
  · obtain ⟨hcall, hres'⟩ := hb.inbox m' (hm.inbox ▸ hm')
    exact ⟨hcall, fun res h => hmono (hres' res h)⟩

theorem steps (hb : Behaves b r) (hs : r.stepTask? i = some r') (hc : r.cancelled = false)
    (hc' : r'.cancelled = false) : Behaves b r' := by
  have hadv := stepTask?_advances hs hb.own
  obtain ⟨t, t', sent, ht, hconduct⟩ := stepTask?_conduct hs
  have hsteps := hconduct.steps ht
  have htmem := List.mem_of_getElem? ht
  obtain ⟨hd, hfits⟩ := hb.tasks t htmem
  obtain ⟨hfits', hsent⟩ := hconduct.fits hd (hb.own t htmem) hfits hc hc'
  have hmono {res : Entry.Result} (h : Resulted b r res) : Resulted b r' res := by
    refine h.mono hsteps.setup fun u hu hended => ?_
    obtain ⟨k, hk⟩ := List.mem_iff_getElem?.mp hu
    have hki : k ≠ i := by
      rintro rfl
      obtain rfl : t = u := Option.some.inj (ht.symm.trans hk)
      have hover := hconduct.isOver_eq
      simp [CallTask.isOver, hended] at hover
    have hrel := hsteps.others k hki
    rw [hk] at hrel
    generalize hafter : r'.tasks[k]? = after at hrel
    cases hrel with
    | some hkept =>
      cases hkept with
      | same => exact List.mem_of_getElem? hafter
      | admitted hphase => cases hphase.symm.trans hended
  refine ⟨hsteps.setup ▸ hb.catalog, hsteps.ledger ▸ hb.actions, hadv.tasksOwn hb.own,
    fun u hu => ?_, fun m hm => ?_, ?_⟩
  · rw [taskFits_congr hsteps.setup]
    rcases hsteps.mem_cases hu with rfl | ⟨v, hv, hkept⟩
    · exact ⟨hconduct.task_follows.action ▸ hd, hfits'⟩
    · obtain ⟨hdv, hfv⟩ := hb.tasks v hv
      refine ⟨hkept.follows.action ▸ hdv, ?_⟩
      cases hkept with
      | same => exact hfv
      | admitted _ => exact rfl
  · rw [hsteps.inbox] at hm
    rcases List.mem_append.mp hm with hm | hm
    · obtain ⟨hcall, hres⟩ := hb.inbox m hm
      exact ⟨hcall, fun res h => hmono (hres res h)⟩
    · obtain ⟨hcall, hres⟩ := hsent m hm
      refine ⟨hcall, fun res h => ?_⟩
      obtain ⟨hended, hid, hdata⟩ := hres res h
      exact ⟨t', List.mem_of_getElem? hsteps.after, hended, hid,
        hdata.trans (expected_congr hsteps.setup t').symm⟩
  · rw [hsteps.ledger]
    exact fun s hs res h => hmono (hb.slots s hs res h)

theorem applyAll (hb : Behaves b r) (ms : List Move) (hc : (r.applyAll ms).cancelled = false) :
    Behaves b (r.applyAll ms) := by
  refine applyAll_keeps (I := fun _ q => q.cancelled = false → Behaves b q) (g := []) ?_ ?_ ?_ ?_
    (fun _ => hb) ms hc
  · intro _ q q' ih hq hc
    refine (ih ?_).quiet hq
    by_contra hcancelled
    exact absurd ((hq.cancelled (by simpa using hcancelled)).symm.trans hc) nofun
  · intro _ q e q' ih hm hc
    exact (ih (hm.bound.1 ▸ hc)).reception hm fun _ h => by cases h
  · intro _ q m rest q' ih hinbox hm hc
    have hbefore := ih (hm.bound.1 ▸ hc)
    have hall := hinbox ▸ hbefore.inbox
    have htaken : Behaves b { q with inbox := rest } :=
      ⟨hbefore.catalog, hbefore.actions, hbefore.own, hbefore.tasks,
        fun m' hm' => hall m' (List.mem_cons_of_mem m hm'), hbefore.slots⟩
    exact htaken.reception hm (hall m List.mem_cons_self).2
  · intro _ q i q' ih hs hc
    obtain ⟨t, t', sent, ht, hconduct⟩ := stepTask?_conduct hs
    have hbefore : q.cancelled = false := by
      by_contra hcancelled
      exact absurd ((hconduct.cancelled (by simpa using hcancelled)).symm.trans hc) nofun
    exact (ih hbefore).steps hs hbefore hc

theorem new {setup : Setup} (hcatalog : ∀ a ∈ setup.catalog.actions, (b a).Describes a)
    (store : Store) (archive : Archive) (subscribers : Subscribers) :
    Behaves b (new setup store archive subscribers) where
  catalog := hcatalog
  actions := by simp [Run.new, Ledger.empty]
  own := by simp [TasksOwn, Run.new]
  tasks := by simp [Run.new]
  inbox := by simp [Run.new]
  slots := by simp [Run.new, Ledger.empty]

end Behaves

/-- How an accepted call stands: its slot waits, or agrees with the verdict on it and, if there is
data, with what its action makes of that. -/
inductive Stands (b : Action → Behaviour) (r : Run) (p : PreparedCall) (c : Entry.Call)
    (s : CallSlot) (t : CallTask) : Prop where
  | waits (h : s.state = .waiting)
  | completed {data : Json} {res : Entry.Result} (hv : p.verdict c (r.sources t) = some (.ok data))
    (hs : s.state = .completed res)
    (hdata : res.data =
      (b p.action.action).result (r.retryRule p.action.action).retries data)
    (hc : t.call = { c with data := some data })
  | failed {err : RunError} (hv : p.verdict c (r.sources t) = some (.error err))
    (hs : s.state = .failed err.message) (hc : t.call = c)

theorem exists_stands {h : List (Run × Message)} (hmail : Mail h r) (hd : DistinctCalls h)
    (hb : Behaves b r) {k : Nat} {x : Run × Entry.Call} (hx : (acceptedCalls h)[k]? = some x) :
    ∃ t s p, r.tasks[k]? = some t ∧ r.ledger.slots[k]? = some s ∧
      PreparedCall.ofCall x.1.ledger.actions x.2 = .ok p ∧ t.Serves k x ∧
      Stands b r p x.2 s t := by
  obtain ⟨t, s, ht, hs, hserves, _⟩ := hmail.toRoster.exists_task hx
  obtain ⟨y, p, hy, _, hp, haction, hgated⟩ := hmail.toGate.exists_gated ht
  obtain rfl := Option.some.inj (hx.symm.trans hy)
  refine ⟨t, s, p, ht, hs, hp, hserves, ?_⟩
  have htold := hmail.states k s hs
  cases hstate : s.state with
  | waiting => exact .waits hstate
  | dropped =>
    rw [hstate] at htold
    exact htold.elim
  | failed reason =>
    rw [hstate] at htold
    obtain ⟨err, herr, rfl⟩ := htold
    obtain ⟨_, hended, hv⟩ := (herr.tells hx ht hp).failed_inv
    refine .failed hv hstate ?_
    cases hgated with
    | undecided hp' _ _ => cases hended.symm.trans hp'
    | passed _ hv' _ => cases hv.symm.trans hv'
    | rejected _ _ hc => exact hc
  | completed res =>
    rw [hstate] at htold
    cases TellsAt.tells htold hx ht hp with
    | @completed data _ hended hv hres =>
      have hc : t.call = { x.2 with data := some data } := by
        cases hgated with
        | undecided hp' _ _ => cases hended.symm.trans hp'
        | passed _ hv' hc =>
          obtain rfl := Except.ok.inj (Option.some.inj (hv.symm.trans hv'))
          exact hc
        | rejected _ hv' _ => cases hv.symm.trans hv'
      obtain ⟨u, hu, _, huid, hdata⟩ := hb.slots s (List.mem_of_getElem? hs) res hstate
      obtain ⟨j, hj⟩ := List.mem_iff_getElem?.mp hu
      obtain ⟨z, _, hz, _, hserves', _⟩ := hmail.toRoster.exists_served hj
      obtain rfl : j = k := Mail.eq_of_callId hd hz hx (by rw [← hserves'.callId, huid, hres])
      obtain rfl := Option.some.inj (ht.symm.trans hj)
      refine .completed hv hstate ?_ hc
      rw [hdata, expected, haction, dataOf, hc]
      rfl

theorem cancelled_of_applyAll {ms : List Move} (h : (r.applyAll ms).cancelled = false) :
    r.cancelled = false := by
  by_contra hnot
  cases (cancelled_applyAll (by simpa using hnot) ms).symm.trans h

/-- If the host pushes nothing, all calls that are routed are those of the stream. -/
theorem routedCalls_streamed {ms : List Move} (hb : Behaves b r)
    (hms : ∀ e, Move.push e ∉ ms) (hc : (r.applyAll ms).cancelled = false) :
    routedCalls (history ms r) = routedCalls (streamed ms r) := by
  induction ms generalizing r with
  | nil => rfl
  | cons m ms ih =>
    have happly : (r.apply m).cancelled = false := cancelled_of_applyAll hc
    have hb' : Behaves b (r.apply m) := hb.applyAll [m] happly
    have hrest := ih hb' (fun e he => hms e (List.mem_cons_of_mem m he)) hc
    rw [history, streamed, routedCalls_append, routedCalls_append, hrest]
    congr 1
    have hmove := r.apply_happens m
    generalize r.taken m = taken, r.apply m = r' at hmove
    cases hmove with
    | nothing => split <;> rfl
    | push e _ => exact absurd List.mem_cons_self (hms e)
    | deliver hinbox =>
      obtain ⟨hcall, _⟩ := hb.inbox _ (hinbox ▸ List.mem_cons_self)
      exact routedCalls_concat_of_none [] _ hcall
    | _ => rfl

end Run

end TagLedger
