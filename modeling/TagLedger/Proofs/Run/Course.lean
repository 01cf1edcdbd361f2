import Mathlib.Tactic.Common
import TagLedger.Proofs.Action.Runs
import TagLedger.Proofs.Run.Progress
import TagLedger.Proofs.Run.Stages

/-!
The course of a call in its action: attempts, the hook after an error, the keeping of the slice, and
the hook after a success. Each begins on the slice that the one before has left. Whatever else
happens in the run, a call whose action does not break down takes this course.
-/

namespace TagLedger

open Runner (Job RetryRule)

namespace Action

def keeps (a : Action) (slice : Json) : List Stage :=
  match a.memory with
  | none => []
  | some _ => [.keeps slice]

/-- The attempts from the one of that number on, begun in one scene, come to an outcome in
another. -/
inductive Attempts (a : Action) (rule : RetryRule) (view : CallView) :
    Nat → Scene → List Stage → Except RunError Json → Scene → Prop where
  | passes {n : Nat} {scene scene' scene'' : Scene} {log : List Stage}
    {outcome : Except RunError Json} (hp : scene.Passes scene')
    (h : Attempts a rule view n scene' log outcome scene'') :
    Attempts a rule view n scene log outcome scene''
  /-- Cancellation is seen before the attempt. -/
  | aborts {n : Nat} {scene : Scene} (hc : scene.cancelled = true) :
    Attempts a rule view n scene [] (.error .aborted) scene
  | ends {n executions : Nat} {scene scene' : Scene} {outcome : Except RunError Json}
    (hc : scene.cancelled = false)
    (hr : (a.execute executions n (view.call.data.getD .null) view).Runs scene outcome scene')
    (hlast : Job.IsLast rule n outcome) :
    Attempts a rule view n scene [.attempts n scene.slice] outcome scene'
  | repeats {n executions : Nat} {scene scene' scene'' : Scene} {err : RunError} {log : List Stage}
    {outcome : Except RunError Json} (hc : scene.cancelled = false)
    (hr : (a.execute executions n (view.call.data.getD .null) view).Runs scene (.error err) scene')
    (herr : err ≠ .aborted) (hn : n < rule.retries)
    (h : Attempts a rule view (n + 1) scene' log outcome scene'') :
    Attempts a rule view n scene (.attempts n scene.slice :: log) outcome scene''

inductive Recovers (a : Action) (view : CallView) :
    Except RunError Json → Scene → List Stage → Except RunError Json → Scene → Prop where
  | unneeded {data : Json} {scene : Scene} : Recovers a view (.ok data) scene [] (.ok data) scene
  | runs {err : RunError} {scene scene' : Scene} {outcome : Except RunError Json}
    (hr : (a.onError err view).Runs scene outcome scene') :
    Recovers a view (.error err) scene [.recovers scene.slice] outcome scene'

inductive Concludes (a : Action) (view : CallView) (C : Prop) :
    Except RunError Json → Scene → List Stage → Prop where
  | succeeds {data : Json} {scene scene' : Scene} {result : Entry.Result}
    {outcome : Except RunError Unit} (hid : result.callId = view.call.id)
    (hdata : result.data = data) (hr : (a.onSuccess result view).Runs scene outcome scene')
    (hc : scene'.cancelled = true → C) :
    Concludes a view C (.ok data) scene (a.keeps scene.slice ++ [.follows result, .ends result])
  | fails {err : RunError} {scene : Scene} {result : Entry.Result}
    (hid : result.callId = view.call.id)
    (hdata : result.data = Entry.Result.errorData err.message)
    (hc : scene.cancelled = true → C) :
    Concludes a view C (.error err) scene (a.keeps scene.slice ++ [.ends result])

/-- The whole course of a call, with the slice that was loaded. Cancellation is seen only if `C`
holds: what has been seen of it stays in the scene. -/
inductive Course (a : Action) (rule : RetryRule) (view : CallView) (C : Prop) (stored : Json) :
    List Stage → Prop where
  | intro {scene scene' scene'' : Scene} {attempts hook rest : List Stage}
    {outcome settled : Except RunError Json} (hstored : scene.slice = stored)
    (ha : a.Attempts rule view 0 scene attempts outcome scene')
    (hr : a.Recovers view outcome scene' hook settled scene'')
    (hc : a.Concludes view C settled scene'' rest) :
    Course a rule view C stored (.loads stored :: attempts ++ (hook ++ rest))

variable {a : Action} {view : CallView} {scene scene' : Scene} {rest : List Stage}
  {outcome : Except RunError Json} {C : Prop}

theorem Concludes.passes (hp : scene.Passes scene') (h : a.Concludes view C outcome scene' rest) :
    a.Concludes view C outcome scene rest := by
  cases h with
  | succeeds hid hdata hr hc =>
    rw [hp.slice]
    exact .succeeds hid hdata (.passes hp hr) hc
  | fails hid hdata hc =>
    rw [hp.slice]
    exact .fails hid hdata fun hcancelled => hc (hp.cancelled hcancelled)

end Action

namespace Runner.Job

def upcoming? : Job → Option Nat
  | .asking => some 0
  | .queued => some 0
  | .admitted n => some n
  | .pausing n _ => some n
  | _ => none

inductive Goes (a : Action) (rule : RetryRule) (view : CallView) :
    Job → Scene → List Stage → Except RunError Json → Scene → Prop where
  | begins {job : Job} {n : Nat} {scene scene' : Scene} {log : List Stage}
    {outcome : Except RunError Json} (hjob : job.upcoming? = some n)
    (h : a.Attempts rule view n scene log outcome scene') :
    Goes a rule view job scene log outcome scene'
  | ends {n : Nat} {script : Script (Except RunError Json)} {scene scene' : Scene}
    {outcome : Except RunError Json} (hr : script.Runs scene outcome scene')
    (hlast : IsLast rule n outcome) :
    Goes a rule view (.attempting n script) scene [] outcome scene'
  | repeats {n : Nat} {script : Script (Except RunError Json)} {scene scene' scene'' : Scene}
    {err : RunError} {log : List Stage} {outcome : Except RunError Json}
    (hr : script.Runs scene (.error err) scene') (herr : err ≠ .aborted) (hn : n < rule.retries)
    (h : a.Attempts rule view (n + 1) scene' log outcome scene'') :
    Goes a rule view (.attempting n script) scene log outcome scene''

namespace Goes

variable {a : Action} {rule : RetryRule} {view : CallView} {job job' : Job}
  {scene scene' scene'' : Scene} {log : List Stage} {outcome : Except RunError Json}

theorem passes (hp : scene.Passes scene') (h : job.Goes a rule view scene' log outcome scene'') :
    job.Goes a rule view scene log outcome scene'' := by
  cases h with
  | begins hjob h => exact .begins hjob (.passes hp h)
  | ends hr hlast => exact .ends (.passes hp hr) hlast
  | repeats hr herr hn h => exact .repeats (.passes hp hr) herr hn h

/-- A job that goes on to an attempt is known by the number of that attempt. -/
theorem of_upcoming {n : Nat} (hjob : job.upcoming? = some n) (hjob' : job'.upcoming? = some n)
    (h : job'.Goes a rule view scene log outcome scene') :
    job.Goes a rule view scene log outcome scene' := by
  cases h with
  | begins hn h =>
    cases hjob'.symm.trans hn
    exact .begins hjob h
  | ends _ _ => cases hjob'
  | repeats _ _ _ _ => cases hjob'

theorem of_begins {n executions : Nat} (hc : scene.cancelled = false)
    (h : (attempting n (a.execute executions n (view.call.data.getD .null) view)).Goes a rule view
      scene log outcome scene') :
    (admitted n).Goes a rule view scene (.attempts n scene.slice :: log) outcome scene' := by
  cases h with
  | begins hjob _ => cases hjob
  | ends hr hlast => exact .begins rfl (.ends hc hr hlast)
  | repeats hr herr hn h => exact .begins rfl (.repeats hc hr herr hn h)

theorem of_moves (hturn : job.Turn rule scene (.moves job' scene'))
    (h : job'.Goes a rule view scene' log outcome scene'') :
    job.Goes a rule view scene log outcome scene'' := by
  cases hturn with
  | attempts hs =>
    cases h with
    | begins hjob _ => cases hjob
    | ends hr hlast => exact .ends (.moves hs hr) hlast
    | repeats hr herr hn h => exact .repeats (.moves hs hr) herr hn h
  | fails hs herr hn =>
    cases h with
    | begins hjob h =>
      cases hjob
      exact .repeats (.ends hs) herr hn h
  | resumes _ _ =>
    cases h with
    | begins hjob h => exact .begins hjob h

theorem of_ends (hturn : job.Turn rule scene (.ends outcome)) :
    job.Goes a rule view scene [] outcome scene := by
  cases hturn with
  | aborts hjob hc =>
    rcases hjob with ⟨n, rfl⟩ | ⟨n, time, rfl⟩
    · exact .begins rfl (.aborts hc)
    · exact .begins rfl (.aborts hc)
  | ends hs hlast => exact .ends (.ends hs) hlast

end Goes

end Runner.Job

namespace Phase

def isPreparing : Phase → Bool
  | .resolving _ _ => true
  | .loading => true
  | _ => false

def NeverBreaks : Phase → Prop
  | .working _ (.attempting _ script) => script.NeverBreaks
  | .recovering _ script => script.NeverBreaks
  | .succeeding _ _ script => script.NeverBreaks
  | _ => True

inductive Rest (a : Action) (rule : RetryRule) (view : CallView) (C : Prop) (r : Run) :
    Phase → List Stage → Prop where
  | works {v : Json} {job : Job} {scene scene' : Scene} {attempts hook rest : List Stage}
    {outcome settled : Except RunError Json}
    (hg : job.Goes a rule view (r.scene v) attempts outcome scene)
    (hr : a.Recovers view outcome scene hook settled scene')
    (hc : a.Concludes view C settled scene' rest) :
    Rest a rule view C r (.working v job) (attempts ++ (hook ++ rest))
  | recovers {v : Json} {script : Script (Except RunError Json)} {scene : Scene}
    {rest : List Stage} {settled : Except RunError Json}
    (hr : script.Runs (r.scene v) settled scene) (hc : a.Concludes view C settled scene rest) :
    Rest a rule view C r (.recovering v script) rest
  | concludes {v : Json} {settled : Except RunError Json} {rest : List Stage}
    (hc : a.Concludes view C settled (r.scene v) rest) :
    Rest a rule view C r (.concluding v settled) rest
  | follows {v : Json} {result : Entry.Result} {script : Script (Except RunError Unit)}
    {scene : Scene} {outcome : Except RunError Unit}
    (hr : script.Runs (r.scene v) outcome scene) (hc : scene.cancelled = true → C) :
    Rest a rule view C r (.succeeding v result script) [.ends result]
  | ended (hc : r.cancelled = true → C) : Rest a rule view C r .ended []

end Phase

namespace Run

variable {i : Nat} {t t' : CallTask} {sent : List Message} {r r' : Run} {log rest : List Stage}
  {L : Json → Prop}

/-- The scene of a task after a change of the run. -/
theorem scene_passes (hc : r.cancelled = true → r'.cancelled = true) (v : Json) :
    (r.scene v).Passes (r'.scene v) := ⟨rfl, hc⟩

/-- The scene of a script after the run has absorbed what the script did. -/
theorem absorb_passes (s : Scene) (r : Run) : s.Passes ((r.absorb s).scene s.slice) :=
  ⟨rfl, fun hc => absorb_cancelled_of_scene s r hc⟩

/-- Keeping the slice is one operation of the store, or none. -/
theorem storing_keepSlice (a : Action) (v : Json) (outcome : Except RunError Json) (r : Run) :
    (Phase.concluding v outcome).storing r.store (r.keepSlice a v).store = a.keeps v := by
  unfold keepSlice Action.keeps
  cases a.memory with
  | none => simp [Phase.storing]
  | some m => simp [Phase.storing, Store.operations_write, Phase.slice]

theorem endings_of_isPush (hsent : ∀ m ∈ sent, m.IsPush) : Message.endings sent = [] := by
  refine List.map_eq_nil_iff.mpr (List.filterMap_eq_nil_iff.mpr fun m hm => ?_)
  obtain ⟨e, rfl⟩ := hsent m hm
  rfl

section

variable {a : Action} {rule : RetryRule} {view : CallView} {p : Phase} {C : Prop}

/-- The attempts before a step are those after it, and what begins in it. -/
theorem rest_of_goes {v v' : Json} {job job' : Job} {new : List Stage}
    (h : (Phase.working v' job').Rest a rule view C r' rest)
    (hgoes : ∀ {log outcome scene}, job'.Goes a rule view (r'.scene v') log outcome scene →
      job.Goes a rule view (r.scene v) (new ++ log) outcome scene) :
    (Phase.working v job).Rest a rule view C r (new ++ rest) := by
  cases h with
  | works hg hr hcon =>
    rw [← List.append_assoc]
    exact .works (hgoes hg) hr hcon

section

variable {v data : Json} {job : Job} {err : RunError} {result : Entry.Result}

theorem rest_of_succeeds (hc : r.cancelled = true → r'.cancelled = true)
    (hturn : job.Turn rule (r.scene v) (.ends (.ok data)))
    (h : (Phase.concluding v (.ok data)).Rest a rule view C r' rest) :
    (Phase.working v job).Rest a rule view C r rest := by
  cases h with
  | concludes hcon => exact .works (.of_ends hturn) .unneeded (hcon.passes (scene_passes hc v))

theorem rest_of_fails (hc : r.cancelled = true → r'.cancelled = true)
    (hturn : job.Turn rule (r.scene v) (.ends (.error err)))
    (h : (Phase.recovering v (a.onError err view)).Rest a rule view C r' rest) :
    (Phase.working v job).Rest a rule view C r (.recovers v :: rest) := by
  cases h with
  | recovers hr hcon =>
    exact .works (.of_ends hturn) (.runs (.passes (scene_passes hc v) hr)) hcon

theorem rest_of_recovers {script script' : Script (Except RunError Json)} {scene : Scene}
    (hs : script.step (r.scene v) = .moved script' scene)
    (h : (Phase.recovering scene.slice script').Rest a rule view C r' rest)
    (hp : scene.Passes (r'.scene scene.slice)) :
    (Phase.recovering v script).Rest a rule view C r rest := by
  cases h with
  | recovers hr hcon => exact .recovers (.moves hs (.passes hp hr)) hcon

theorem rest_of_recovered {script : Script (Except RunError Json)}
    {settled : Except RunError Json} (hc : r.cancelled = true → r'.cancelled = true)
    (hs : script.step (r.scene v) = .finished settled)
    (h : (Phase.concluding v settled).Rest a rule view C r' rest) :
    (Phase.recovering v script).Rest a rule view C r rest := by
  cases h with
  | concludes hcon => exact .recovers (.ends hs) (hcon.passes (scene_passes hc v))

theorem rest_of_concludes (hc : r.cancelled = true → r'.cancelled = true)
    (hid : result.callId = view.call.id) (hdata : result.data = data)
    (h : (Phase.succeeding v result (a.onSuccess result view)).Rest a rule view C r' rest) :
    (Phase.concluding v (.ok data)).Rest a rule view C r
      (a.keeps v ++ .follows result :: rest) := by
  cases h with
  | follows hr hend =>
    exact .concludes (.succeeds hid hdata (.passes (scene_passes hc v) hr) hend)

theorem rest_of_concludesError (hc : r.cancelled = true → r'.cancelled = true)
    (hid : result.callId = view.call.id)
    (hdata : result.data = Entry.Result.errorData err.message)
    (h : Phase.ended.Rest a rule view C r' rest) :
    (Phase.concluding v (.error err)).Rest a rule view C r (a.keeps v ++ .ends result :: rest) := by
  cases h with
  | ended hend => exact .concludes (.fails hid hdata (hend ∘ hc))

theorem rest_of_follows {script script' : Script (Except RunError Unit)} {scene : Scene}
    (hs : script.step (r.scene v) = .moved script' scene)
    (h : (Phase.succeeding scene.slice result script').Rest a rule view C r' rest)
    (hp : scene.Passes (r'.scene scene.slice)) :
    (Phase.succeeding v result script).Rest a rule view C r rest := by
  cases h with
  | follows hr hend => exact .follows (.moves hs (.passes hp hr)) hend

theorem rest_of_finishes {script : Script (Except RunError Unit)} {outcome : Except RunError Unit}
    (hc : r.cancelled = true → r'.cancelled = true)
    (hs : script.step (r.scene v) = .finished outcome)
    (h : Phase.ended.Rest a rule view C r' rest) :
    (Phase.succeeding v result script).Rest a rule view C r (.ends result :: rest) := by
  cases h with
  | ended hend => exact .follows (.ends hs) (hend ∘ hc)

end

/-- What a step of a task that is past the loading adds to the stages of its call is what the course
of the call has there. -/
theorem Conduct.rest_before (h : Conduct i r t t' sent r') (ha : t.action.action = a)
    (hrule : r.retryRule a = rule) (hview : t.view = view) (hpast : t.phase.isPreparing = false)
    (hsafe : t.phase.NeverBreaks) (hrest : t'.phase.Rest a rule view C r' rest) :
    t.phase.Rest a rule view C r
      (t.phase.storing r.store r'.store ++ t.phase.stages t'.phase ++ Message.endings sent ++
        rest) := by
  subst ha hrule hview
  have hc : r.cancelled = true → r'.cancelled = true := h.cancelled
  have hbegin (new : List Stage) {p p' : Phase} {ms : List Message} (hs : r'.store = r.store)
      (hstages : p.stages p' = new) (hms : Message.endings ms = []) :
      p.storing r.store r'.store ++ p.stages p' ++ Message.endings ms = new := by
    rw [hs, Phase.storing_self, hstages, hms, List.nil_append, List.append_nil]
  cases h with
  | rejects hp _ | fills hp _ _ _ | prepares hp _ | loads hp =>
    rw [hp] at hpast
    cases hpast
  | @enters slice hp _ | @queues slice hp _ =>
    rw [hp, hbegin [] rfl rfl rfl]
    exact rest_of_goes hrest fun hg => .of_upcoming rfl rfl (hg.passes (scene_passes hc slice))
  | @begins slice n hp hc' =>
    rw [hp, hbegin [.attempts n slice] rfl rfl rfl]
    exact rest_of_goes hrest fun hg => .of_begins hc' (hg.passes (scene_passes hc slice))
  | @works slice job job' scene _ hp hturn hsends hcome =>
    have hstages : (Phase.working slice job).stages (.working scene.slice job') = [] := by
      cases hturn <;> rfl
    rw [hp, hbegin [] (r.store_absorb _) hstages (endings_of_isPush hcome.isPush)]
    exact rest_of_goes hrest fun hg => (hg.passes (absorb_passes scene r)).of_moves hturn
  | @succeeds slice data job hp hturn =>
    have hstages : (Phase.working slice job).stages (.concluding slice (.ok data)) = [] := by
      cases job <;> rfl
    rw [hp, hbegin [] r.store_giveBack hstages rfl]
    exact rest_of_succeeds hc hturn hrest
  | @fails slice job err hp hturn =>
    have hstages (script : Script (Except RunError Json)) :
        (Phase.working slice job).stages (.recovering slice script) = [.recovers slice] := by
      cases job <;> rfl
    rw [hp, hbegin [.recovers slice] r.store_giveBack (hstages _) rfl]
    exact rest_of_fails hc hturn hrest
  | crashes hp hturn _ =>
    rw [hp] at hsafe
    cases hturn with
    | crashes hs => exact absurd hs hsafe.not_crashed
  | recovers hp hs hsends hcome =>
    rw [hp, hbegin [] (r.store_absorb _) rfl (endings_of_isPush hcome.isPush)]
    exact rest_of_recovers hs hrest (absorb_passes _ r)
  | recovered hp hs =>
    rw [hp, hbegin [] rfl rfl rfl]
    exact rest_of_recovered hc hs hrest
  | recoveryBreaks hp hs _ =>
    rw [hp] at hsafe
    exact absurd hs hsafe.not_crashed
  | @concludes slice data result hp hid hdata _ =>
    have hstored : (Phase.concluding slice (.ok data)).storing r.store
        (((r.draw 1).keepSlice t.action.action slice).setPhase i
          (.succeeding slice result (t.action.action.onSuccess result t.view))).store =
        t.action.action.keeps slice := storing_keepSlice t.action.action slice _ (r.draw 1)
    rw [hp, hstored]
    simpa [Phase.stages, Message.endings] using rest_of_concludes hc hid hdata hrest
  | @concludesError slice err result hp hid hdata _ =>
    have hstored : (Phase.concluding slice (.error err)).storing r.store
        (((r.draw 1).keepSlice t.action.action slice).complete i result).store =
        t.action.action.keeps slice := storing_keepSlice t.action.action slice _ (r.draw 1)
    rw [hp, hstored]
    simpa [Phase.stages, Message.endings, Message.completed?] using
      rest_of_concludesError hc hid hdata hrest
  | follows hp hs hsends hcome =>
    rw [hp, hbegin [] (r.store_absorb _) rfl (endings_of_isPush hcome.isPush)]
    exact rest_of_follows hs hrest (absorb_passes _ r)
  | @finishes slice result script _ hp hs =>
    have hstored : (Phase.succeeding slice result script).storing r.store
        (r.complete i result).store = [] := Phase.storing_self _ _
    rw [hp, hstored]
    exact rest_of_finishes hc hs hrest
  | followBreaks hp hs _ =>
    rw [hp] at hsafe
    exact absurd hs hsafe.not_crashed

/-- A change of the run, of which the task sees at most that it was cancelled, leaves the rest. -/
theorem rest_of_later (hc : r.cancelled = true → r'.cancelled = true)
    (h : p.Rest a rule view C r' rest) : p.Rest a rule view C r rest := by
  have hlater := scene_passes hc
  cases h with
  | works hg hr hcon => exact .works (hg.passes (hlater _)) hr hcon
  | recovers hr hcon => exact .recovers (.passes (hlater _) hr) hcon
  | concludes hcon => exact .concludes (hcon.passes (hlater _))
  | follows hr hend => exact .follows (.passes (hlater _) hr) hend
  | ended hend => exact .ended (hend ∘ hc)

end

/-- A task past the loading keeps its call, and what it runs does not break down. -/
theorem Conduct.past (h : Conduct i r t t' sent r') (hpast : t.phase.isPreparing = false)
    (ha : t.action.action.NeverBreaks) (hsafe : t.phase.NeverBreaks) :
    t'.action = t.action ∧ t'.view = t.view ∧ t'.phase.isPreparing = false ∧
      t'.phase.NeverBreaks := by
  cases h with
  | rejects hp _ | fills hp _ _ _ | prepares hp _ | loads hp =>
    rw [hp] at hpast
    cases hpast
  | begins hp _ => exact ⟨rfl, rfl, rfl, ha.execute _ _ _ _⟩
  | works hp hturn _ _ =>
    rw [hp] at hsafe
    refine ⟨rfl, rfl, rfl, ?_⟩
    cases hturn with
    | attempts hs => exact hsafe.of_moved hs
    | _ => trivial
  | fails hp _ => exact ⟨rfl, rfl, rfl, ha.onError _ _⟩
  | recovers hp hs _ _ =>
    rw [hp] at hsafe
    exact ⟨rfl, rfl, rfl, hsafe.of_moved hs⟩
  | concludes hp _ _ _ => exact ⟨rfl, rfl, rfl, ha.onSuccess _ _⟩
  | follows hp hs _ _ =>
    rw [hp] at hsafe
    exact ⟨rfl, rfl, rfl, hsafe.of_moved hs⟩
  | _ => exact ⟨rfl, rfl, rfl, trivial⟩

/-- While the payload is not complete, no stage of the call begins. -/
theorem Conduct.resolving (h : Conduct i r t t' sent r') (hp : t.phase.isResolving = true) :
    t'.action = t.action ∧ (t'.phase.isPreparing = true ∨ t'.phase = .ended) ∧
      t.phase.storing r.store r'.store ++ t.phase.stages t'.phase ++ Message.endings sent = [] := by
  have hnothing {payload : Json} {todo : List Template} {p : Phase} {ms : List Message}
      (hphase : t.phase = .resolving payload todo) (hs : r'.store = r.store)
      (hm : Message.endings ms = []) :
      t.phase.storing r.store r'.store ++ t.phase.stages p ++ Message.endings ms = [] := by
    rw [hs, Phase.storing_self, hphase, hm]
    rfl
  cases h with
  | rejects hphase _ => exact ⟨rfl, .inr rfl, hnothing hphase rfl rfl⟩
  | fills hphase _ _ _ => exact ⟨rfl, .inl rfl, hnothing hphase rfl rfl⟩
  | prepares hphase _ => exact ⟨rfl, .inl rfl, hnothing hphase rfl rfl⟩
  | _ =>
    rw [‹t.phase = _›] at hp
    cases hp

/-- Where a task stands in the course of its call, when these stages have been seen. A slice that it
has loaded satisfies `L`. -/
inductive OnCourse (L : Json → Prop) (r : Run) (log : List Stage) (t : CallTask) : Prop where
  | prepares (hp : t.phase.isPreparing = true) (hlog : log = [])
  | rejected (hp : t.phase = .ended) (hlog : log = [])
  | goesOn {stored : Json} (hL : L stored) (hp : t.phase.isPreparing = false)
    (hsafe : t.phase.NeverBreaks)
    (h : ∀ C rest, t.phase.Rest t.action.action (r.retryRule t.action.action) t.view C r rest →
      t.action.action.Course (r.retryRule t.action.action) t.view C stored (log ++ rest))

namespace OnCourse

variable {L' : Json → Prop} {u : CallTask}

theorem mono (hL : ∀ v, L v → L' v) (h : OnCourse L r log t) : OnCourse L' r log t := by
  cases h with
  | prepares hp hlog => exact .prepares hp hlog
  | rejected hp hlog => exact .rejected hp hlog
  | goesOn hstored hp hsafe h => exact .goesOn (hL _ hstored) hp hsafe h

/-- Nothing but a permit may come to the task meanwhile. -/
theorem served (hs : r'.setup = r.setup) (hc : r.cancelled = true → r'.cancelled = true)
    (hserved : t.Served u) (h : OnCourse L r log t) : OnCourse L r' log u := by
  have hrule (a : Action) : r'.retryRule a = r.retryRule a := by rw [retryRule, retryRule, hs]
  cases hserved with
  | same =>
    cases h with
    | prepares hp hlog => exact .prepares hp hlog
    | rejected hp hlog => exact .rejected hp hlog
    | goesOn hL hp hsafe h =>
      refine .goesOn hL hp hsafe fun C rest hrest => ?_
      rw [hrule] at hrest ⊢
      exact h C rest (rest_of_later hc hrest)
  | @admitted v hphase =>
    cases h with
    | prepares hp _ =>
      rw [hphase] at hp
      cases hp
    | rejected hp _ => cases hphase.symm.trans hp
    | goesOn hL _ _ h =>
      refine .goesOn hL rfl trivial fun C rest hrest => ?_
      rw [hrule] at hrest ⊢
      refine h C rest ?_
      rw [hphase, ← List.nil_append rest]
      exact rest_of_goes hrest fun hg => .of_upcoming rfl rfl (hg.passes (scene_passes hc v))

/-- The slice is loaded, and the course begins. -/
theorem loads (hL : L (r.loaded t.action.action)) (ht : r.tasks[i]? = some t)
    (hp : t.phase = .loading) (hs : r.stepTask? i = some r') :
    ∃ t', r'.tasks[i]? = some t' ∧ t'.action = t.action ∧ OnCourse L r' (r.staged i) t' := by
  obtain ⟨hstaged, hafter, _⟩ := staged_loading ht hp hs
  refine ⟨_, hafter, rfl, .goesOn hL rfl trivial fun C rest hrest => ?_⟩
  rw [hstaged]
  cases hrest with
  | works hg hr hcon =>
    cases hg with
    | begins hjob h =>
      cases hjob
      rw [List.singleton_append, ← List.cons_append]
      exact .intro rfl h hr hcon

/-- A step of the task itself. -/
theorem steps (ht : r.tasks[i]? = some t) (hs : r.stepTask? i = some r')
    (ha : t.action.action.NeverBreaks) (hL : t.phase = .loading → L (r.loaded t.action.action))
    (h : OnCourse L r log t) :
    ∃ t', r'.tasks[i]? = some t' ∧ t'.action = t.action ∧
      OnCourse L r' (log ++ r.staged i) t' := by
  obtain ⟨s, t', sent, hs', hconduct⟩ := stepTask?_conduct hs
  obtain rfl : t = s := Option.some.inj (ht.symm.trans hs')
  have hsteps := hconduct.steps ht
  have hstaged := staged_of_stepTask? hs ht hconduct
  cases h with
  | rejected hp _ =>
    have hover := hconduct.isOver_eq
    simp [CallTask.isOver, hp] at hover
  | prepares hp hlog =>
    subst hlog
    rw [List.nil_append]
    cases hphase : t.phase with
    | loading => exact loads (hL hphase) ht hphase hs
    | resolving payload todo =>
      obtain ⟨haction, hphase', hnothing⟩ := hconduct.resolving (by rw [hphase]; rfl)
      refine ⟨t', hsteps.after, haction, ?_⟩
      rw [hstaged, hnothing]
      rcases hphase' with hpreparing | hended
      · exact .prepares hpreparing rfl
      · exact .rejected hended rfl
    | _ =>
      rw [hphase] at hp
      cases hp
  | goesOn hstored hp hsafe h =>
    obtain ⟨haction, hview, hpast, hsafe'⟩ := hconduct.past hp ha hsafe
    have hrule : r'.retryRule t.action.action = r.retryRule t.action.action := by
      rw [retryRule, retryRule, hsteps.setup]
    refine ⟨t', hsteps.after, haction, .goesOn hstored hpast hsafe' fun C rest hrest => ?_⟩
    rw [haction, hview, hrule] at hrest ⊢
    rw [List.append_assoc, hstaged]
    exact h C _ (hconduct.rest_before rfl rfl rfl hp hsafe hrest)

end OnCourse

end Run

end TagLedger
