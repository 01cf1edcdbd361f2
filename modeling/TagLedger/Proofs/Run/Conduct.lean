import Mathlib.Tactic.Common
import TagLedger.Proofs.Run.Task
import TagLedger.Proofs.Runner.Turn

/-!
Every step that a task can take, with the run that comes out of it: how the templates of a call are
replaced and its payload checked, how its job works under the limit on tasks, and how the call ends.
-/

namespace TagLedger

namespace Run

def ComeOf (posts : List Post) (sent : List Message) : Prop :=
  ∀ m ∈ sent, ∃ p ∈ posts, p.IsSentAs m

theorem ComeOf.isPush {posts : List Post} {sent : List Message} (h : ComeOf posts sent) :
    ∀ m ∈ sent, m.IsPush := by
  intro m hm
  obtain ⟨p, _, hp⟩ := h m hm
  exact hp.push

theorem comeOf_of_posts {posts : List Post} {sent : List Message}
    (h : List.Forall₂ Post.IsSentAs posts sent) : ComeOf posts sent := by
  induction h with
  | nil => simp [ComeOf]
  | @cons p m posts sent hp _ ih =>
    intro m' hm
    rcases List.mem_cons.mp hm with rfl | hm
    · exact ⟨p, List.mem_cons_self, hp⟩
    · obtain ⟨p', hp', hm⟩ := ih m' hm
      exact ⟨p', List.mem_cons_of_mem p hp', hm⟩

theorem absorb_comeOf (s : Scene) (r : Run) :
    ∃ sent, Sends sent r (r.absorb s) ∧ ComeOf s.posts sent := by
  obtain ⟨sent, h, hposts⟩ := r.absorb_sends s
  exact ⟨sent, h, comeOf_of_posts hposts⟩

inductive Rejects (t : CallTask) (s : Sources) (payload : Json) : List Template → RunError → Prop
    where
  | noKey {template : Template} {rest : List Template} (h : template.request? = none) :
    Rejects t s payload (template :: rest) template.noKey.toError
  | crashed {template : Template} {rest : List Template} {key path : String}
    (hkey : template.request? = some (key, path)) (hask : s.ask key path = some .crashed) :
    Rejects t s payload (template :: rest)
      (.failure .template ("resolver panicked while preparing " ++ t.call.name))
  | unfilled {template : Template} {rest : List Template} {key path : String}
    {a : Template.Answer} {fault : Template.Fault} (hkey : template.request? = some (key, path))
    (hask : s.ask key path = some (.answer a)) (hfill : (template.fill payload a).2 = some fault) :
    Rejects t s payload (template :: rest) fault.toError
  | invalid {err : RunError}
    (h : PreparedCall.validated t.action.action t.call payload = .error err) :
    Rejects t s payload [] err

/-- A step of task `i`, which stands at `t`: what becomes of the task, what is sent, and the run
that comes out of it. -/
inductive Conduct (i : Nat) (r : Run) (t : CallTask) : CallTask → List Message → Run → Prop where
  | rejects {payload : Json} {todo : List Template} {err : RunError}
    (hp : t.phase = .resolving payload todo) (h : Rejects t (r.sources t) payload todo err) :
    Conduct i r t { t with phase := .ended } [.failed t.call.id err] (r.reject i t err)
  /-- A template is replaced. -/
  | fills {payload payload' value : Json} {template : Template} {rest : List Template}
    {key path : String} (hp : t.phase = .resolving payload (template :: rest))
    (hkey : template.request? = some (key, path))
    (hask : (r.sources t).ask key path = some (.answer (.ok (some value))))
    (hfill : template.substitute payload value = (payload', none)) :
    Conduct i r t { t with phase := .resolving payload' rest } []
      (r.setPhase i (.resolving payload' rest))
  /-- The payload is complete and valid. -/
  | prepares {payload data : Json} (hp : t.phase = .resolving payload [])
    (hdata : PreparedCall.validated t.action.action t.call payload = .ok data) :
    Conduct i r t { t with call := { t.call with data := some data }, phase := .loading }
      [.prepared t.call.id data]
      ((r.setTask i { t with call := { t.call with data := some data }, phase := .loading }).send
        (.prepared t.call.id data))
  | loads {slice : Json} {store : Store} (hp : t.phase = .loading) :
    Conduct i r t { t with phase := .working slice .asking } []
      ({ r with store }.setPhase i (.working slice .asking))
  /-- A permit is free. -/
  | enters {slice : Json} (hp : t.phase = .working slice .asking) (hfree : 0 < r.permits.free) :
    Conduct i r t { t with phase := .working slice (.admitted 0) } []
      ({ r with permits := ⟨r.permits.free - 1, r.permits.queue⟩ }.setPhase i
        (.working slice (.admitted 0)))
  | queues {slice : Json} (hp : t.phase = .working slice .asking) (hfree : r.permits.free = 0) :
    Conduct i r t { t with phase := .working slice .queued } []
      ({ r with permits := ⟨r.permits.free, r.permits.queue ++ [i]⟩ }.setPhase i
        (.working slice .queued))
  | begins {slice : Json} {n : Nat} (hp : t.phase = .working slice (.admitted n))
    (hc : r.cancelled = false) :
    Conduct i r t
      { t with
        phase := .working slice (.attempting n
          (t.action.action.execute (r.executionsOf t.action.action.name) n
            (t.call.data.getD .null) t.view)) } []
      (r.beginAttempt i t slice n)
  /-- The job of the call goes on, in an attempt or between two. -/
  | works {slice : Json} {job job' : Runner.Job} {scene : Scene} {sent : List Message}
    (hp : t.phase = .working slice job)
    (hturn : job.Turn (r.retryRule t.action.action) (r.scene slice) (.moves job' scene))
    (hsends : Sends sent r (r.absorb scene)) (hcome : ComeOf scene.posts sent) :
    Conduct i r t { t with phase := .working scene.slice job' } sent
      ((r.absorb scene).setPhase i (.working scene.slice job'))
  | succeeds {slice data : Json} {job : Runner.Job} (hp : t.phase = .working slice job)
    (hturn : job.Turn (r.retryRule t.action.action) (r.scene slice) (.ends (.ok data))) :
    Conduct i r t { t with phase := .concluding slice (.ok data) } []
      (r.giveBack.setPhase i (.concluding slice (.ok data)))
  | fails {slice : Json} {job : Runner.Job} {err : RunError} (hp : t.phase = .working slice job)
    (hturn : job.Turn (r.retryRule t.action.action) (r.scene slice) (.ends (.error err))) :
    Conduct i r t { t with phase := .recovering slice (t.action.action.onError err t.view) } []
      (r.giveBack.setPhase i (.recovering slice (t.action.action.onError err t.view)))
  | crashes {slice : Json} {job : Runner.Job} {result : Entry.Result}
    (hp : t.phase = .working slice job)
    (hturn : job.Turn (r.retryRule t.action.action) (r.scene slice) .crashes)
    (hresult : result = r.giveBack.resultOf t (Entry.Result.errorData "action handler panicked")) :
    Conduct i r t { t with phase := .ended } [.completed result] (r.giveBack.breakDown i t)
  /-- The hook after a failure goes on. -/
  | recovers {slice : Json} {script script' : Script (Except RunError Json)} {scene : Scene}
    {sent : List Message} (hp : t.phase = .recovering slice script)
    (hs : script.step (r.scene slice) = .moved script' scene)
    (hsends : Sends sent r (r.absorb scene)) (hcome : ComeOf scene.posts sent) :
    Conduct i r t { t with phase := .recovering scene.slice script' } sent
      ((r.absorb scene).setPhase i (.recovering scene.slice script'))
  | recovered {slice : Json} {script : Script (Except RunError Json)}
    {outcome : Except RunError Json} (hp : t.phase = .recovering slice script)
    (hs : script.step (r.scene slice) = .finished outcome) :
    Conduct i r t { t with phase := .concluding slice outcome } []
      (r.setPhase i (.concluding slice outcome))
  | recoveryBreaks {slice : Json} {script : Script (Except RunError Json)} {result : Entry.Result}
    (hp : t.phase = .recovering slice script) (hs : script.step (r.scene slice) = .crashed)
    (hresult : result = r.resultOf t (Entry.Result.errorData "action handler panicked")) :
    Conduct i r t { t with phase := .ended } [.completed result] (r.breakDown i t)
  /-- The result of a success is settled; the hook after it comes next. -/
  | concludes {slice data : Json} {result : Entry.Result}
    (hp : t.phase = .concluding slice (.ok data))
    (hid : result.callId = t.call.id) (hdata : result.data = data)
    (hdone : result.done = true) :
    Conduct i r t
      { t with phase := .succeeding slice result (t.action.action.onSuccess result t.view) } []
      (((r.draw 1).keepSlice t.action.action slice).setPhase i
        (.succeeding slice result (t.action.action.onSuccess result t.view)))
  | concludesError {slice : Json} {err : RunError} {result : Entry.Result}
    (hp : t.phase = .concluding slice (.error err)) (hid : result.callId = t.call.id)
    (hdata : result.data = Entry.Result.errorData err.message) (hdone : result.done = true) :
    Conduct i r t { t with phase := .ended } [.completed result]
      (((r.draw 1).keepSlice t.action.action slice).complete i result)
  /-- The hook after a success goes on. -/
  | follows {slice : Json} {result : Entry.Result} {script script' : Script (Except RunError Unit)}
    {scene : Scene} {sent : List Message} (hp : t.phase = .succeeding slice result script)
    (hs : script.step (r.scene slice) = .moved script' scene)
    (hsends : Sends sent r (r.absorb scene)) (hcome : ComeOf scene.posts sent) :
    Conduct i r t { t with phase := .succeeding scene.slice result script' } sent
      ((r.absorb scene).setPhase i (.succeeding scene.slice result script'))
  | finishes {slice : Json} {result : Entry.Result} {script : Script (Except RunError Unit)}
    {outcome : Except RunError Unit} (hp : t.phase = .succeeding slice result script)
    (hs : script.step (r.scene slice) = .finished outcome) :
    Conduct i r t { t with phase := .ended } [.completed result] (r.complete i result)
  | followBreaks {slice : Json} {result result' : Entry.Result}
    {script : Script (Except RunError Unit)} (hp : t.phase = .succeeding slice result script)
    (hs : script.step (r.scene slice) = .crashed)
    (hresult : result' = r.resultOf t (Entry.Result.errorData "action handler panicked")) :
    Conduct i r t { t with phase := .ended } [.completed result'] (r.breakDown i t)

variable {i : Nat} {t t' : CallTask} {sent : List Message} {r r' : Run}

theorem Rejects.isRejectionOf {s : Sources} {payload : Json} {todo : List Template}
    {err : RunError} (h : Rejects t s payload todo err) : err.IsRejectionOf t.call.id := by
  cases h with
  | noKey h => exact .inl ⟨_, rfl⟩
  | crashed hkey hask => exact .inl ⟨_, rfl⟩
  | unfilled hkey hask hfill => exact .inl ⟨_, rfl⟩
  | invalid h =>
    unfold PreparedCall.validated at h
    split at h
    · cases h
    · split at h
      · cases h
      · cases h
        exact .inr ⟨t.call, _, rfl, rfl⟩

theorem takeReply_conduct {payload : Json} {template : Template} {rest : List Template}
    {key path : String} {reply : Reply} (hp : t.phase = .resolving payload (template :: rest))
    (hkey : template.request? = some (key, path))
    (hask : (r.sources t).ask key path = some reply) :
    ∃ t' sent, Conduct i r t t' sent (r.takeReply i t payload template rest reply) := by
  unfold takeReply
  cases reply with
  | crashed => exact ⟨_, _, .rejects hp (.crashed hkey hask)⟩
  | answer a =>
    dsimp only
    split
    · rename_i fault hfill
      exact ⟨_, _, .rejects hp (.unfilled hkey hask (by rw [hfill]))⟩
    · rename_i payload' hfill
      unfold Template.fill at hfill
      split at hfill
      · exact ⟨_, _, .fills hp hkey hask hfill⟩
      · cases hfill

theorem stepPrepared_conduct {payload : Json} (hp : t.phase = .resolving payload []) :
    ∃ t' sent, Conduct i r t t' sent (r.stepPrepared i t payload) := by
  unfold stepPrepared
  split
  · rename_i err heq
    exact ⟨_, _, .rejects hp (.invalid heq)⟩
  · rename_i data heq
    exact ⟨_, _, .prepares hp heq⟩

theorem stepLoading_conduct (hp : t.phase = .loading) :
    ∃ t' sent, Conduct i r t t' sent (r.stepLoading i t) := by
  unfold stepLoading
  split
  · exact ⟨_, _, @Conduct.loads i r t .null r.store hp⟩
  · exact ⟨_, _, .loads hp⟩

theorem stepWorking?_conduct {slice : Json} {job : Runner.Job} (hp : t.phase = .working slice job)
    (h : r.stepWorking? i t slice job = some r') : ∃ t' sent, Conduct i r t t' sent r' := by
  unfold stepWorking? at h
  generalize hnext : job.next (r.retryRule t.action.action) (r.scene slice) = s at h
  have hturn : s ≠ .waits → job.Turn (r.retryRule t.action.action) (r.scene slice) s :=
    Runner.Job.turn_of_next hnext
  cases s with
  | waits => cases h
  | asks =>
    cases hturn nofun
    simp only [Runner.Permits.ask] at h
    by_cases hfree : 0 < r.permits.free
    · rw [if_pos hfree] at h
      cases h
      exact ⟨_, _, .enters hp hfree⟩
    · rw [if_neg hfree] at h
      cases h
      exact ⟨_, _, .queues hp (Nat.eq_zero_of_not_pos hfree)⟩
  | begins n =>
    cases h
    cases hturn nofun with
    | begins hc => exact ⟨_, _, .begins hp hc⟩
  | moves job' scene =>
    cases h
    obtain ⟨sent, hsends, hcome⟩ := r.absorb_comeOf scene
    exact ⟨_, _, .works hp (hturn nofun) hsends hcome⟩
  | ends outcome =>
    cases h
    cases outcome with
    | ok data => exact ⟨_, _, .succeeds hp (hturn nofun)⟩
    | error err => exact ⟨_, _, .fails hp (hturn nofun)⟩
  | crashes =>
    cases h
    exact ⟨_, _, .crashes hp (hturn nofun) rfl⟩

theorem stepRecovering?_conduct {slice : Json} {script : Script (Except RunError Json)}
    (hp : t.phase = .recovering slice script)
    (h : r.stepRecovering? i t slice script = some r') : ∃ t' sent, Conduct i r t t' sent r' := by
  unfold stepRecovering? at h
  split at h
  · cases h
  · rename_i script' scene hs
    cases h
    obtain ⟨sent, hsends, hcome⟩ := r.absorb_comeOf scene
    exact ⟨_, _, .recovers hp hs hsends hcome⟩
  · rename_i outcome hs
    cases h
    exact ⟨_, _, .recovered hp hs⟩
  · rename_i hs
    cases h
    exact ⟨_, _, .recoveryBreaks hp hs rfl⟩

theorem stepConcluding_conduct {slice : Json} {outcome : Except RunError Json}
    (hp : t.phase = .concluding slice outcome) :
    ∃ t' sent, Conduct i r t t' sent (r.stepConcluding i t slice outcome) := by
  unfold stepConcluding
  cases outcome with
  | ok data => exact ⟨_, _, .concludes hp rfl rfl rfl⟩
  | error err => exact ⟨_, _, .concludesError hp rfl rfl rfl⟩

theorem stepSucceeding?_conduct {slice : Json} {result : Entry.Result}
    {script : Script (Except RunError Unit)} (hp : t.phase = .succeeding slice result script)
    (h : r.stepSucceeding? i t slice result script = some r') :
    ∃ t' sent, Conduct i r t t' sent r' := by
  unfold stepSucceeding? at h
  split at h
  · cases h
  · rename_i script' scene hs
    cases h
    obtain ⟨sent, hsends, hcome⟩ := r.absorb_comeOf scene
    exact ⟨_, _, .follows hp hs hsends hcome⟩
  · rename_i outcome hs
    cases h
    exact ⟨_, _, .finishes hp hs⟩
  · rename_i hs
    cases h
    exact ⟨_, _, .followBreaks hp hs rfl⟩

/-- Every step of a task is one of these. -/
theorem stepTask?_conduct (h : r.stepTask? i = some r') :
    ∃ t t' sent, r.tasks[i]? = some t ∧ Conduct i r t t' sent r' := by
  obtain ⟨t, ht, h⟩ := Option.bind_eq_some_iff.mp h
  refine ⟨t, ?_⟩
  suffices hconduct : ∃ t' sent, Conduct i r t t' sent r' by
    obtain ⟨t', sent, hconduct⟩ := hconduct
    exact ⟨t', sent, ht, hconduct⟩
  cases hphase : t.phase with
  | resolving payload todo =>
    rw [hphase] at h
    cases todo with
    | nil =>
      cases h
      exact stepPrepared_conduct hphase
    | cons template rest =>
      simp only [stepResolving?] at h
      split at h
      · rename_i hkey
        cases h
        exact ⟨_, _, .rejects hphase (.noKey hkey)⟩
      · rename_i key path hkey
        obtain ⟨reply, hask, rfl⟩ := Option.map_eq_some_iff.mp h
        exact takeReply_conduct hphase hkey hask
  | loading =>
    rw [hphase] at h
    cases h
    exact stepLoading_conduct hphase
  | working slice job =>
    rw [hphase] at h
    exact stepWorking?_conduct hphase h
  | recovering slice script =>
    rw [hphase] at h
    exact stepRecovering?_conduct hphase h
  | concluding slice outcome =>
    rw [hphase] at h
    cases h
    exact stepConcluding_conduct hphase
  | succeeding slice result script =>
    rw [hphase] at h
    exact stepSucceeding?_conduct hphase h
  | ended =>
    rw [hphase] at h
    cases h

namespace Conduct

theorem isOver_eq (h : Conduct i r t t' sent r') : t.isOver = false := by
  cases h <;> rename_i hp <;> simp [CallTask.isOver, *]

/-- What a step does to tasks, ledger and messages. -/
theorem steps (ht : r.tasks[i]? = some t) (h : Conduct i r t t' sent r') :
    Steps i t t' sent r r' := by
  have hpermits (permits : Runner.Permits) : Sends [] r { r with permits } :=
    Sends.of_eq rfl rfl rfl rfl
  have hkeep (slice : Json) : Sends [] r ((r.draw 1).keepSlice t.action.action slice) := by
    rw [keepSlice_frame]
    exact Sends.of_eq rfl rfl rfl rfl
  cases h with
  | rejects hp h => exact reject_steps ht _
  | fills hp hkey hask hfill => exact setPhase_steps ht _
  | prepares hp hdata => exact (setTask_steps ht _).trans_sends (send_sends _ _)
  | @loads slice store hp =>
    have hstore : Sends [] r { r with store } := Sends.of_eq rfl rfl rfl rfl
    exact hstore.setPhase ht _
  | enters hp hfree => exact (hpermits _).setPhase ht _
  | queues hp hfree => exact (hpermits _).setPhase ht _
  | begins hp hc =>
    have hcount : Sends [] r (r.countExecution t.action.action.name) :=
      Sends.of_eq rfl rfl rfl rfl
    exact hcount.setPhase ht _
  | works hp hturn hsends hcome => exact hsends.setPhase ht _
  | succeeds hp hturn => exact giveBack_setPhase_steps ht _
  | fails hp hturn => exact giveBack_setPhase_steps ht _
  | crashes hp hturn hresult =>
    have h := giveBack_setPhase_steps ht .ended
    have h' : Steps i t { t with phase := .ended } [] r ((r.giveBack.draw 1).setPhase i .ended) :=
      ⟨h.setup, h.ledger, h.before, h.after, h.others, h.inbox⟩
    exact hresult ▸ complete_steps _ h' _
  | recovers hp hs hsends hcome => exact hsends.setPhase ht _
  | recovered hp hs => exact setPhase_steps ht _
  | recoveryBreaks hp hs hresult =>
    exact hresult ▸ complete_steps _ ((r.draw_sends 1).setPhase ht .ended) _
  | concludes hp _ _ _ => exact (hkeep _).setPhase ht _
  | concludesError hp _ _ _ => exact complete_steps _ ((hkeep _).setPhase ht .ended) _
  | follows hp hs hsends hcome => exact hsends.setPhase ht _
  | finishes hp hs => exact complete_steps _ (setPhase_steps ht .ended) _
  | followBreaks hp hs hresult =>
    exact hresult ▸ complete_steps _ ((r.draw_sends 1).setPhase ht .ended) _

/-- Either the task goes on, or it sends the one end of its call. -/
theorem progress (h : Conduct i r t t' sent r') (hown : t.OwnsResult) : t.Progress t' sent := by
  have hquiet : ∀ m ∈ ([] : List Message), m.IsPush := by simp
  cases h with
  | rejects hp h => exact .rejected h.isRejectionOf
  | prepares hp hdata => exact .prepared _
  | works hp hturn hsends hcome => exact .goesOn rfl nofun hcome.isPush
  | crashes hp hturn hresult => exact .completed (hresult ▸ rfl)
  | recovers hp hs hsends hcome => exact .goesOn rfl nofun hcome.isPush
  | recoveryBreaks hp hs hresult => exact .completed (hresult ▸ rfl)
  | concludes hp hid hdata hdone =>
    refine .goesOn rfl (fun _ _ _ h => ?_) hquiet
    cases h
    exact hid
  | concludesError hp hid hdata hdone => exact .completed hid
  | follows hp hs hsends hcome =>
    refine .goesOn rfl (fun _ _ _ h => ?_) hcome.isPush
    cases h
    exact hown _ _ _ hp
  | finishes hp hs => exact .completed (hown _ _ _ hp)
  | followBreaks hp hs hresult => exact .completed (hresult ▸ rfl)
  | _ => exact .goesOn rfl nofun hquiet

end Conduct

theorem stepTask?_advances (h : r.stepTask? i = some r') (hown : r.TasksOwn) :
    Advances i r r' := by
  obtain ⟨t, t', sent, ht, hconduct⟩ := stepTask?_conduct h
  have hresult : t.OwnsResult := hown t (List.mem_of_getElem? ht)
  exact ⟨t, t', sent, hconduct.steps ht, hconduct.isOver_eq, hconduct.progress hresult⟩

end Run

end TagLedger
