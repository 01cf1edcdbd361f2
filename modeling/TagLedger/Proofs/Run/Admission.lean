import Mathlib.Tactic.Common
import TagLedger.Proofs.Call.Passes
import TagLedger.Proofs.Run.Executions
import TagLedger.Proofs.Run.Noted
import TagLedger.Proofs.Run.Settle

/-!
Admission of calls to their actions. An action is executed for a call only if the call names an
action that was bound at a start, its content is a payload, every template in the payload has got a
value, and the payload with these values passes the schema of the action; all its attempts are given
the data that comes of this, which is also noted in the chain. A call that does not get so far is
never executed, and no other call is concerned by that.
-/

namespace TagLedger

namespace Run

variable {i k : Nat} {t t' : CallTask} {sent : List Message} {r r' r₀ q : Run} {m : Message}
  {h : List (Run × Message)} {ms : List Move} {x : Run × Entry.Call} {e : Execution}
  {p : PreparedCall} {c : Entry.Call}

/-- The actions are those that a start of the schedule bound to the working memory it loaded. -/
def BoundBy (ms : List Move) (r : Run) (actions : List BoundAction) : Prop :=
  ∃ before after memory store, ms = before ++ .start :: after ∧
    WorkingMemory.load (r.applyAll before).memoryKey (r.applyAll before).store =
      (.ok memory, store) ∧
    actions = Action.prepare r.setup.catalog.actions r.setup.context r.setup.subContexts memory

theorem Trace.actions {S : Nat → Prop} (ht : Trace S r h q) :
    (∀ y ∈ h, y.1.ledger.actions = r.ledger.actions) ∧ q.ledger.actions = r.ledger.actions := by
  have hlater {g : List (Run × Message)} {q' : Run} (hg : ∀ y ∈ g, y.1.ledger.actions =
      r.ledger.actions) (hq : q'.ledger.actions = r.ledger.actions) (m : Message) :
      ∀ y ∈ g ++ [(q', m)], y.1.ledger.actions = r.ledger.actions := by
    intro y hy
    rcases List.mem_append.mp hy with hy | hy
    · exact hg y hy
    · rw [List.mem_singleton.mp hy]
      exact hq
  induction ht with
  | refl => exact ⟨by simp, rfl⟩
  | calm _ hc ih =>
    refine ⟨ih.1, Eq.trans ?_ ih.2⟩
    cases hc with
    | logs hl =>
      obtain ⟨_, _, hl, _⟩ := hl
      exact hl.actions
    | cancels => rfl
    | waits ms => rfl
  | tells _ e ih =>
    exact ⟨hlater ih.1 ih.2 _, (receive_reception _ _).bound.2.trans ih.2⟩
  | @delivers _ q m rest _ hm ih =>
    have htaken : ({ q with inbox := rest } : Run).ledger.actions = r.ledger.actions := ih.2
    exact ⟨hlater ih.1 htaken m, (receive_reception m _).bound.2.trans htaken⟩
  | steps _ _ hs ih =>
    obtain ⟨t, t', sent, ht, hconduct⟩ := stepTask?_conduct hs
    exact ⟨ih.1, (congrArg Ledger.actions (hconduct.steps ht).ledger).trans ih.2⟩

/-- A start leaves the actions as they are or binds them to the memory that it loads. -/
theorem actions_start (r : Run) : (r.apply .start).ledger.actions = r.ledger.actions ∨
    BoundBy [.start] r (r.apply .start).ledger.actions := by
  rcases apply_start r with happly | happly
  · rw [happly]
    cases hload : WorkingMemory.load r.memoryKey r.store with
    | mk outcome store =>
      cases outcome with
      | error err =>
        refine .inl ?_
        rw [start, hload]
      | ok memory =>
        refine .inr ⟨[], [], memory, store, rfl, hload, ?_⟩
        have htrace := start_trace (S := fun _ => False) hload
        exact htrace.actions.2
  · rw [happly]
    exact .inl rfl

/-- Whenever a message is taken, the actions are those that the run came with or those that a start
of the schedule has bound. -/
theorem history_actions {y : Run × Message} (hy : y ∈ history ms r) :
    y.1.ledger.actions = r.ledger.actions ∨ BoundBy ms r y.1.ledger.actions := by
  induction ms generalizing r with
  | nil => cases hy
  | cons m ms ih =>
    rcases List.mem_append.mp hy with hy | hy
    · by_cases hm : m = .start
      · rw [hm] at hy
        cases hy
      · exact .inl ((apply_trace hm r).actions.1 y hy)
    · rcases ih hy with hsame | ⟨before, after, memory, store, rfl, hload, hactions⟩
      · by_cases hm : m = .start
        · subst hm
          rw [hsame]
          refine (actions_start r).imp id ?_
          rintro ⟨before, after, memory, store, hms, hload, hactions⟩
          refine ⟨before, after ++ ms, memory, store, ?_, hload, hactions⟩
          rw [← List.singleton_append, hms, List.append_assoc, List.cons_append]
        · exact .inl (hsame.trans (apply_trace hm r).actions.2)
      · refine .inr ⟨m :: before, after, memory, store, rfl, hload, ?_⟩
        have hsetup : (r.apply m).setup = r.setup := (r.applyAll_grows [m]).setup
        rw [hactions, hsetup]

/-- A call that is accepted finds its action among those that a start has bound, if none was bound
before. -/
theorem boundBy_of_accepted (hnone : r₀.ledger.actions = [])
    (hx : x ∈ acceptedCalls (history ms r₀)) {b : BoundAction} (hb : b ∈ x.1.ledger.actions) :
    BoundBy ms r₀ x.1.ledger.actions := by
  obtain ⟨y, hy, hcallOf⟩ := List.mem_filterMap.mp (List.mem_filter.mp hx).1
  obtain ⟨c, _, rfl⟩ := Option.map_eq_some_iff.mp hcallOf
  refine (history_actions hy).resolve_left fun hsame => ?_
  have hempty : y.1.ledger.actions = [] := hsame.trans hnone
  rw [hempty] at hb
  cases hb

/-- How an execution was come by: the call `x.2` of its task was accepted in the run `x.1` as `p`,
and has passed; `t` is its task after the schedule. -/
structure Admitted (ms : List Move) (r₀ : Run) (e : Execution) (x : Run × Entry.Call)
    (p : PreparedCall) (t : CallTask) : Prop where
  call : (acceptedCalls (history ms r₀))[e.task]? = some x
  task : (r₀.applyAll ms).tasks[e.task]? = some t
  /-- The action is the one of the bound actions that the call names. -/
  bound : BoundBy ms r₀ x.1.ledger.actions
  action : p.action ∈ x.1.ledger.actions ∧ p.action.name = x.2.name ∧ e.action = p.action.action
  /-- The content of the call was read. -/
  payload : PreparedCall.Writes x.2.content p.payload
  /-- Every template has its value, and the data is what the schema made of the payload. -/
  passes : p.Passes x.2 ((r₀.applyAll ms).sources t) e.data
  /-- The chain has the call with the data, or gets it with a message that is on its way. -/
  noted : chainCall? x.2.id (r₀.applyAll ms).ledger.chain = some { x.2 with data := some e.data } ∨
    chainCall? x.2.id (r₀.applyAll ms).ledger.chain = some x.2 ∧
      .prepared x.2.id e.data ∈ (r₀.applyAll ms).inbox

/-- Whatever is executed for a call has got past the gate, and the verdict stays. -/
theorem verdict_of_executionsIn (hgate : ∀ ms, Gate (history ms r₀) (r₀.applyAll ms))
    (he : e ∈ executionsIn ms r₀) :
    ∃ x p, (acceptedCalls (history ms r₀))[e.task]? = some x ∧
      PreparedCall.ofCall x.1.ledger.actions x.2 = .ok p ∧ e.action = p.action.action ∧
      PastGate e.task { x.2 with data := some e.data } (r₀.applyAll ms) ∧
      ∀ t, (r₀.applyAll ms).tasks[e.task]? = some t →
        p.verdict x.2 ((r₀.applyAll ms).sources t) = some (.ok e.data) := by
  obtain ⟨before, after, hms, hexecuted⟩ := exists_move_of_executionsIn he
  have hfinal : r₀.applyAll ms = (r₀.applyAll before).applyAll (.task e.task :: after) := by
    rw [hms, applyAll_append]
  have hhistory : history ms r₀ =
      history before r₀ ++ history (.task e.task :: after) (r₀.applyAll before) := by
    rw [hms, history_append]
  obtain ⟨t, slice, ht, hphase, hexecution, _⟩ := begins_of_executed hexecuted
  obtain ⟨x, p, hx, _, hp, haction, hgated⟩ := (hgate before).exists_gated ht
  obtain ⟨data, hverdict, hcall⟩ :=
    hgated.passed_of_phase (by rw [hphase]; rfl) (by simp [CallTask.isOver, hphase])
  have hdata : e.data = data := by
    rw [hexecution, hcall]
    rfl
  refine ⟨x, p, hhistory ▸ getElem?_acceptedCalls_append hx _, hp, ?_, ?_, fun t' ht' => ?_⟩
  · rw [hexecution, haction]
  · rw [hfinal, hdata, ← hcall]
    exact PastGate.applyAll ⟨t, ht, by rw [hphase]; rfl, rfl⟩ _
  · have hgrows := (r₀.applyAll before).applyAll_grows (.task e.task :: after)
    rw [← hfinal] at hgrows
    obtain ⟨t'', ht'', hfollows⟩ := hgrows.tasks _ t ht
    obtain rfl := Option.some.inj (ht''.symm.trans ht')
    have hslot : t.slot ≤ (r₀.applyAll before).ledger.slots.length := by
      obtain ⟨hlt, _⟩ := List.getElem?_eq_some_iff.mp hx
      rw [((hgate before).serves _ x t hx ht).slot, (hgate before).length_slots]
      exact Nat.le_of_lt hlt
    rw [hdata]
    exact PreparedCall.verdict_grows (hgrows.sources hfollows hslot) hverdict

/-- Whatever is executed was admitted. -/
theorem admitted_of_executionsIn (hgate : ∀ ms, Gate (history ms r₀) (r₀.applyAll ms))
    (hnoted : Noted (history ms r₀) (r₀.applyAll ms)) (hnone : r₀.ledger.actions = [])
    (he : e ∈ executionsIn ms r₀) : ∃ x p t, PreparedCall.ofCall x.1.ledger.actions x.2 = .ok p ∧
      Admitted ms r₀ e x p t := by
  obtain ⟨x, p, hx, hp, haction, ⟨t, ht, _, hcall⟩, hverdict⟩ := verdict_of_executionsIn hgate he
  obtain ⟨hmem, hname, hread, _⟩ := PreparedCall.of_ofCall hp
  refine ⟨x, p, t, hp, hx, ht, ?_, ⟨hmem, hname, haction⟩,
    PreparedCall.writes_of_readPayload hread,
    PreparedCall.passes_of_verdict_ok hp (hverdict t ht), ?_⟩
  · exact boundBy_of_accepted hnone (List.mem_of_getElem? hx) hmem
  · rcases hnoted.noted _ x t hx ht with hdone | ⟨hplain, data, hdata, hcoming⟩
    · exact .inl (hcall ▸ hdone)
    · have hsame : some data = some e.data := congrArg Entry.Call.data (hdata.symm.trans hcall)
      obtain rfl := Option.some.inj hsame
      exact .inr ⟨hplain, hcoming⟩

/-- A call that fails at any time is never executed, neither before nor after. -/
theorem task_ne_of_fails (hgate : ∀ ms, Gate (history ms r₀) (r₀.applyAll ms))
    {before after : List Move} (hms : ms = before ++ after)
    (hx : (acceptedCalls (history before r₀))[k]? = some x)
    (ht : (r₀.applyAll before).tasks[k]? = some t)
    (hp : PreparedCall.ofCall x.1.ledger.actions x.2 = .ok p)
    (hfails : p.Fails x.2 ((r₀.applyAll before).sources t)) (he : e ∈ executionsIn ms r₀) :
    e.task ≠ k := by
  rintro rfl
  obtain ⟨x', p', hx', hp', _, _, hverdict⟩ := verdict_of_executionsIn hgate he
  have hx := getElem?_acceptedCalls_append hx (history after (r₀.applyAll before))
  rw [← history_append, ← hms] at hx
  obtain rfl := Option.some.inj (hx.symm.trans hx')
  obtain rfl := Except.ok.inj (hp.symm.trans hp')
  have hgrows := (r₀.applyAll before).applyAll_grows after
  rw [← applyAll_append, ← hms] at hgrows
  obtain ⟨t', ht', hfollows⟩ := hgrows.tasks _ t ht
  have hslot : t.slot ≤ (r₀.applyAll before).ledger.slots.length := by
    obtain ⟨y, _, hy, hs, hserves, _⟩ := (hgate before).toRoster.exists_served ht
    obtain ⟨hlt, _⟩ := List.getElem?_eq_some_iff.mp hs
    rw [hserves.slot]
    exact Nat.le_of_lt hlt
  exact hfails.verdict_ne hp (hgrows.sources hfollows hslot) (hverdict t' ht')

/-- All attempts of a task run the same action on the same data. -/
theorem alike_of_task_eq (hgate : ∀ ms, Gate (history ms r₀) (r₀.applyAll ms))
    (he : e ∈ executionsIn ms r₀) {e' : Execution} (he' : e' ∈ executionsIn ms r₀)
    (htask : e'.task = e.task) : e'.action = e.action ∧ e'.data = e.data := by
  obtain ⟨x, p, hx, hp, haction, ⟨t, ht, _, hcall⟩, _⟩ := verdict_of_executionsIn hgate he
  obtain ⟨x', p', hx', hp', haction', ⟨t', ht', _, hcall'⟩, _⟩ :=
    verdict_of_executionsIn hgate he'
  rw [htask] at hx' ht'
  obtain rfl := Option.some.inj (hx.symm.trans hx')
  obtain rfl := Except.ok.inj (hp.symm.trans hp')
  obtain rfl := Option.some.inj (ht.symm.trans ht')
  have hsame : some e'.data = some e.data := congrArg Entry.Call.data (hcall'.symm.trans hcall)
  exact ⟨haction'.trans haction.symm, Option.some.inj hsame⟩

/-- How a call is turned away: it is refused when it is dispatched, its task is rejected, or the
dispatcher is told so. -/
inductive TurnsAway (id : Uuid) (r : Run) : Run → Prop where
  | refuses {c : Entry.Call} {err : RunError} (hid : c.id = id)
    (hp : PreparedCall.ofCall r.ledger.actions c = .error err) : TurnsAway id r (r.dispatch c)
  | rejects {i : Nat} {t : CallTask} {err : RunError} {r' : Run} (ht : r.tasks[i]? = some t)
    (hid : t.call.id = id) (hs : r.stepTask? i = some r')
    (hsent : r'.inbox = r.inbox ++ [.failed id err]) : TurnsAway id r r'
  | tells {err : RunError} {rest : List Message} (h : r.inbox = .failed id err :: rest) :
    TurnsAway id r r.deliver

structure Spares (id : Uuid) (r r' : Run) : Prop where
  tasks : ∀ (j : Nat) t, r.tasks[j]? = some t → t.call.id ≠ id → r'.tasks[j]? = some t
  slots : ∀ (j : Nat) s, r.ledger.slots[j]? = some s → s.callId ≠ id →
    r'.ledger.slots[j]? = some s
  messages : (r'.inbox.filter fun m => !m.ends id) = r.inbox.filter fun m => !m.ends id
  permits : r'.permits = r.permits
  executions : r'.executions = r.executions
  actions : r'.ledger.actions = r.ledger.actions
  cancelled : r'.cancelled = r.cancelled
  /-- Of the store only working memory is written. -/
  cells : ∀ key, key ≠ r.memoryKey → r'.store.value? key = r.store.value? key
  /-- The chain grows at its end, by no other call and by no result. -/
  chain : ∃ es, r'.ledger.chain = r.ledger.chain ++ es ∧
    ∀ e ∈ es, e.kind ≠ .result ∧ (e.kind = .call → e.id = id)

theorem Spares.of_logs {id : Uuid} {own : List String} {es : List Entry} (hl : Logs own es q r')
    (hsetup : q.setup = r.setup) (htasks : q.tasks = r.tasks)
    (hslots : ∀ (j : Nat) s, r.ledger.slots[j]? = some s → s.callId ≠ id →
      q.ledger.slots[j]? = some s)
    (hmessages : (q.inbox.filter fun m => !m.ends id) = r.inbox.filter fun m => !m.ends id)
    (hpermits : q.permits = r.permits) (hexecutions : q.executions = r.executions)
    (hactions : q.ledger.actions = r.ledger.actions) (hcancelled : q.cancelled = r.cancelled)
    (hstore : q.store = r.store) (hchain : q.ledger.chain = r.ledger.chain)
    (hes : ∀ e ∈ es, e.kind ≠ .result ∧ (e.kind = .call → e.id = id)) : Spares id r r' where
  tasks := fun j t ht _ => by rwa [hl.tasks, htasks]
  slots := fun j s hs hne => by
    rw [hl.slots]
    exact hslots j s hs hne
  messages := by rw [hl.inbox, hmessages]
  permits := hl.permits.trans hpermits
  executions := hl.executions.trans hexecutions
  actions := hl.actions.trans hactions
  cancelled := hl.cancelled.trans hcancelled
  cells := fun key hkey => by
    have hmemory : q.memoryKey = r.memoryKey := by
      unfold memoryKey
      rw [hsetup]
    rw [hl.cells key (hmemory ▸ hkey), hstore]
  chain := ⟨es, by rw [hl.chain, hchain], hes⟩

/-- A call that is turned away concerns no other. -/
theorem TurnsAway.spares {id : Uuid} (h : TurnsAway id r r') : Spares id r r' := by
  cases h with
  | @refuses c err hid hp =>
    obtain ⟨fresh, now, hl⟩ := dispatch_refused hp
    refine .of_logs hl rfl rfl (fun _ _ hs _ => hs) rfl rfl rfl rfl rfl rfl rfl fun e he => ?_
    rcases List.mem_cons.mp he with rfl | he
    · exact ⟨nofun, fun _ => hid⟩
    · obtain ⟨hcall, hresult⟩ := Entry.isPlain_of_mem_ofError he
      exact ⟨hresult, fun hkind => absurd hkind hcall⟩
  | @rejects i t err r' ht hid hs hsent =>
    obtain ⟨u, u', sent, hu, hconduct⟩ := stepTask?_conduct hs
    obtain rfl := Option.some.inj (ht.symm.trans hu)
    replace hsent : sent = [.failed id err] :=
      List.append_cancel_left ((hconduct.steps ht).inbox.symm.trans hsent)
    have hpush {posts : List Post} (hcome : ComeOf posts sent) : False := by
      have hmem : .failed id err ∈ sent := hsent ▸ List.mem_singleton_self _
      obtain ⟨e, he⟩ := hcome.isPush _ hmem
      cases he
    cases hconduct with
    | @rejects payload todo err' hp hrejects =>
      refine ⟨fun j v hv hne => ?_, fun _ _ hs _ => hs, ?_, rfl, rfl, rfl, rfl, fun _ _ => rfl,
        [], (List.append_nil _).symm, by simp⟩
      · have hj : j ≠ i := by
          rintro rfl
          obtain rfl := Option.some.inj (ht.symm.trans hv)
          exact hne hid
        exact (getElem?_setPhase_of_ne hj r _).trans hv
      · have hends : (Message.failed t.call.id err').ends id = true := beq_iff_eq.mpr hid
        simp [reject, send, setPhase, hends]
    | works _ _ _ hcome => exact (hpush hcome).elim
    | recovers _ _ _ hcome => exact (hpush hcome).elim
    | follows _ _ _ hcome => exact (hpush hcome).elim
    | _ => cases hsent
  | @tells err rest hinbox =>
    obtain ⟨fresh, now, hl⟩ := receive_failed id err { r with inbox := rest }
    have hdeliver : r.deliver = receive (.failed id err) { r with inbox := rest } := by
      rw [deliver, hinbox]
    rw [hdeliver]
    refine .of_logs hl rfl rfl (fun j s hs hne => ?_) ?_ rfl rfl rfl rfl rfl rfl fun e he => ?_
    · have hawaits : s.awaits id = false := by simp [CallSlot.awaits, hne]
      simp [resolveSlot, CallSlot.resolve, hs, hawaits]
    · have hends : (Message.failed id err).ends id = true := beq_iff_eq.mpr rfl
      simp [resolveSlot, hinbox, hends]
    · obtain ⟨hcall, hresult⟩ := Entry.isPlain_of_mem_ofError he
      exact ⟨hresult, fun hkind => absurd hkind hcall⟩

/-- No two entries of the chain have the same identifier. -/
def DistinctIds (r : Run) : Prop := (r.ledger.chain.map Entry.id).Nodup

instance (r : Run) : Decidable (DistinctIds r) := inferInstanceAs (Decidable (List.Nodup _))

/-- Actions are executed for calls that have passed, and for no others. -/
structure FailClosed (ms : List Move) (r₀ : Run) : Prop where
  admitted : ∀ e ∈ executionsIn ms r₀, ∃ x p t,
    PreparedCall.ofCall x.1.ledger.actions x.2 = .ok p ∧ Admitted ms r₀ e x p t
  /-- An execution begins with a step of its task, which gives the data to the action. -/
  begun : ∀ e ∈ executionsIn ms r₀, ∃ before after, ms = before ++ .task e.task :: after ∧
    e.Begins (r₀.applyAll before) ((r₀.applyAll before).apply (.task e.task))
  /-- Nothing else is run as an attempt. -/
  attempting : Attempting (executionsIn ms r₀) (r₀.applyAll ms)
  /-- All attempts of a call run the same action on the same data. -/
  attempts : ∀ e ∈ executionsIn ms r₀, ∀ e' ∈ executionsIn ms r₀, e'.task = e.task →
    e'.action = e.action ∧ e'.data = e.data
  /-- The executions of the schedule are all there are. -/
  counted : ∀ name, (r₀.applyAll ms).executionsOf name =
    (executionsIn ms r₀).countP fun e => e.action.name == name
  /-- Nothing is executed for a call that cannot be prepared when it is routed. -/
  refused : ∀ y ∈ routedCalls (history ms r₀), ∀ err,
    PreparedCall.ofCall y.1.ledger.actions y.2 = .error err →
      ∀ e ∈ executionsIn ms r₀, ∀ x, (acceptedCalls (history ms r₀))[e.task]? = some x →
        x.2.id ≠ y.2.id
  /-- Nor is it for a call that fails at any time. -/
  failed : ∀ before after, ms = before ++ after → ∀ (k : Nat) x t p,
    (acceptedCalls (history before r₀))[k]? = some x →
    (r₀.applyAll before).tasks[k]? = some t →
    PreparedCall.ofCall x.1.ledger.actions x.2 = .ok p →
    p.Fails x.2 ((r₀.applyAll before).sources t) → ∀ e ∈ executionsIn ms r₀, e.task ≠ k

/-- Calls are dispatched fail-closed, under every schedule that leaves a chain of entries with
distinct identifiers: what an action is given in any attempt is the data that has passed. And a call
that is turned away concerns no other. -/
theorem applyAll_failClosed (setup : Setup) (store : Store) (archive : Archive)
    (subscribers : Subscribers) (ms : List Move)
    (hids : DistinctIds ((new setup store archive subscribers).applyAll ms)) :
    FailClosed ms (new setup store archive subscribers) ∧
      ∀ id r r', TurnsAway id r r' → Spares id r r' := by
  set r₀ := new setup store archive subscribers with hr₀
  have hgate (ms : List Move) : Gate (history ms r₀) (r₀.applyAll ms) :=
    (Gate.new setup store archive subscribers).applyAll ms
  have hnoted : Noted (history ms r₀) (r₀.applyAll ms) :=
    (Noted.new setup store archive subscribers).applyAll ms hids
  have hadmitted := fun e he => admitted_of_executionsIn (e := e) hgate hnoted rfl he
  have hclosed : FailClosed ms r₀ := by
    constructor
    case admitted => exact hadmitted
    case begun =>
      intro e he
      obtain ⟨before, after, hms, hexecuted⟩ := exists_move_of_executionsIn he
      exact ⟨before, after, hms, begins_apply hexecuted⟩
    case attempting => exact (Attempting.new setup store archive subscribers).applyAll ms
    case attempts =>
      intro e he e' he' htask
      exact alike_of_task_eq hgate he he' htask
    case counted =>
      intro name
      rw [executionsOf_applyAll, hr₀]
      exact Nat.zero_add _
    case refused =>
      intro y hy err herr e he x hx
      obtain ⟨x', p, t, hp, ha⟩ := hadmitted e he
      obtain rfl := Option.some.inj (ha.call.symm.trans hx)
      have hrouted := (List.mem_filter.mp (List.mem_of_getElem? hx)).1
      have hdistinct := hnoted.toRoster.distinctRouted hids
      intro hid
      obtain rfl := List.inj_on_of_nodup_map hdistinct hrouted hy hid
      cases hp.symm.trans herr
    case failed =>
      intro before after hms k x t p hx ht hp hfails e he
      exact task_ne_of_fails hgate hms hx ht hp hfails he
  exact ⟨hclosed, fun _ _ _ h => h.spares⟩

end Run

namespace Sample

/-- The sample action with a second attempt, after a first one that always fails. -/
def patientAction : Action :=
  { noteAction with
    retry := some 1
    execute := fun _ attempt data _ =>
      if attempt = 0 then .done (.error (.failure .action "busy")) else .done (.ok data) }

def patientSetup : Setup := { noteSetup with catalog := ⟨[patientAction], [], []⟩ }

def patientRun : Run := Run.new patientSetup Store.empty Archive.empty Subscribers.empty

def callWriting (n : Nat) (content : String) : Entry :=
  .call
    { toHeader := Header.final ⟨BitVec.ofNat 128 n⟩ noteSetup.epoch
      name := "note", content, data := none, params := [] }

/-- The second call asks for the data of the first, and the third for a value that is not there. -/
def patientMoves : List Move :=
  [.start, .push (noteCall 1), .push (callWriting 2 "[\"\x7b\x7bcalls.0.data\x7d\x7d\"]"),
    .push (callWriting 3 "[\"\x7b\x7bcalls.0.output\x7d\x7d\"]")] ++
  List.replicate 5 (.task 0) ++ [.wait 10000] ++ List.replicate 5 (.task 0) ++
  [.deliver, .deliver, .task 2, .deliver] ++
  List.replicate 6 (.task 1) ++ [.wait 10000] ++ List.replicate 5 (.task 1) ++
  [.deliver, .deliver]

end Sample

open Sample in
/-- Of three calls two are executed, twice each, and their second attempts are given the data as
well: it comes back as the results. -/
theorem Run.applyAll_failClosed_two_of_three :
    DistinctIds (patientRun.applyAll patientMoves) ∧
      (executionsIn patientMoves patientRun).map (fun e => (e.task, e.attempt, e.data)) =
        [(0, 0, .obj []), (0, 1, .obj []), (1, 0, .arr [.obj []]), (1, 1, .arr [.obj []])] ∧
      ((patientRun.applyAll patientMoves).ledger.chain.filterMap Entry.result?).map (·.data) =
        [.obj [], .arr [.obj []]] ∧
      FailClosed patientMoves patientRun := by
  have hids : DistinctIds (patientRun.applyAll patientMoves) := by decide +kernel
  have hexecutions :
      (executionsIn patientMoves patientRun).map (fun e => (e.task, e.attempt, e.data)) =
        [(0, 0, .obj []), (0, 1, .obj []), (1, 0, .arr [.obj []]), (1, 1, .arr [.obj []])] := by
    decide +kernel
  have hresults :
      ((patientRun.applyAll patientMoves).ledger.chain.filterMap Entry.result?).map (·.data) =
        [.obj [], .arr [.obj []]] := by
    decide +kernel
  obtain ⟨hclosed, _⟩ :=
    applyAll_failClosed patientSetup Store.empty Archive.empty Subscribers.empty patientMoves hids
  exact ⟨hids, hexecutions, hresults, hclosed⟩

end TagLedger
