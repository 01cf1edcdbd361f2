import Mathlib.Tactic.Common
import TagLedger.Proofs.Call.Replies
import TagLedger.Proofs.Run.Admission
import TagLedger.Proofs.Run.Progress

/-!
References between calls. Calls refer to each other by number, that is, by the order in which they
were accepted; in which order they end has no influence on what such a template is replaced by. The
call fails if its template refers to itself or to a later call, to a call that failed, or to a value
that is not in the result.
-/

namespace TagLedger

open Sources (callsKey)

structure Template.Standing (payload : Json) (todo : List Template) : Prop where
  places : ∀ t ∈ todo, ∃ old, payload.at? t.path = some old
  apart : todo.Pairwise fun t t' => t.path.Apart t'.path

namespace Template.Standing

variable {payload : Json} {todo rest : List Template} {template : Template}

theorem of_ofCall {actions : List BoundAction} {c : Entry.Call} {p : PreparedCall}
    (h : PreparedCall.ofCall actions c = .ok p) : Standing p.payload p.templates := by
  obtain ⟨_, _, hread, htemplates⟩ := PreparedCall.of_ofCall h
  obtain ⟨hat, hapart⟩ := detect_stands (Json.tidy_of_readPayload hread)
  rw [htemplates]
  exact ⟨fun t ht => ⟨_, hat t ht⟩, hapart⟩

/-- A template that stands in the payload is replaced in its place, and the others still stand. -/
theorem substitute (h : Standing payload (template :: rest)) (v : Json) :
    ∃ payload', template.substitute payload v = (payload', none) ∧
      payload'.at? template.path = some v ∧
      (∀ p, template.path.Apart p → payload'.at? p = payload.at? p) ∧ Standing payload' rest := by
  obtain ⟨⟨old, hold⟩, hplaces⟩ := List.forall_mem_cons.mp h.places
  obtain ⟨hfirst, hapart⟩ := List.pairwise_cons.mp h.apart
  obtain ⟨hblocked, hself⟩ := Json.at?_write_self hold v
  have hothers (p : Path) (hp : template.path.Apart p) :
      (Json.write v payload template.path).target.at? p = payload.at? p :=
    Json.at?_write_of_apart hold hp v
  refine ⟨(Json.write v payload template.path).target, ?_, hself, hothers, fun t ht => ?_, hapart⟩
  · rw [Template.substitute, hblocked]
    rfl
  · rw [hothers t.path (hfirst t ht)]
    exact hplaces t ht

end Template.Standing

namespace Run

variable {i k : Nat} {t t' : CallTask} {sent : List Message} {r r' r₀ q : Run} {m : Message}
  {h : List (Run × Message)} {ms : List Move} {x : Run × Entry.Call} {e : Execution}
  {p : PreparedCall} {template : Template} {path : String}

def TemplatesStand (r : Run) : Prop :=
  ∀ t ∈ r.tasks, ∀ payload todo, t.phase = .resolving payload todo →
    Template.Standing payload todo

namespace TemplatesStand

theorem congr (hr : TemplatesStand r) (ht : r'.tasks = r.tasks) : TemplatesStand r' := by
  rw [TemplatesStand, ht]
  exact hr

theorem reception (hr : TemplatesStand q) (hm : Reception q m r') : TemplatesStand r' := by
  cases hm.enlists with
  | same _ htasks => exact hr.congr htasks
  | more _ hp htasks =>
    intro t ht payload todo hphase
    rw [htasks] at ht
    rcases List.mem_append.mp ht with ht | ht
    · exact hr t ht payload todo hphase
    · obtain rfl := List.mem_singleton.mp ht
      obtain ⟨rfl, rfl⟩ := Phase.resolving.inj hphase
      exact .of_ofCall hp

theorem steps (hr : TemplatesStand r) (hs : r.stepTask? i = some r') : TemplatesStand r' := by
  obtain ⟨t, t', sent, ht, hconduct⟩ := stepTask?_conduct hs
  have hsteps := hconduct.steps ht
  intro u hu payload todo hphase
  rcases hsteps.mem_cases hu with rfl | ⟨v, hv, hkept⟩
  · cases hconduct with
    | fills hp hkey hask hfill =>
      obtain ⟨rfl, rfl⟩ := Phase.resolving.inj hphase
      obtain ⟨_, hsame, _, _, hstand⟩ :=
        (hr t (List.mem_of_getElem? ht) _ _ hp).substitute _
      obtain ⟨rfl, _⟩ := Prod.mk.inj (hfill.symm.trans hsame)
      exact hstand
    | _ => cases hphase
  · cases hkept with
    | same => exact hr _ hv payload todo hphase
    | admitted _ => cases hphase

end TemplatesStand

/-- The results that slots keep are in the chain. -/
def ResultsKept (r : Run) : Prop :=
  ∀ (k : Nat) s res, r.ledger.slots[k]? = some s → s.state = .completed res →
    res ∈ resultsOf res.callId r.ledger.chain

namespace ResultsKept

/-- Slots that complete have had their result before, or get it with the end of the chain. -/
theorem grows (hr : ResultsKept r)
    (hchain : ∀ id res, res ∈ resultsOf id r.ledger.chain → res ∈ resultsOf id r'.ledger.chain)
    (hslots : ∀ (k : Nat) s res, r'.ledger.slots[k]? = some s → s.state = .completed res →
      (∃ s', r.ledger.slots[k]? = some s' ∧ s'.state = .completed res) ∨
        res ∈ resultsOf res.callId r'.ledger.chain) : ResultsKept r' := by
  intro k s res hs hstate
  rcases hslots k s res hs hstate with ⟨s', hs', hstate'⟩ | hkept
  · exact hchain _ _ (hr k s' res hs' hstate')
  · exact hkept

theorem logged (hr : ResultsKept r) {own : List String} {es : List Entry}
    (hl : Logs own es r r') : ResultsKept r' := by
  refine hr.grows (fun id res hres => ?_) fun k s res hs hstate => .inl ⟨s, hl.slots ▸ hs, hstate⟩
  rw [hl.chain, resultsOf_append]
  exact List.mem_append_left _ hres

theorem resolved (hr : ResultsKept r) {id : Uuid} {state : CallState} {own : List String}
    {es : List Entry} (hl : Logs own es (r.resolveSlot id state) r')
    (hstate : ∀ res, state = .completed res → .result res ∈ es) : ResultsKept r' := by
  have hchain : r'.ledger.chain = r.ledger.chain ++ es := hl.chain
  refine hr.grows (fun id res hres => ?_) fun k s' res hs' hcompleted => ?_
  · rw [hchain, resultsOf_append]
    exact List.mem_append_left _ hres
  · have hslots : r'.ledger.slots = CallSlot.resolve id state r.ledger.slots := hl.slots
    rcases CallSlot.of_resolve (hslots ▸ hs') with ⟨hs, _⟩ | ⟨s, _, _, rfl⟩
    · exact .inl ⟨s', hs, hcompleted⟩
    · refine .inr ?_
      rw [hchain, resultsOf_append]
      refine List.mem_append_right _ (List.mem_filter.mpr ⟨?_, beq_self_eq_true _⟩)
      exact List.mem_filterMap.mpr ⟨_, hstate res hcompleted, rfl⟩

theorem reception (hr : ResultsKept q) (hm : Reception q m r') : ResultsKept r' := by
  cases hm with
  | plain _ hl =>
    obtain ⟨_, _, hl, _⟩ := hl
    exact hr.logged hl
  | result _ hl => exact hr.logged hl
  | refused _ _ hl => exact hr.logged hl
  | @accepted e c p logged he hp hl =>
    have hopen : ResultsKept (q.openSlot c) := by
      refine hr.grows (fun _ _ hres => hres) fun k s' res hs' hcompleted => .inl ?_
      have hslots : (q.openSlot c).ledger.slots = CallSlot.add q.ledger.slots c.name c.id := rfl
      rw [hslots, CallSlot.add_eq] at hs'
      rcases getElem?_concat hs' with hs' | ⟨_, rfl⟩
      · rcases CallSlot.of_resolve hs' with ⟨hs, _⟩ | ⟨s, _, _, rfl⟩
        · exact ⟨s', hs, hcompleted⟩
        · cases hcompleted
      · cases hcompleted
    have hlogged : ResultsKept logged := hopen.logged hl
    exact hlogged
  | prepared id data =>
    unfold patchCall
    split
    · exact hr
    · rename_i c hsome
      refine hr.grows (fun id' res hres => ?_) fun k s res hs hstate => .inl ⟨s, hs, hstate⟩
      exact resultsOf_replaceFirst id' hsome data ▸ hres
  | failed hl => exact hr.resolved hl (by simp)
  | completed hl =>
    refine hr.resolved hl fun res hres => ?_
    rw [CallState.completed.inj hres]
    exact List.mem_singleton_self _

theorem mem_chain (hr : ResultsKept r) {s : CallSlot} {res : Entry.Result}
    (hs : r.ledger.slots[k]? = some s) (hstate : s.state = .completed res) :
    .result res ∈ r.ledger.chain := by
  obtain ⟨hres, _⟩ := List.mem_filter.mp (hr k s res hs hstate)
  obtain ⟨entry, hmem, hresult⟩ := List.mem_filterMap.mp hres
  cases entry with
  | result res' =>
    cases hresult
    exact hmem
  | _ => cases hresult

end ResultsKept

theorem applyAll_standing (hr : TemplatesStand r ∧ ResultsKept r) (ms : List Move) :
    TemplatesStand (r.applyAll ms) ∧ ResultsKept (r.applyAll ms) := by
  refine applyAll_keeps (I := fun _ q => TemplatesStand q ∧ ResultsKept q) (g := [])
    ?_ ?_ ?_ ?_ hr ms
  · intro _ q q' hq hquiet
    refine ⟨hq.1.congr hquiet.tasks, hq.2.grows (fun id res hres => ?_) fun k s res hs hstate =>
      .inl ⟨s, hquiet.slots ▸ hs, hstate⟩⟩
    obtain ⟨es, hes, _⟩ := hquiet.chain
    rw [hes, resultsOf_append]
    exact List.mem_append_left _ hres
  · exact fun hq hm => ⟨hq.1.reception hm, hq.2.reception hm⟩
  · intro _ q m rest q' hq _ hm
    have hstand : TemplatesStand { q with inbox := rest } := hq.1
    have hkept : ResultsKept { q with inbox := rest } := hq.2
    exact ⟨hstand.reception hm, hkept.reception hm⟩
  · intro _ q i q' hq hs
    obtain ⟨t, t', sent, ht, hconduct⟩ := stepTask?_conduct hs
    refine ⟨hq.1.steps hs, ?_⟩
    rw [ResultsKept, (hconduct.steps ht).ledger]
    exact hq.2

/-- What happens to a template that refers to a call, when it is next in the call of slot `k`. -/
inductive ReferenceTurn (k : Nat) (r : Run) (t : CallTask) (payload : Json) (template : Template)
    (rest : List Template) (path : String) : Prop where
  /-- The call that it refers to has not ended, and no step is taken. -/
  | waits (hw : CallSlot.Waits r.ledger.slots k path) (hs : r.stepTask? k = none)
  /-- It is replaced by the value that it stands for. -/
  | replaced {v payload' : Json} {r' : Run} (hv : CallSlot.value? r.ledger.slots k path = some v)
    (hs : r.stepTask? k = some r')
    (ht : r'.tasks[k]? = some { t with phase := .resolving payload' rest })
    (hplace : payload'.at? template.path = some v)
    (hrest : ∀ p, template.path.Apart p → payload'.at? p = payload.at? p)
    (hinbox : r'.inbox = r.inbox)
  /-- It stands for nothing, and the call fails. -/
  | fails {r' : Run} (hw : ¬ CallSlot.Waits r.ledger.slots k path)
    (hv : CallSlot.value? r.ledger.slots k path = none) (hs : r.stepTask? k = some r')
    (ht : r'.tasks[k]? = some { t with phase := .ended })
    (hinbox : r'.inbox = r.inbox ++ [.failed t.call.id
      (Template.Fault.unresolved template.text (Path.dotted template.path)).toError])

theorem ask_callsKey (s : Sources) (path : String) :
    s.ask callsKey path = (s.askCall path).map .answer := by
  rw [Sources.ask, if_pos rfl]

theorem referenceTurn (hstand : TemplatesStand r) (ht : r.tasks[k]? = some t) (hslot : t.slot = k)
    {payload : Json} {rest : List Template}
    (hphase : t.phase = .resolving payload (template :: rest))
    (hkey : template.request? = some (callsKey, path)) :
    ReferenceTurn k r t payload template rest path := by
  have hstep : r.stepTask? k = ((r.sources t).askCall path).map fun a =>
      r.takeReply k t payload template rest (.answer a) := by
    simp only [stepTask?, ht, Option.bind_some, hphase, stepResolving?, hkey]
    rw [ask_callsKey, Option.map_map]
    rfl
  have hreplies := Sources.askCall_replies (s := r.sources t) (congrArg r.ledger.slots.take hslot)
    path
  generalize (r.sources t).askCall path = reply at hstep hreplies
  cases hreplies with
  | waits hw _ => exact .waits hw hstep
  | @stands v _ hv =>
    obtain ⟨payload', hsubst, hplace, hrest, _⟩ :=
      (hstand t (List.mem_of_getElem? ht) payload _ hphase).substitute v
    have htake : r.takeReply k t payload template rest (.answer (.ok (some v))) =
        r.setPhase k (.resolving payload' rest) := by
      simp only [takeReply, Template.fill, hsubst]
    rw [Option.map_some, htake] at hstep
    exact .replaced hv hstep (getElem?_setPhase_self ht _) hplace hrest rfl
  | @lacks a hw hv ha =>
    have hfill := template.fill_of_lacks payload ha
    have htake : r.takeReply k t payload template rest (.answer a) =
        r.reject k t
          (Template.Fault.unresolved template.text (Path.dotted template.path)).toError := by
      simp only [takeReply, hfill]
    rw [Option.map_some, htake] at hstep
    exact .fails hw hv hstep (getElem?_setPhase_self ht _) rfl

/-- A template that refers to a call has the value that it stands for. -/
theorem value?_sources (hslot : t.slot = k) (hkey : template.request? = some (callsKey, path)) :
    (r.sources t).value? template = CallSlot.value? r.ledger.slots k path := by
  have hreplies := Sources.askCall_replies (s := r.sources t) (congrArg r.ledger.slots.take hslot)
    path
  rw [Sources.value?, hkey, Option.bind_some]
  dsimp only
  rw [ask_callsKey]
  generalize (r.sources t).askCall path = reply at hreplies
  cases hreplies with
  | waits _ hv => exact hv.symm
  | stands _ hv => exact hv.symm
  | @lacks a _ hv ha =>
    rw [hv, Option.map_some]
    split
    · rename_i v heq
      exact absurd (Reply.answer.inj (Option.some.inj heq)) (ha v)
    · rfl

/-- References between calls go by the order in which the calls were accepted. -/
structure ReferencesByPlace (ms : List Move) (r₀ : Run) : Prop where
  /-- There is a slot for every accepted call. -/
  length : (r₀.applyAll ms).ledger.slots.length = (acceptedCalls (history ms r₀)).length
  /-- The slots are in the order of the calls; what one keeps is the result of its own call. -/
  slots : ∀ (k : Nat) x, (acceptedCalls (history ms r₀))[k]? = some x →
    ∃ s, (r₀.applyAll ms).ledger.slots[k]? = some s ∧ s.name = x.2.name ∧ s.callId = x.2.id ∧
      ∀ res, s.state = .completed res →
        res.callId = x.2.id ∧ .result res ∈ (r₀.applyAll ms).ledger.chain
  /-- A template that refers to a call is waited for, replaced, or lets its call fail. -/
  turns : ∀ (k : Nat) t payload template rest path, (r₀.applyAll ms).tasks[k]? = some t →
    t.phase = .resolving payload (template :: rest) →
    template.request? = some (callsKey, path) →
      ReferenceTurn k (r₀.applyAll ms) t payload template rest path
  /-- Where an action was executed, every such template had a value, which stood in its place in
  the payload that the schema has made the data of. -/
  executed : ∀ e ∈ executionsIn ms r₀, ∃ x p filled,
    (acceptedCalls (history ms r₀))[e.task]? = some x ∧
    PreparedCall.ofCall x.1.ledger.actions x.2 = .ok p ∧
    (∀ template ∈ Template.detect p.payload, ∀ path,
      template.request? = some (callsKey, path) →
      ∃ v, CallSlot.value? (r₀.applyAll ms).ledger.slots e.task path = some v ∧
        filled.at? template.path = some v) ∧
    PreparedCall.validated p.action.action x.2 filled = .ok e.data
  /-- When no call is in flight, all have ended; one with a template that stands for nothing has
  failed, and its action was not executed. -/
  settled : (r₀.applyAll ms).ledger.inFlight = 0 →
    ∀ (k : Nat) x p, (acceptedCalls (history ms r₀))[k]? = some x →
      PreparedCall.ofCall x.1.ledger.actions x.2 = .ok p →
      ∃ s, (r₀.applyAll ms).ledger.slots[k]? = some s ∧
        ((∃ res, s.state = .completed res) ∨ ∃ reason, s.state = .failed reason) ∧
        ∀ template ∈ Template.detect p.payload, ∀ path,
          template.request? = some (callsKey, path) →
          CallSlot.value? (r₀.applyAll ms).ledger.slots k path = none →
          (∃ reason, s.state = .failed reason) ∧ ∀ e ∈ executionsIn ms r₀, e.task ≠ k

/-- A call whose verdict is its data has values for all its templates that refer to calls. -/
theorem references_of_verdict (hp : PreparedCall.ofCall x.1.ledger.actions x.2 = .ok p)
    (hslot : t.slot = k) {data : Json} (hv : p.verdict x.2 (r.sources t) = some (.ok data))
    (htemplate : template ∈ Template.detect p.payload)
    (hkey : template.request? = some (callsKey, path)) :
    ∃ v, CallSlot.value? r.ledger.slots k path = some v ∧
      (p.filled (r.sources t)).at? template.path = some v := by
  obtain ⟨v, hvalue, hplace⟩ :=
    (PreparedCall.passes_of_verdict_ok hp hv).filled.places template htemplate
  exact ⟨v, value?_sources hslot hkey ▸ hvalue, hplace⟩

/-- Where an action was executed, all templates that refer to calls had values. -/
theorem references_of_executionsIn (hgate : ∀ ms, Gate (history ms r₀) (r₀.applyAll ms))
    (he : e ∈ executionsIn ms r₀) : ∃ x p filled,
      (acceptedCalls (history ms r₀))[e.task]? = some x ∧
      PreparedCall.ofCall x.1.ledger.actions x.2 = .ok p ∧
      (∀ template ∈ Template.detect p.payload, ∀ path,
        template.request? = some (callsKey, path) →
        ∃ v, CallSlot.value? (r₀.applyAll ms).ledger.slots e.task path = some v ∧
          filled.at? template.path = some v) ∧
      PreparedCall.validated p.action.action x.2 filled = .ok e.data := by
  obtain ⟨x, p, hx, hp, _, ⟨t, ht, _, _⟩, hverdict⟩ := verdict_of_executionsIn hgate he
  have hslot := ((hgate ms).serves _ x t hx ht).slot
  refine ⟨x, p, p.filled ((r₀.applyAll ms).sources t), hx, hp, fun template htemplate path hkey =>
    references_of_verdict hp hslot (hverdict t ht) htemplate hkey, ?_⟩
  exact (PreparedCall.passes_of_verdict_ok hp (hverdict t ht)).valid

/-- When no call is in flight, all have completed or failed. -/
theorem ended_of_inFlight_eq_zero (hmail : Mail h r) (hattended : Attended h r)
    (hcounted : Counted r) (hzero : r.ledger.inFlight = 0) {s : CallSlot}
    (hs : r.ledger.slots[k]? = some s) :
    (∃ res, s.state = .completed res) ∨ ∃ reason, s.state = .failed reason := by
  have htold := hmail.states k s hs
  cases hstate : s.state with
  | waiting => exact absurd hstate (hattended.ne_waiting hcounted hzero hs)
  | completed res => exact .inl ⟨res, rfl⟩
  | failed reason => exact .inr ⟨reason, rfl⟩
  | dropped =>
    rw [hstate] at htold
    exact htold.elim

/-- What a completed slot keeps is the result of its own call. -/
theorem callId_of_completed (hmail : Mail h r) (hx : (acceptedCalls h)[k]? = some x)
    {s : CallSlot} (hs : r.ledger.slots[k]? = some s) {res : Entry.Result}
    (hstate : s.state = .completed res) : res.callId = x.2.id := by
  have htold := hmail.states k s hs
  rw [hstate] at htold
  obtain ⟨y, _, _, hy, _, _, htells⟩ := htold
  obtain rfl := Option.some.inj (hx.symm.trans hy)
  cases htells with
  | completed _ _ hres => exact hres

/-- A call does not complete with a template that stands for nothing. -/
theorem ne_completed_of_lacks (hmail : Mail h r) (hx : (acceptedCalls h)[k]? = some x)
    (hp : PreparedCall.ofCall x.1.ledger.actions x.2 = .ok p)
    (htemplate : template ∈ Template.detect p.payload)
    (hkey : template.request? = some (callsKey, path))
    (hnone : CallSlot.value? r.ledger.slots k path = none) {s : CallSlot}
    (hs : r.ledger.slots[k]? = some s) (res : Entry.Result) : s.state ≠ .completed res := by
  intro hstate
  obtain ⟨t, _, ht, _, hserves, _⟩ := hmail.toRoster.exists_task hx
  have htold := hmail.states k s hs
  rw [hstate] at htold
  cases TellsAt.tells htold hx ht hp with
  | completed _ hv _ =>
    obtain ⟨v, hvalue, _⟩ := references_of_verdict hp hserves.slot hv htemplate hkey
    cases hnone.symm.trans hvalue

/-- If no two dispatched calls have the same identifier, references between them go by the order of
their dispatch, whatever the schedule makes of the order in which they end. -/
theorem applyAll_referencesByPlace (setup : Setup) (store : Store) (archive : Archive)
    (subscribers : Subscribers) (ms : List Move)
    (hd : DistinctCalls (history ms (new setup store archive subscribers))) :
    ReferencesByPlace ms (new setup store archive subscribers) := by
  set r₀ := new setup store archive subscribers with hr₀
  have hgate (ms : List Move) : Gate (history ms r₀) (r₀.applyAll ms) :=
    (Gate.new setup store archive subscribers).applyAll ms
  have hmail : Mail (history ms r₀) (r₀.applyAll ms) :=
    (Mail.new setup store archive subscribers).applyAll ms hd
  have hattended : Attended (history ms r₀) (r₀.applyAll ms) :=
    (Attended.new setup store archive subscribers).applyAll ms
  have hcounted : Counted (r₀.applyAll ms) :=
    counted_applyAll_new setup store archive subscribers ms
  obtain ⟨hstand, hkept⟩ : TemplatesStand (r₀.applyAll ms) ∧ ResultsKept (r₀.applyAll ms) := by
    refine applyAll_standing ⟨?_, ?_⟩ ms
    · simp [TemplatesStand, hr₀, new]
    · simp [ResultsKept, hr₀, new, Ledger.empty]
  refine ⟨hmail.length_slots, fun k x hx => ?_, ?_, fun e he =>
    references_of_executionsIn hgate he, fun hzero k x p hx hp => ?_⟩
  · obtain ⟨t, s, ht, hs, _, hname, hid⟩ := hmail.toRoster.exists_task hx
    exact ⟨s, hs, hname, hid, fun res hstate =>
      ⟨callId_of_completed hmail hx hs hstate, hkept.mem_chain hs hstate⟩⟩
  · intro k t payload template rest path ht hphase hkey
    obtain ⟨_, _, _, _, hserves, _⟩ := hmail.toRoster.exists_served ht
    exact referenceTurn hstand ht hserves.slot hphase hkey
  · obtain ⟨t, s, ht, hs, _⟩ := hmail.toRoster.exists_task hx
    have hended := ended_of_inFlight_eq_zero hmail hattended hcounted hzero hs
    refine ⟨s, hs, hended, fun template htemplate path hkey hnone => ⟨?_, fun e he hplace => ?_⟩⟩
    · refine hended.resolve_left ?_
      rintro ⟨res, hstate⟩
      exact ne_completed_of_lacks hmail hx hp htemplate hkey hnone hs res hstate
    · obtain ⟨y, p', _, hy, hp', hvalues, _⟩ := references_of_executionsIn hgate he
      rw [hplace] at hy hvalues
      obtain rfl := Option.some.inj (hx.symm.trans hy)
      obtain rfl := Except.ok.inj (hp.symm.trans hp')
      obtain ⟨v, hvalue, _⟩ := hvalues template htemplate path hkey
      cases hnone.symm.trans hvalue

end Run

open Sample in
/-- The second call ends before the first, and the third is given its data. The fourth refers to
itself and fails. -/
theorem Run.applyAll_referencesByPlace_second_first :
    let ms : List Move :=
      [.start, .push (noteCall 1), .push (callWriting 2 "[true]"),
        .push (callWriting 3 "[\"\x7b\x7bcalls.1.data\x7d\x7d\"]"),
        .push (callWriting 4 "[\"\x7b\x7bcalls.3.data\x7d\x7d\"]")] ++
      List.replicate 9 (.task 1) ++ [.deliver, .deliver, .task 3] ++
      List.replicate 9 (.task 0) ++ List.replicate 10 (.task 2) ++ List.replicate 5 .deliver
    DistinctCalls (history ms noteRun) ∧ (noteRun.applyAll ms).ledger.inFlight = 0 ∧
      (executionsIn ms noteRun).map (·.task) = [1, 0, 2] ∧
      (executionsIn ms noteRun).map (·.data) =
        [.arr [.bool true], .obj [], .arr [.arr [.bool true]]] ∧
      ReferencesByPlace ms noteRun := by
  intro ms
  have hd : DistinctCalls (history ms noteRun) := by
    unfold DistinctCalls
    decide +kernel
  have hzero : (noteRun.applyAll ms).ledger.inFlight = 0 := by decide +kernel
  have htasks : (executionsIn ms noteRun).map (·.task) = [1, 0, 2] := by decide +kernel
  have hdata : (executionsIn ms noteRun).map (·.data) =
      [.arr [.bool true], .obj [], .arr [.arr [.bool true]]] := by decide +kernel
  have hplace : ReferencesByPlace ms noteRun :=
    applyAll_referencesByPlace noteSetup Store.empty Archive.empty Subscribers.empty ms hd
  exact ⟨hd, hzero, htasks, hdata, hplace⟩

end TagLedger
