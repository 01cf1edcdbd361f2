import Mathlib.Tactic.Common
import TagLedger.Proofs.Run.Gate

/-!
What tasks tell the dispatcher, and what slots keep of it. If no two accepted calls have the same
identifier, every message about a call is told by the task in its place and agrees with the verdict
on the call; so does every slot that has an outcome, and no slot is dropped.
-/

namespace TagLedger

inductive CallTask.Tells (p : PreparedCall) (c : Entry.Call) (s : Sources) (t : CallTask) :
    Message → Prop where
  | prepared {data : Json} (hp : t.phase.isResolving = false)
    (hv : p.verdict c s = some (.ok data)) (hc : t.call = { c with data := some data }) :
    Tells p c s t (.prepared c.id data)
  | failed {err : RunError} (hp : t.phase = .ended) (hv : p.verdict c s = some (.error err)) :
    Tells p c s t (.failed c.id err)
  | completed {data : Json} {res : Entry.Result} (hp : t.phase = .ended)
    (hv : p.verdict c s = some (.ok data)) (hid : res.callId = c.id) :
    Tells p c s t (.completed res)

def CallState.Told (tells : Message → Prop) (id : Uuid) : CallState → Prop
  | .waiting => True
  | .completed res => tells (.completed res)
  | .failed reason => ∃ err, tells (.failed id err) ∧ err.message = reason
  | .dropped => False

theorem CallState.Told.mono {tells tells' : Message → Prop} (hmono : ∀ m, tells m → tells' m)
    {id : Uuid} {state : CallState} (h : state.Told tells id) : state.Told tells' id := by
  cases state with
  | waiting => trivial
  | completed res => exact hmono _ h
  | failed reason =>
    obtain ⟨err, herr, hreason⟩ := h
    exact ⟨err, hmono _ herr, hreason⟩
  | dropped => exact h

namespace CallTask.Tells

variable {p : PreparedCall} {c : Entry.Call} {s s' : Sources} {t t' : CallTask} {m : Message}

theorem grows (h : t.Tells p c s m) (hs : s.Grows s') : t.Tells p c s' m := by
  cases h with
  | prepared hp hv hc => exact .prepared hp (PreparedCall.verdict_grows hs hv) hc
  | failed hp hv => exact .failed hp (PreparedCall.verdict_grows hs hv)
  | completed hp hv hid => exact .completed hp (PreparedCall.verdict_grows hs hv) hid

theorem kept (h : t.Tells p c s m) (hk : t.Kept t') : t'.Tells p c s m := by
  cases hk with
  | same => exact h
  | admitted hphase =>
    cases h with
    | prepared hp hv hc => exact .prepared rfl hv hc
    | failed hp hv => cases hphase.symm.trans hp
    | completed hp hv hid => cases hphase.symm.trans hp

/-- Data that was told is that of the task's own call. -/
theorem prepared_inv {id : Uuid} {data : Json} (h : t.Tells p c s (.prepared id data)) :
    id = c.id ∧ t.phase.isResolving = false ∧ p.verdict c s = some (.ok data) ∧
      t.call = { c with data := some data } := by
  generalize hm : Message.prepared id data = m at h
  cases h with
  | prepared hp hv hc =>
    cases hm
    exact ⟨rfl, hp, hv, hc⟩
  | failed _ _ => cases hm
  | completed _ _ _ => cases hm

/-- An error that was told is that of the verdict. -/
theorem failed_inv {id : Uuid} {err : RunError} (h : t.Tells p c s (.failed id err)) :
    id = c.id ∧ t.phase = .ended ∧ p.verdict c s = some (.error err) := by
  generalize hm : Message.failed id err = m at h
  cases h with
  | failed hp hv =>
    cases hm
    exact ⟨rfl, hp, hv⟩
  | prepared _ _ _ => cases hm
  | completed _ _ _ => cases hm

end CallTask.Tells

namespace Run

variable {i : Nat} {t t' : CallTask} {sent : List Message} {r r' q : Run} {m : Message}
  {h h' : List (Run × Message)} {p : PreparedCall} {c : Entry.Call}

theorem Conduct.tells_of_tells (hconduct : Conduct i r t t' sent r') {s : Sources}
    (h : t.Tells p c s m) : t'.Tells p c s m := by
  have hover := hconduct.isOver_eq
  cases h with
  | prepared hp hv hc =>
    obtain ⟨hp', hcall⟩ := hconduct.passes hp
    exact .prepared hp' hv (hcall.trans hc)
  | failed hp hv => simp [CallTask.isOver, hp] at hover
  | completed hp hv hid => simp [CallTask.isOver, hp] at hover

/-- What a step sends, the task may tell from then on. -/
theorem Conduct.tells (hconduct : Conduct i r t t' sent r') (ha : t.action = p.action)
    (hown : t.OwnsResult) (hg : t.Gated p c (r.sources t)) (hm : m ∈ sent) :
    m.IsPush ∨ t'.Tells p c (r.sources t) m := by
  have hover := hconduct.isOver_eq
  have hcid : t.call.id = c.id := by
    cases hg with
    | undecided _ hc _ => rw [hc]
    | passed _ _ hc => rw [hc]
    | rejected _ _ hc => rw [hc]
  have hcompleted {res : Entry.Result} (hid : res.callId = t.call.id)
      (hresolving : t.phase.isResolving = false) :
      CallTask.Tells p c (r.sources t) { t with phase := .ended } (.completed res) := by
    obtain ⟨data, hv, _⟩ := hg.passed_of_phase hresolving hover
    exact .completed rfl hv (hid.trans hcid)
  cases hconduct with
  | rejects hp hrejects =>
    rw [List.mem_singleton.mp hm, hcid]
    exact .inr (.failed rfl (hrejects.verdict hp ha hg))
  | prepares hp hdata =>
    rw [List.mem_singleton.mp hm, hcid]
    refine .inr (.prepared rfl (verdict_of_validated hp ha hg hdata) ?_)
    rw [(hg.verdict_eq hp).1]
  | works _ _ _ hcome => exact .inl (hcome.isPush m hm)
  | recovers _ _ _ hcome => exact .inl (hcome.isPush m hm)
  | follows _ _ _ hcome => exact .inl (hcome.isPush m hm)
  | crashes hp _ hresult =>
    rw [List.mem_singleton.mp hm]
    exact .inr (hcompleted (by rw [hresult]; rfl) (by rw [hp]; rfl))
  | recoveryBreaks hp _ hresult =>
    rw [List.mem_singleton.mp hm]
    exact .inr (hcompleted (by rw [hresult]; rfl) (by rw [hp]; rfl))
  | concludesError hp hid _ =>
    rw [List.mem_singleton.mp hm]
    exact .inr (hcompleted hid (by rw [hp]; rfl))
  | finishes hp _ =>
    rw [List.mem_singleton.mp hm]
    exact .inr (hcompleted (hown _ _ _ hp) (by rw [hp]; rfl))
  | followBreaks hp _ hresult =>
    rw [List.mem_singleton.mp hm]
    exact .inr (hcompleted (by rw [hresult]; rfl) (by rw [hp]; rfl))
  | _ => cases hm

def TellsAt (h : List (Run × Message)) (r : Run) (k : Nat) (m : Message) : Prop :=
  ∃ x t p, (acceptedCalls h)[k]? = some x ∧ r.tasks[k]? = some t ∧
    PreparedCall.ofCall x.1.ledger.actions x.2 = .ok p ∧ t.Tells p x.2 (r.sources t) m

/-- What was told from a place was told by the task there of the call there. -/
theorem TellsAt.tells {k : Nat} {x : Run × Entry.Call} (htold : TellsAt h r k m)
    (hx : (acceptedCalls h)[k]? = some x) (ht : r.tasks[k]? = some t)
    (hp : PreparedCall.ofCall x.1.ledger.actions x.2 = .ok p) :
    t.Tells p x.2 (r.sources t) m := by
  obtain ⟨y, u, p', hy, hu, hp', htells⟩ := htold
  obtain rfl := Option.some.inj (hx.symm.trans hy)
  obtain rfl := Option.some.inj (ht.symm.trans hu)
  obtain rfl := Except.ok.inj (hp.symm.trans hp')
  exact htells

theorem TellsAt.grows (hr : Roster h r) (hgrows : Grows r r')
    (haccepted : ∀ (k : Nat) x, (acceptedCalls h)[k]? = some x → (acceptedCalls h')[k]? = some x)
    (htasks : ∀ (k : Nat) t, r.tasks[k]? = some t → r'.tasks[k]? = some t) {k : Nat}
    (ht : TellsAt h r k m) : TellsAt h' r' k m := by
  obtain ⟨x, t, p, hx, ht, hp, htells⟩ := ht
  exact ⟨x, t, p, haccepted k x hx, htasks k t ht, hp,
    htells.grows (Gate.sources_grows hr hgrows hx ht)⟩

theorem TellsAt.reception (hr : Roster h q) (hm : Reception q m r') {k : Nat} {m' : Message}
    (ht : TellsAt h q k m') : TellsAt (h ++ [(q, m)]) r' k m' :=
  ht.grows hr (.reception hm) (fun _ _ hx => getElem?_acceptedCalls_append hx _)
    fun _ _ htask => hm.getElem?_tasks htask

theorem TellsAt.conduct (hsteps : Steps i t t' sent r r') (hconduct : Conduct i r t t' sent r')
    {k : Nat} (ht : TellsAt h r k m) : TellsAt h r' k m := by
  obtain ⟨x, u, p, hx, hu, hp, htells⟩ := ht
  by_cases hk : k = i
  · subst hk
    obtain rfl : t = u := Option.some.inj (hsteps.before.symm.trans hu)
    refine ⟨x, t', p, hx, hsteps.after, hp, ?_⟩
    rw [hsteps.sources_eq hconduct.task_follows.slot]
    exact hconduct.tells_of_tells htells
  · have hrel := hsteps.others k hk
    rw [hu] at hrel
    generalize hafter : r'.tasks[k]? = after at hrel
    cases hrel with
    | @some _ u' hkept =>
      refine ⟨x, u', p, hx, hafter, hp, ?_⟩
      have hsources : r'.sources u' = r.sources u := by
        simp only [sources, contexts, hsteps.ledger, hsteps.setup, hkept.follows.slot]
      rw [hsources]
      exact htells.kept hkept

structure Mail (h : List (Run × Message)) (r : Run) : Prop extends Gate h r where
  own : r.TasksOwn
  inbox : ∀ m ∈ r.inbox, m.IsPush ∨ ∃ k, TellsAt h r k m
  states : ∀ (k : Nat) s, r.ledger.slots[k]? = some s → s.state.Told (TellsAt h r k) s.callId

def DistinctCalls (h : List (Run × Message)) : Prop := ((acceptedCalls h).map (·.2.id)).Nodup

theorem DistinctCalls.left (hd : DistinctCalls (h ++ h')) : DistinctCalls h := by
  rw [DistinctCalls, acceptedCalls, routedCalls_append, List.filter_append, List.map_append] at hd
  exact hd.of_append_left

namespace Mail

theorem eq_of_callId (hd : DistinctCalls h) {j k : Nat} {x y : Run × Entry.Call}
    (hx : (acceptedCalls h)[j]? = some x) (hy : (acceptedCalls h)[k]? = some y)
    (hid : x.2.id = y.2.id) : j = k := by
  have hj : ((acceptedCalls h).map (·.2.id))[j]? = some x.2.id := by simp [hx]
  have hk : ((acceptedCalls h).map (·.2.id))[k]? = some x.2.id := by simp [hy, hid]
  obtain ⟨hlt, _⟩ := List.getElem?_eq_some_iff.mp hj
  exact (List.getElem?_inj hlt hd).mp (hj.trans hk.symm)

theorem quiet (hmail : Mail h r) (hq : Quiet r r') : Mail h r' := by
  have hmono (k : Nat) (m : Message) : TellsAt h r k m → TellsAt h r' k m :=
    TellsAt.grows hmail.toRoster (.quiet hq) (fun _ _ hx => hx) fun _ _ ht => hq.tasks ▸ ht
  refine ⟨hmail.toGate.quiet hq, hq.tasksOwn hmail.own, fun m hm => ?_, fun k s hs => ?_⟩
  · rcases hmail.inbox m (hq.inbox ▸ hm) with hpush | ⟨k, htells⟩
    · exact .inl hpush
    · exact .inr ⟨k, hmono k m htells⟩
  · exact (hmail.states k s (hq.slots ▸ hs)).mono (hmono k)

/-- A message that is told about a call tells it from the place of the call. -/
theorem eq_of_tellsAt (hr : Roster h r) (hd : DistinctCalls h) {j k : Nat} {s : CallSlot}
    (ht : TellsAt h r j m) (hs : r.ledger.slots[k]? = some s) (hends : m.ends s.callId = true) :
    j = k := by
  obtain ⟨x, t, p, hx, _, _, htells⟩ := ht
  obtain ⟨hlt, _⟩ := List.getElem?_eq_some_iff.mp hs
  rw [hr.length_slots, ← hr.tasks] at hlt
  obtain ⟨y, s', hy, hs', _, _, hid⟩ := hr.exists_served (List.getElem?_eq_getElem hlt)
  obtain rfl : s = s' := Option.some.inj (hs.symm.trans hs')
  refine eq_of_callId hd hx hy ?_
  rw [← hid]
  cases htells with
  | prepared _ _ _ => cases hends
  | failed _ _ => exact beq_iff_eq.mp hends
  | completed _ _ hres => exact hres.symm.trans (beq_iff_eq.mp hends)

/-- The slot of the call that a message ends takes its outcome from the message. -/
theorem states_resolve (hmail : Mail h q) (hd : DistinctCalls h) {id : Uuid} (state : CallState)
    (htold : ∃ k, TellsAt h q k m) (hends : ∀ id', m.ends id' = (id == id'))
    (hstate : ∀ tells : Message → Prop, tells m → state.Told tells id) {k : Nat} {s' : CallSlot}
    (hs' : (CallSlot.resolve id state q.ledger.slots)[k]? = some s') :
    s'.state.Told (TellsAt h q k) s'.callId := by
  rcases CallSlot.of_resolve hs' with ⟨hs, _⟩ | ⟨s, hs, hawaits, rfl⟩
  · exact hmail.states k s' hs
  · have hid : s.callId = id := (CallSlot.awaits_iff.mp hawaits).1
    obtain ⟨j, htells⟩ := htold
    obtain rfl := eq_of_tellsAt hmail.toRoster hd htells hs (by rw [hends, hid, beq_self_eq_true])
    exact hid ▸ hstate _ htells

/-- The identifier of a call that is accepted is new to the slots. -/
theorem notMem_slots (hr : Roster h q) {e : Entry} (hd : DistinctCalls (h ++ [(q, .push e)]))
    (he : e.finished = .call c) (hp : PreparedCall.ofCall q.ledger.actions c = .ok p) :
    c.id ∉ q.ledger.slots.map (·.callId) := by
  have hids : q.ledger.slots.map (·.callId) = (acceptedCalls h).map (·.2.id) := by
    have hboth := congrArg (List.map Prod.snd) hr.slots
    simpa only [List.map_map, Function.comp_def] using hboth
  rw [DistinctCalls, acceptedCalls_concat_accepted h he hp, List.map_append,
    List.nodup_append] at hd
  rw [hids]
  exact fun hmem => hd.2.2 c.id hmem c.id (List.mem_singleton_self _) rfl

/-- When a message is taken that was told until then, slots keep what was told. -/
theorem states_reception (hmail : Mail h q) (hd : DistinctCalls (h ++ [(q, m)]))
    (htold : m.IsPush ∨ ∃ k, TellsAt h q k m) (hm : Reception q m r') {k : Nat} {s : CallSlot}
    (hs : r'.ledger.slots[k]? = some s) : s.state.Told (TellsAt h q k) s.callId := by
  have hbefore := DistinctCalls.left hd
  cases hm with
  | plain _ hl =>
    obtain ⟨_, _, hl, _⟩ := hl
    exact hmail.states k s (hl.slots ▸ hs)
  | result _ hl => exact hmail.states k s (hl.slots ▸ hs)
  | refused _ _ hl => exact hmail.states k s (hl.slots ▸ hs)
  | @accepted _ c p logged he hp hl =>
    have hslots : (logged.spawn c p q.ledger.slots.length).ledger.slots =
        q.ledger.slots ++ [⟨c.name, c.id, .waiting⟩] :=
      hl.slots.trans (CallSlot.add_of_not_mem (notMem_slots hmail.toRoster hd he hp) c.name)
    rw [hslots] at hs
    rcases getElem?_concat hs with hs | ⟨_, rfl⟩
    · exact hmail.states k s hs
    · trivial
  | prepared id data => exact hmail.states k s ((patchCall_untouched id data q).slots ▸ hs)
  | @failed id _ _ err _ hl =>
    rw [hl.slots] at hs
    exact hmail.states_resolve hbefore (.failed err.message)
      (htold.resolve_left fun ⟨_, he⟩ => by cases he) (fun _ => rfl) (fun _ h => ⟨err, h, rfl⟩) hs
  | @completed res _ hl =>
    rw [hl.slots] at hs
    exact hmail.states_resolve hbefore (.completed res)
      (htold.resolve_left fun ⟨_, he⟩ => by cases he) (fun _ => rfl) (fun _ h => h) hs

/-- A message is taken that was told until then. -/
theorem reception (hmail : Mail h q) (hd : DistinctCalls (h ++ [(q, m)]))
    (htold : m.IsPush ∨ ∃ k, TellsAt h q k m) (hm : Reception q m r') :
    Mail (h ++ [(q, m)]) r' where
  toGate := hmail.toGate.reception hm
  own := hm.tasksOwn hmail.own
  inbox := fun m' hm' => by
    rcases hmail.inbox m' (hm.inbox ▸ hm') with hpush | ⟨k, htells⟩
    · exact .inl hpush
    · exact .inr ⟨k, htells.reception hmail.toRoster hm⟩
  states := fun k s hs =>
    (hmail.states_reception hd htold hm hs).mono fun _ htells =>
      htells.reception hmail.toRoster hm

theorem steps (hmail : Mail h r) (hs : r.stepTask? i = some r') : Mail h r' := by
  have hadv := stepTask?_advances hs hmail.own
  obtain ⟨t, t', sent, ht, hconduct⟩ := stepTask?_conduct hs
  have hsteps := hconduct.steps ht
  have hmono (k : Nat) (m : Message) : TellsAt h r k m → TellsAt h r' k m :=
    TellsAt.conduct hsteps hconduct
  refine ⟨hmail.toGate.steps hs, hadv.tasksOwn hmail.own, fun m hm => ?_, fun k s hslot => ?_⟩
  · rw [hsteps.inbox] at hm
    rcases List.mem_append.mp hm with hm | hm
    · rcases hmail.inbox m hm with hpush | ⟨k, htells⟩
      · exact .inl hpush
      · exact .inr ⟨k, hmono k m htells⟩
    · obtain ⟨x, p, hx, _, hp, ha, hgated⟩ := hmail.toGate.exists_gated ht
      rcases hconduct.tells ha (hmail.own t (List.mem_of_getElem? ht)) hgated hm with hpush | htells
      · exact .inl hpush
      · refine .inr ⟨i, x, t', p, hx, hsteps.after, hp, ?_⟩
        rwa [hsteps.sources_eq hconduct.task_follows.slot]
  · rw [hsteps.ledger] at hslot
    exact (hmail.states k s hslot).mono (hmono k)

/-- The oldest message is taken away. -/
theorem taken (hmail : Mail h r) {rest : List Message} (hinbox : r.inbox = m :: rest) :
    Mail h { r with inbox := rest } where
  toGate :=
    hmail.toGate.grows (hmail.toRoster.congr rfl rfl rfl) rfl (.of_eq rfl rfl rfl) rfl
  own := hmail.own
  inbox := fun m' hm' => hmail.inbox m' (hinbox ▸ List.mem_cons_of_mem m hm')
  states := hmail.states

theorem applyAll (hmail : Mail h r) (ms : List Move) (hd : DistinctCalls (h ++ history ms r)) :
    Mail (h ++ history ms r) (r.applyAll ms) := by
  refine applyAll_keeps (I := fun g q => DistinctCalls g → Mail g q) ?_ ?_ ?_ ?_ (fun _ => hmail)
    ms hd
  · exact fun ih hq hd => (ih hd).quiet hq
  · exact fun ih hm hd => (ih (DistinctCalls.left hd)).reception hd (.inl ⟨_, rfl⟩) hm
  · intro g q m rest _ ih hinbox hm hd
    have hmail := ih (DistinctCalls.left hd)
    exact (hmail.taken hinbox).reception hd (hmail.inbox m (hinbox ▸ List.mem_cons_self)) hm
  · exact fun ih hs hd => (ih hd).steps hs

theorem new (setup : Setup) (store : Store) (archive : Archive) (subscribers : Subscribers) :
    Mail [] (new setup store archive subscribers) where
  toGate := .new setup store archive subscribers
  own := by simp [TasksOwn, Run.new]
  inbox := by simp [Run.new]
  states := by simp [Run.new, Ledger.empty]

end Mail

end Run

end TagLedger
