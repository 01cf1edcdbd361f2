import Mathlib.Tactic.Common
import TagLedger.Proofs.Run.Accounts
import TagLedger.Proofs.Run.Growth

/-!
The calls that were accepted, their slots and their tasks stand in the same order, whatever becomes
of them and whether or not their identifiers differ. A task knows its place, runs the action that
its call named, and has the call that was accepted, but for the data.
-/

namespace TagLedger

/-- A task is that of the call which was accepted as number `k`, in the run of `x`. -/
structure CallTask.Serves (t : CallTask) (k : Nat) (x : Run × Entry.Call) : Prop where
  slot : t.slot = k
  place : x.1.ledger.slots.length = k
  prepared : ∃ p, PreparedCall.ofCall x.1.ledger.actions x.2 = .ok p ∧ t.action = p.action
  call : ∃ data, t.call = { x.2 with data }

namespace CallTask.Serves

variable {t t' : CallTask} {k : Nat} {x : Run × Entry.Call}

theorem callId (h : t.Serves k x) : t.call.id = x.2.id := by
  obtain ⟨data, hd⟩ := h.call
  rw [hd]

theorem follows (h : t.Serves k x) (hf : t.Follows t') : t'.Serves k x where
  slot := hf.slot.trans h.slot
  place := h.place
  prepared := by
    obtain ⟨p, hp, ha⟩ := h.prepared
    exact ⟨p, hp, hf.action.trans ha⟩
  call := by
    obtain ⟨data, hd⟩ := h.call
    obtain ⟨data', hd'⟩ := hf.call
    exact ⟨data', by rw [hd', hd]⟩

end CallTask.Serves

namespace Run

variable {h : List (Run × Message)} {r r' q : Run} {i : Nat} {m : Message}

/-- The calls of a history keep their places as it goes on. -/
theorem getElem?_acceptedCalls_append {k : Nat} {x : Run × Entry.Call}
    (hx : (acceptedCalls h)[k]? = some x) (h' : List (Run × Message)) :
    (acceptedCalls (h ++ h'))[k]? = some x := by
  obtain ⟨hlt, _⟩ := List.getElem?_eq_some_iff.mp hx
  rw [acceptedCalls, routedCalls_append, List.filter_append]
  exact (List.getElem?_append_left hlt).trans hx

inductive Enlists (q : Run) (m : Message) (r' : Run) : Prop where
  | same (haccepted : ∀ h, acceptedCalls (h ++ [(q, m)]) = acceptedCalls h)
    (htasks : r'.tasks = q.tasks)
  | more {c : Entry.Call} {p : PreparedCall} {context : ContextState} {memory : WorkingMemory}
    (haccepted : ∀ h, acceptedCalls (h ++ [(q, m)]) = acceptedCalls h ++ [(q, c)])
    (hp : PreparedCall.ofCall q.ledger.actions c = .ok p)
    (htasks : r'.tasks = q.tasks ++ [⟨c, p.action, context, memory, q.ledger.slots.length,
      .resolving p.payload p.templates⟩])

theorem Reception.enlists (hm : Reception q m r') : Enlists q m r' := by
  cases hm with
  | plain he hl =>
    obtain ⟨_, _, hl, _⟩ := hl
    exact .same (fun h => acceptedCalls_concat_of_none h q (Entry.call?_eq_none he.1)) hl.tasks
  | @result e _ _ he hl =>
    have hcall : (Message.push e).call? = none := by
      rw [Message.call?, he]
      rfl
    exact .same (fun h => acceptedCalls_concat_of_none h q hcall) hl.tasks
  | refused he hp hl => exact .same (fun h => acceptedCalls_concat_refused h he hp) hl.tasks
  | accepted he hp hl =>
    exact .more (fun h => acceptedCalls_concat_accepted h he hp) hp (congrArg (· ++ _) hl.tasks)
  | prepared id data =>
    exact .same (fun h => acceptedCalls_concat_of_none h q rfl)
      (patchCall_untouched id data q).tasks
  | failed hl => exact .same (fun h => acceptedCalls_concat_of_none h q rfl) hl.tasks
  | completed hl => exact .same (fun h => acceptedCalls_concat_of_none h q rfl) hl.tasks

/-- Taking a message leaves the tasks that are there as they are. -/
theorem Reception.getElem?_tasks (hm : Reception q m r') {k : Nat} {t : CallTask}
    (ht : q.tasks[k]? = some t) : r'.tasks[k]? = some t := by
  cases hm.enlists with
  | same _ htasks => rwa [htasks]
  | more _ _ htasks =>
    obtain ⟨hlt, _⟩ := List.getElem?_eq_some_iff.mp ht
    rwa [htasks, List.getElem?_append_left hlt]

structure Roster (h : List (Run × Message)) (r : Run) : Prop where
  slots : r.ledger.slots.map (fun s => (s.name, s.callId)) =
    (acceptedCalls h).map fun x => (x.2.name, x.2.id)
  tasks : r.tasks.length = (acceptedCalls h).length
  serves : ∀ (k : Nat) x t, (acceptedCalls h)[k]? = some x → r.tasks[k]? = some t → t.Serves k x
  calls : callIds r.ledger.chain = (routedCalls h).map (·.2.id)

namespace Roster

theorem length_slots (hr : Roster h r) : r.ledger.slots.length = (acceptedCalls h).length := by
  simpa using congrArg List.length hr.slots

theorem congr (hr : Roster h r) (hs : r'.ledger.slots.map (fun s => (s.name, s.callId)) =
      r.ledger.slots.map (fun s => (s.name, s.callId))) (ht : r'.tasks = r.tasks)
    (hc : callIds r'.ledger.chain = callIds r.ledger.chain) : Roster h r' where
  slots := hs.trans hr.slots
  tasks := ht ▸ hr.tasks
  serves := ht ▸ hr.serves
  calls := hc.trans hr.calls

/-- A message that routes no call is no matter of the roster. -/
theorem noted (hr : Roster h r) (q : Run) (hm : m.call? = none) :
    Roster (h ++ [(q, m)]) r := by
  refine ⟨?_, ?_, ?_, ?_⟩
  · rw [acceptedCalls_concat_of_none h q hm]
    exact hr.slots
  · rw [acceptedCalls_concat_of_none h q hm]
    exact hr.tasks
  · rw [acceptedCalls_concat_of_none h q hm]
    exact hr.serves
  · rw [routedCalls_concat_of_none h q hm]
    exact hr.calls

theorem quiet (hr : Roster h r) (hq : Quiet r r') : Roster h r' := by
  obtain ⟨es, hes, hplain⟩ := hq.chain
  refine hr.congr (by rw [hq.slots]) hq.tasks ?_
  rw [hes, callIds_append, callIds_eq_nil fun e he => (hplain e he).1, List.append_nil]

theorem logged (hr : Roster h r) {own : List String} {es : List Entry} (hl : Logs own es r r')
    (hes : ∀ e ∈ es, e.kind ≠ .call) : Roster h r' := by
  refine hr.congr (by rw [hl.slots]) hl.tasks ?_
  rw [hl.chain, callIds_append, callIds_eq_nil hes, List.append_nil]

theorem refused (hr : Roster h r) {e : Entry} {c : Entry.Call} {err : RunError} {own : List String}
    {id : Uuid} {now : Timestamp} (he : e.finished = .call c)
    (hp : PreparedCall.ofCall r.ledger.actions c = .error err)
    (hl : Logs own (.call c :: Entry.ofError id now err) r r') :
    Roster (h ++ [(r, .push e)]) r' := by
  have hids : callIds (Entry.call c :: Entry.ofError id now err) = [c.id] := by
    rw [← List.singleton_append, callIds_append,
      callIds_eq_nil fun x hx => (Entry.isPlain_of_mem_ofError hx).1]
    rfl
  refine ⟨?_, ?_, ?_, ?_⟩
  · rw [acceptedCalls_concat_refused h he hp, hl.slots]
    exact hr.slots
  · rw [acceptedCalls_concat_refused h he hp, hl.tasks]
    exact hr.tasks
  · rw [acceptedCalls_concat_refused h he hp, hl.tasks]
    exact hr.serves
  · rw [hl.chain, callIds_append, hr.calls, hids, routedCalls_concat_push h r he, List.map_append]
    rfl

theorem accepted (hr : Roster h r) {e : Entry} {c : Entry.Call} {p : PreparedCall}
    (he : e.finished = .call c) (hp : PreparedCall.ofCall r.ledger.actions c = .ok p)
    (hl : Logs [] [.call c] (r.openSlot c) q) :
    Roster (h ++ [(r, .push e)]) (q.spawn c p r.ledger.slots.length) := by
  have htasks : q.tasks = r.tasks := hl.tasks
  have haccepted := acceptedCalls_concat_accepted h he hp
  refine ⟨?_, ?_, fun k x t hx ht => ?_, ?_⟩
  · have hslots : (q.spawn c p r.ledger.slots.length).ledger.slots =
        CallSlot.add r.ledger.slots c.name c.id := hl.slots
    rw [hslots, CallSlot.map_name_add, hr.slots, haccepted, List.map_append]
    rfl
  · simp [spawn, htasks, hr.tasks, haccepted]
  · rw [haccepted] at hx
    simp only [spawn, htasks] at ht
    rcases getElem?_concat hx with hx | ⟨hk, rfl⟩
    · rcases getElem?_concat ht with ht | ⟨hk, _⟩
      · exact hr.serves k x t hx ht
      · obtain ⟨hlt, _⟩ := List.getElem?_eq_some_iff.mp hx
        exact absurd (hk.trans hr.tasks) (Nat.ne_of_lt hlt)
    · rcases getElem?_concat ht with ht | ⟨_, rfl⟩
      · obtain ⟨hlt, _⟩ := List.getElem?_eq_some_iff.mp ht
        exact absurd (hk.trans hr.tasks.symm) (Nat.ne_of_lt hlt)
      · have hplace : r.ledger.slots.length = k := hr.length_slots.trans hk.symm
        exact ⟨hplace, hplace, ⟨p, hp, rfl⟩, c.data, rfl⟩
  · simp only [spawn]
    rw [hl.chain, callIds_append, routedCalls_concat_push h r he, List.map_append, ← hr.calls]
    rfl

theorem reception (hr : Roster h q) (hm : Reception q m r') : Roster (h ++ [(q, m)]) r' := by
  cases hm with
  | plain he hl => exact (hr.quiet (.logsPlain hl)).noted q (Entry.call?_eq_none he.1)
  | @result e _ _ he hl =>
    have hcall : (Message.push e).call? = none := by
      rw [Message.call?, he]
      rfl
    exact (hr.logged hl (by simp [Entry.kind])).noted q hcall
  | refused he hp hl => exact hr.refused he hp hl
  | accepted he hp hl => exact hr.accepted he hp hl
  | prepared id data =>
    refine Roster.noted ?_ q rfl
    unfold patchCall
    split
    · exact hr.congr rfl rfl rfl
    · rename_i hsome
      exact hr.congr rfl rfl (callIds_replaceFirst hsome data)
  | failed hl =>
    refine Roster.noted (Roster.logged ?_ hl fun e he => (Entry.isPlain_of_mem_ofError he).1) q rfl
    exact hr.congr (CallSlot.map_name_resolve _ _ _) rfl rfl
  | completed hl =>
    refine Roster.noted (Roster.logged ?_ hl (by simp [Entry.kind])) q rfl
    exact hr.congr (CallSlot.map_name_resolve _ _ _) rfl rfl

theorem steps (hr : Roster h r) (hs : r.stepTask? i = some r') : Roster h r' := by
  obtain ⟨t, t', sent, ht, hconduct⟩ := stepTask?_conduct hs
  have hsteps := hconduct.steps ht
  refine ⟨hsteps.ledger ▸ hr.slots, hsteps.length_eq.trans hr.tasks, fun k x u hx hu => ?_,
    hsteps.ledger ▸ hr.calls⟩
  by_cases hk : k = i
  · subst hk
    obtain rfl : t' = u := Option.some.inj (hsteps.after.symm.trans hu)
    exact (hr.serves k x t hx ht).follows hconduct.task_follows
  · obtain ⟨v, hv, hkept⟩ := hsteps.exists_kept hk hu
    exact (hr.serves k x v hx hv).follows hkept.follows

theorem applyAll (hr : Roster h r) (ms : List Move) :
    Roster (h ++ history ms r) (r.applyAll ms) := by
  refine applyAll_keeps (I := Roster) ?_ ?_ ?_ ?_ hr ms
  · exact fun hr hq => hr.quiet hq
  · exact fun hr hm => hr.reception hm
  · intro g q m rest _ hr _ hm
    have htaken : Roster g { q with inbox := rest } := hr.congr rfl rfl rfl
    exact htaken.reception hm
  · exact fun hr hs => hr.steps hs

theorem new (setup : Setup) (store : Store) (archive : Archive) (subscribers : Subscribers) :
    Roster [] (new setup store archive subscribers) where
  slots := rfl
  tasks := rfl
  serves := by simp [acceptedCalls, routedCalls]
  calls := rfl

/-- Every task and every slot has its call. -/
theorem exists_served (hr : Roster h r) {k : Nat} {t : CallTask} (ht : r.tasks[k]? = some t) :
    ∃ x s, (acceptedCalls h)[k]? = some x ∧ r.ledger.slots[k]? = some s ∧ t.Serves k x ∧
      s.name = x.2.name ∧ s.callId = x.2.id := by
  obtain ⟨hlt, _⟩ := List.getElem?_eq_some_iff.mp ht
  rw [hr.tasks] at hlt
  have hx := List.getElem?_eq_getElem hlt
  have hs := List.getElem?_eq_getElem (hr.length_slots ▸ hlt)
  refine ⟨_, _, hx, hs, hr.serves k _ t hx ht, ?_⟩
  have hboth := congrArg (·[k]?) hr.slots
  simp only [List.getElem?_map, hx, hs, Option.map_some, Option.some.injEq] at hboth
  exact Prod.mk.inj hboth

/-- Every accepted call has its task and its slot. -/
theorem exists_accepted (hr : Roster h r) {k : Nat} {s : CallSlot}
    (hs : r.ledger.slots[k]? = some s) :
    ∃ x, (acceptedCalls h)[k]? = some x ∧ s.callId = x.2.id := by
  have hlt := (List.getElem?_eq_some_iff.mp hs).1
  rw [hr.length_slots, ← hr.tasks] at hlt
  obtain ⟨x, s', hx, hs', _, _, hid⟩ := hr.exists_served (List.getElem?_eq_getElem hlt)
  obtain rfl := Option.some.inj (hs.symm.trans hs')
  exact ⟨x, hx, hid⟩

theorem exists_task (hr : Roster h r) {k : Nat} {x : Run × Entry.Call}
    (hx : (acceptedCalls h)[k]? = some x) :
    ∃ t s, r.tasks[k]? = some t ∧ r.ledger.slots[k]? = some s ∧ t.Serves k x ∧
      s.name = x.2.name ∧ s.callId = x.2.id := by
  obtain ⟨hlt, _⟩ := List.getElem?_eq_some_iff.mp hx
  rw [← hr.tasks] at hlt
  have ht := List.getElem?_eq_getElem hlt
  obtain ⟨y, s, hy, hs, hserves, hname, hid⟩ := hr.exists_served ht
  obtain rfl := Option.some.inj (hx.symm.trans hy)
  exact ⟨_, s, ht, hs, hserves, hname, hid⟩

end Roster

end Run

end TagLedger
