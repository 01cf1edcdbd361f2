import Mathlib.Data.List.Nodup
import Mathlib.Tactic.Common
import TagLedger.Proofs.Memory.Patch
import TagLedger.Proofs.Run.Schedule
import TagLedger.Proofs.Run.Slots

/-!
Accounts of calls. Slots and tasks belong to the routed calls that could be prepared, in order. A
slot waits until its task is over and the one message that says so has been taken; from then on it
agrees with that message and with the results in the chain.
-/

namespace TagLedger

namespace Entry

def result? : Entry → Option Result
  | .result res => some res
  | _ => none

theorem call?_eq_none {e : Entry} (h : e.kind ≠ .call) : e.call? = none := by
  cases e with
  | call c => exact absurd rfl h
  | _ => rfl

theorem result?_eq_none {e : Entry} (h : e.kind ≠ .result) : e.result? = none := by
  cases e with
  | result res => exact absurd rfl h
  | _ => rfl

end Entry

namespace Message

/-- Whether a message ends the call of an identifier. -/
def ends (id : Uuid) : Message → Bool
  | .failed id' _ => id' == id
  | .completed result => result.callId == id
  | _ => false

theorem IsPush.ends_eq {m : Message} (h : m.IsPush) (id : Uuid) : m.ends id = false := by
  obtain ⟨e, rfl⟩ := h
  rfl

def completed? : Message → Option Entry.Result
  | .completed result => some result
  | _ => none

theorem eq_completed {m : Message} {result : Entry.Result} (h : m.completed? = some result) :
    m = .completed result := by
  cases m with
  | completed result' => rw [Option.some.inj h]
  | _ => cases h

def call? : Message → Option Entry.Call
  | .push e => e.finished.call?
  | _ => none

/-- The result that a message brings from outside. -/
def result? : Message → Option Entry.Result
  | .push e => e.finished.result?
  | _ => none

end Message

namespace CallTask.Progress

variable {t t' : CallTask} {sent : List Message}

/-- What a step sends ends the call of the task if the task is over now, and nothing else. -/
theorem countP_ends (h : t.Progress t' sent) (id : Uuid) :
    sent.countP (Message.ends id) = if t'.isOver && t.call.id == id then 1 else 0 := by
  cases h with
  | goesOn hp _ hpush =>
    rw [hp, Bool.false_and]
    exact List.countP_eq_zero.mpr fun m hm => by simp [(hpush m hm).ends_eq id]
  | prepared data => rfl
  | rejected _ => simp [List.countP_cons, Message.ends, CallTask.isOver]
  | completed hres => simp [List.countP_cons, Message.ends, CallTask.isOver, hres]

theorem isRejectionOf {id : Uuid} {err : RunError} (h : t.Progress t' sent)
    (hm : .failed id err ∈ sent) : err.IsRejectionOf id := by
  cases h with
  | goesOn _ _ hpush =>
    obtain ⟨e, he⟩ := hpush _ hm
    cases he
  | prepared data => cases List.mem_singleton.mp hm
  | rejected hrej =>
    cases List.mem_singleton.mp hm
    exact hrej
  | completed _ => cases List.mem_singleton.mp hm

end CallTask.Progress

/-- The results in a chain for the call of an identifier. -/
def resultsOf (id : Uuid) (chain : List Entry) : List Entry.Result :=
  (chain.filterMap Entry.result?).filter fun res => res.callId == id

theorem resultsOf_append (id : Uuid) (es fs : List Entry) :
    resultsOf id (es ++ fs) = resultsOf id es ++ resultsOf id fs := by
  simp [resultsOf]

theorem resultsOf_eq_nil (id : Uuid) {es : List Entry} (h : ∀ e ∈ es, e.kind ≠ .result) :
    resultsOf id es = [] := by
  have hnone : es.filterMap Entry.result? = [] :=
    List.filterMap_eq_nil_iff.mpr fun e he => Entry.result?_eq_none (h e he)
  rw [resultsOf, hnone, List.filter_nil]

theorem resultsOf_append_left (id : Uuid) (es : List Entry) {fs : List Entry}
    (h : ∀ e ∈ fs, e.kind ≠ .result) : resultsOf id (es ++ fs) = resultsOf id es := by
  rw [resultsOf_append, resultsOf_eq_nil id h, List.append_nil]

theorem callIds_eq_nil {es : List Entry} (h : ∀ e ∈ es, e.kind ≠ .call) : callIds es = [] := by
  have hnone : callsOf es = [] :=
    List.filterMap_eq_nil_iff.mpr fun e he => Entry.call?_eq_none (h e he)
  rw [callIds, hnone, List.map_nil]

theorem Run.resultsOf_replaceFirst {chain : List Entry} {c : Entry.Call} (id' : Uuid) {id : Uuid}
    (h : Run.chainCall? id chain = some c) (data : Json) :
    resultsOf id' (Run.replaceFirst id (.call { c with data := some data }) chain) =
      resultsOf id' chain := by
  have hmap (es : List Entry) :
      resultsOf id' es = ((es.map Entry.result?).filterMap fun x => x).filter
        fun res => res.callId == id' := by
    simp [resultsOf, List.filterMap_map]
  rw [hmap, hmap chain]
  congr 2
  refine WorkingMemory.map_updateFirst fun e he => ?_
  obtain rfl := Option.some.inj (he.symm.trans (Run.chainCall?_eq_some_iff.mp h))
  rfl

/-- What is known about a call whose slot is in this state: the endings that were taken for it and
its results in the chain. -/
def CallState.Accounted (id : Uuid) (taken : List (Run × Message)) (results : List Entry.Result) :
    CallState → Prop
  | .waiting => taken = [] ∧ results = []
  | .completed res => res.callId = id ∧ (∃ q, taken = [(q, .completed res)]) ∧ results = [res]
  | .failed reason =>
    (∃ q err, taken = [(q, .failed id err)] ∧ err.message = reason ∧ err.IsRejectionOf id) ∧
      results = []
  | .dropped => False

namespace Run

/-- The calls that were routed, with the runs in which they were. -/
def routedCalls (h : List (Run × Message)) : List (Run × Entry.Call) :=
  h.filterMap fun x => x.2.call?.map fun c => (x.1, c)

/-- The routed calls that could be prepared. -/
def acceptedCalls (h : List (Run × Message)) : List (Run × Entry.Call) :=
  (routedCalls h).filter fun x => (PreparedCall.ofCall x.1.ledger.actions x.2).isOk

def endingsOf (id : Uuid) (h : List (Run × Message)) : List (Run × Message) :=
  h.filter fun x => x.2.ends id

theorem getElem?_concat {α : Type} {xs : List α} {x y : α} {k : Nat}
    (h : (xs ++ [x])[k]? = some y) : xs[k]? = some y ∨ (k = xs.length ∧ x = y) := by
  rcases Nat.lt_trichotomy k xs.length with hk | rfl | hk
  · exact .inl (List.getElem?_append_left hk ▸ h)
  · exact .inr ⟨rfl, by simpa using h⟩
  · rw [List.getElem?_eq_none (by rwa [List.length_append])] at h
    cases h

structure Orderly (h : List (Run × Message)) : Prop where
  distinct : ((routedCalls h).map (·.2.id)).Nodup
  noResults : ∀ x ∈ h, x.2.result? = none

variable {h h' : List (Run × Message)} {r r' q : Run} {m : Message}

theorem routedCalls_append (h h' : List (Run × Message)) :
    routedCalls (h ++ h') = routedCalls h ++ routedCalls h' := List.filterMap_append

theorem routedCalls_concat_of_none (h : List (Run × Message)) (q : Run) (hm : m.call? = none) :
    routedCalls (h ++ [(q, m)]) = routedCalls h := by
  simp [routedCalls, hm]

theorem acceptedCalls_concat_of_none (h : List (Run × Message)) (q : Run) (hm : m.call? = none) :
    acceptedCalls (h ++ [(q, m)]) = acceptedCalls h := by
  rw [acceptedCalls, routedCalls_concat_of_none h q hm, acceptedCalls]

theorem routedCalls_concat_push (h : List (Run × Message)) (q : Run) {e : Entry} {c : Entry.Call}
    (he : e.finished = .call c) :
    routedCalls (h ++ [(q, .push e)]) = routedCalls h ++ [(q, c)] := by
  simp [routedCalls, Message.call?, he]

theorem acceptedCalls_concat_refused (h : List (Run × Message)) {e : Entry} {c : Entry.Call}
    {err : RunError} (he : e.finished = .call c)
    (hp : PreparedCall.ofCall q.ledger.actions c = .error err) :
    acceptedCalls (h ++ [(q, .push e)]) = acceptedCalls h := by
  rw [acceptedCalls, routedCalls_concat_push h q he, List.filter_append, acceptedCalls]
  simp [hp, Except.isOk, Except.toBool]

theorem acceptedCalls_concat_accepted (h : List (Run × Message)) {e : Entry} {c : Entry.Call}
    {p : PreparedCall} (he : e.finished = .call c)
    (hp : PreparedCall.ofCall q.ledger.actions c = .ok p) :
    acceptedCalls (h ++ [(q, .push e)]) = acceptedCalls h ++ [(q, c)] := by
  rw [acceptedCalls, routedCalls_concat_push h q he, List.filter_append, acceptedCalls]
  simp [hp, Except.isOk, Except.toBool]

/-- What is sent for the log ends no call. -/
theorem endingsOf_concat_push (id : Uuid) (h : List (Run × Message)) (q : Run) (e : Entry) :
    endingsOf id (h ++ [(q, .push e)]) = endingsOf id h := by
  simp [endingsOf, Message.ends]

theorem Orderly.left (ho : Orderly (h ++ h')) : Orderly h where
  distinct := by
    have hn := ho.distinct
    rw [routedCalls_append, List.map_append] at hn
    exact hn.of_append_left
  noResults := fun x hx => ho.noResults x (List.mem_append_left h' hx)

/-- A slot, its task and the messages on their way: a task that is not over is waited for, and its
end is on the way exactly if the task is over and still waited for. -/
structure Pending (inbox : List Message) (s : CallSlot) (t : CallTask) : Prop where
  id : t.call.id = s.callId
  waiting : t.isOver = false → s.state = .waiting
  coming : inbox.countP (Message.ends s.callId) = if t.isOver && s.isWaiting then 1 else 0

structure Accounts (h : List (Run × Message)) (r : Run) : Prop where
  slots : r.ledger.slots.map (fun s => (s.name, s.callId)) =
    (acceptedCalls h).map fun x => (x.2.name, x.2.id)
  places : ∀ (k : Nat) (x : Run × Entry.Call),
    (acceptedCalls h)[k]? = some x → x.1.ledger.slots.length = k
  calls : callIds r.ledger.chain = (routedCalls h).map (·.2.id)
  inFlight : r.ledger.inFlight = r.ledger.slots.countP CallSlot.isWaiting
  tasks : r.tasks.length = r.ledger.slots.length
  pending : ∀ (k : Nat) s t, r.ledger.slots[k]? = some s → r.tasks[k]? = some t →
    Pending r.inbox s t
  known : ∀ m ∈ r.inbox, ∀ id, m.ends id = true → id ∈ r.ledger.slots.map (·.callId)
  rejections : ∀ id err, .failed id err ∈ r.inbox → err.IsRejectionOf id
  states : ∀ s ∈ r.ledger.slots,
    s.state.Accounted s.callId (endingsOf s.callId h) (resultsOf s.callId r.ledger.chain)
  strangers : ∀ id, id ∉ r.ledger.slots.map (·.callId) →
    endingsOf id h = [] ∧ resultsOf id r.ledger.chain = []

namespace Accounts

theorem callIds_slots (ha : Accounts h r) :
    r.ledger.slots.map (·.callId) = (acceptedCalls h).map (·.2.id) := by
  have hids := congrArg (List.map Prod.snd) ha.slots
  simpa only [List.map_map, Function.comp_def] using hids

theorem callIds_sublist (ha : Accounts h r) :
    (r.ledger.slots.map (·.callId)).Sublist ((routedCalls h).map (·.2.id)) :=
  ha.callIds_slots ▸ List.Sublist.map _ List.filter_sublist

theorem nodup (ha : Accounts h r) (ho : Orderly h) : (r.ledger.slots.map (·.callId)).Nodup :=
  ho.distinct.sublist ha.callIds_sublist

theorem congr (ha : Accounts h r) (hs : r'.ledger.slots = r.ledger.slots)
    (hf : r'.ledger.inFlight = r.ledger.inFlight) (ht : r'.tasks = r.tasks)
    (hi : r'.inbox = r.inbox) (hc : callIds r'.ledger.chain = callIds r.ledger.chain)
    (hr : ∀ id, resultsOf id r'.ledger.chain = resultsOf id r.ledger.chain) : Accounts h r' := by
  refine ⟨?_, ha.places, ?_, ?_, ?_, ?_, ?_, ?_, ?_, ?_⟩
  · rw [hs]
    exact ha.slots
  · rw [hc]
    exact ha.calls
  · rw [hf, hs]
    exact ha.inFlight
  · rw [ht, hs]
    exact ha.tasks
  · rw [hs, ht, hi]
    exact ha.pending
  · rw [hi, hs]
    exact ha.known
  · rw [hi]
    exact ha.rejections
  · simp only [hs, hr]
    exact ha.states
  · simp only [hs, hr]
    exact ha.strangers

theorem quiet (ha : Accounts h r) (hq : Quiet r r') : Accounts h r' := by
  obtain ⟨es, hchain, hplain⟩ := hq.chain
  refine ha.congr hq.slots hq.inFlight hq.tasks hq.inbox ?_ fun id => ?_
  · rw [hchain, callIds_append, callIds_eq_nil fun e he => (hplain e he).1, List.append_nil]
  · rw [hchain, resultsOf_append_left id _ fun e he => (hplain e he).2]

/-- A message that neither routes a call nor ends one leaves no trace in the accounts. -/
theorem noted (ha : Accounts h r) (q : Run) (hcall : m.call? = none)
    (hends : ∀ id, m.ends id = false) : Accounts (h ++ [(q, m)]) r := by
  have hrouted := routedCalls_concat_of_none h q hcall
  have haccepted := acceptedCalls_concat_of_none h q hcall
  have hendings (id : Uuid) : endingsOf id (h ++ [(q, m)]) = endingsOf id h := by
    simp [endingsOf, hends]
  refine { ha with slots := ?_, places := ?_, calls := ?_, states := ?_, strangers := ?_ }
  · rw [haccepted]
    exact ha.slots
  · rw [haccepted]
    exact ha.places
  · rw [hrouted]
    exact ha.calls
  · simp only [hendings]
    exact ha.states
  · simp only [hendings]
    exact ha.strangers

/-- A message that ends no call may be taken from the inbox. -/
theorem popped (ha : Accounts h r) {m : Message} {rest : List Message} (hm : r.inbox = m :: rest)
    (hends : ∀ id, m.ends id = false) : Accounts h { r with inbox := rest } where
  slots := ha.slots
  places := ha.places
  calls := ha.calls
  inFlight := ha.inFlight
  tasks := ha.tasks
  pending := fun k s t hs ht => by
    obtain ⟨hid, hwaiting, hcoming⟩ := ha.pending k s t hs ht
    rw [hm, List.countP_cons_of_neg (by simp [hends])] at hcoming
    exact ⟨hid, hwaiting, hcoming⟩
  known := fun m' hm' => ha.known m' (hm ▸ List.mem_cons_of_mem m hm')
  rejections := fun id err he => ha.rejections id err (hm ▸ List.mem_cons_of_mem m he)
  states := ha.states
  strangers := ha.strangers

/-- A step of a task reports the end of its own call at most, and exactly when the task ends. -/
theorem advances {i : Nat} (ha : Accounts h r) (ho : Orderly h) (hadv : Advances i r r') :
    Accounts h r' := by
  obtain ⟨t, t', sent, hsteps, hover, hprogress⟩ := hadv
  obtain ⟨hi, _⟩ := List.getElem?_eq_some_iff.mp hsteps.before
  obtain ⟨s, hslot⟩ : ∃ s, r.ledger.slots[i]? = some s :=
    ⟨_, List.getElem?_eq_getElem (ha.tasks ▸ hi)⟩
  obtain ⟨hid, hwaiting, hcoming⟩ := ha.pending i s t hslot hsteps.before
  rw [hover, Bool.false_and] at hcoming
  have hmem : t.call.id ∈ r.ledger.slots.map (·.callId) :=
    hid ▸ List.mem_map_of_mem (List.mem_of_getElem? hslot)
  have hcall : t'.call.id = t.call.id := by cases hprogress <;> rfl
  have hsent := hprogress.countP_ends
  refine ⟨?_, ha.places, ?_, ?_, ?_, fun k s' u hs' hu => ?_, fun m hm id hends => ?_,
    fun id err hm => ?_, ?_, ?_⟩
  · exact hsteps.ledger ▸ ha.slots
  · exact hsteps.ledger ▸ ha.calls
  · exact hsteps.ledger ▸ ha.inFlight
  · exact hsteps.ledger ▸ hsteps.length_eq.trans ha.tasks
  · rw [hsteps.ledger] at hs'
    rw [hsteps.inbox]
    by_cases hk : k = i
    · subst hk
      obtain rfl : s = s' := Option.some.inj (hslot.symm.trans hs')
      obtain rfl : t' = u := Option.some.inj (hsteps.after.symm.trans hu)
      have hs : s.isWaiting = true := CallSlot.isWaiting_iff.mpr (hwaiting hover)
      refine ⟨hcall.trans hid, fun _ => hwaiting hover, ?_⟩
      simp [List.countP_append, hcoming, hsent, hid, hs]
    · obtain ⟨v, hv, hkept⟩ := hsteps.exists_kept hk hu
      have hsame : u.call = v.call ∧ u.isOver = v.isOver := hkept.isOver_eq
      obtain ⟨hid', hwaiting', hcoming'⟩ := ha.pending k s' v hs' hv
      have hne : s.callId ≠ s'.callId := fun he =>
        hk (CallSlot.eq_of_callId (ha.nodup ho) hs' hslot he.symm)
      refine ⟨hsame.1 ▸ hid', hsame.2 ▸ hwaiting', ?_⟩
      simp [List.countP_append, hcoming', hsent, hid, hne, hsame.2]
  · rw [hsteps.ledger]
    rw [hsteps.inbox] at hm
    rcases List.mem_append.mp hm with hm | hm
    · exact ha.known m hm id hends
    · have hpos := List.countP_pos_iff.mpr ⟨m, hm, hends⟩
      rw [hsent] at hpos
      split at hpos
      · rename_i h
        exact beq_iff_eq.mp (Bool.and_eq_true_iff.mp h).2 ▸ hmem
      · omega
  · rw [hsteps.inbox] at hm
    rcases List.mem_append.mp hm with hm | hm
    · exact ha.rejections id err hm
    · exact hprogress.isRejectionOf hm
  · exact hsteps.ledger ▸ ha.states
  · exact hsteps.ledger ▸ ha.strangers

theorem refused (ha : Accounts h r) {e : Entry} {c : Entry.Call} {err : RunError}
    {own : List String} {id : Uuid} {now : Timestamp} (he : e.finished = .call c)
    (hp : PreparedCall.ofCall r.ledger.actions c = .error err)
    (hl : Logs own (.call c :: Entry.ofError id now err) r r') :
    Accounts (h ++ [(r, .push e)]) r' := by
  have hplain (x : Entry) (hx : x ∈ Entry.ofError id now err) : x.IsPlain :=
    Entry.isPlain_of_mem_ofError hx
  have hrouted := routedCalls_concat_push h r he
  have haccepted := acceptedCalls_concat_refused h he hp
  have hresults (id' : Uuid) :
      resultsOf id' r'.ledger.chain = resultsOf id' r.ledger.chain := by
    rw [hl.chain, resultsOf_append_left]
    exact List.forall_mem_cons.mpr ⟨nofun, fun x hx => (hplain x hx).2⟩
  refine ⟨?_, ?_, ?_, ?_, ?_, ?_, ?_, ?_, ?_, ?_⟩
  · rw [haccepted, hl.slots]
    exact ha.slots
  · rw [haccepted]
    exact ha.places
  · have hids : callIds (Entry.call c :: Entry.ofError id now err) = [c.id] := by
      rw [← List.singleton_append, callIds_append,
        callIds_eq_nil fun x hx => (hplain x hx).1]
      rfl
    rw [hl.chain, callIds_append, ha.calls, hids, hrouted, List.map_append]
    rfl
  · rw [hl.inFlight, hl.slots]
    exact ha.inFlight
  · rw [hl.tasks, hl.slots]
    exact ha.tasks
  · rw [hl.slots, hl.tasks, hl.inbox]
    exact ha.pending
  · rw [hl.inbox, hl.slots]
    exact ha.known
  · rw [hl.inbox]
    exact ha.rejections
  · simp only [hl.slots, endingsOf_concat_push, hresults]
    exact ha.states
  · simp only [hl.slots, endingsOf_concat_push, hresults]
    exact ha.strangers

theorem accepted (ha : Accounts h r) {e : Entry} {c : Entry.Call} {p : PreparedCall} {q : Run}
    (ho : Orderly (h ++ [(r, .push e)])) (he : e.finished = .call c)
    (hp : PreparedCall.ofCall r.ledger.actions c = .ok p)
    (hl : Logs [] [.call c] (r.openSlot c) q) :
    Accounts (h ++ [(r, .push e)]) (q.spawn c p r.ledger.slots.length) := by
  have hrouted := routedCalls_concat_push h r he
  have haccepted := acceptedCalls_concat_accepted h he hp
  have hresults (id : Uuid) : resultsOf id q.ledger.chain = resultsOf id r.ledger.chain := by
    have hcall : ∀ x ∈ [Entry.call c], x.kind ≠ .result := by simp [Entry.kind]
    rw [hl.chain, resultsOf_append_left id _ hcall]
    rfl
  have hlength : (acceptedCalls h).length = r.ledger.slots.length := by
    simpa using (congrArg List.length ha.slots).symm
  have hnew : c.id ∉ r.ledger.slots.map (·.callId) := by
    have hn := ho.distinct
    rw [hrouted, List.map_append, List.nodup_append] at hn
    exact fun hmem => hn.2.2 c.id (ha.callIds_sublist.subset hmem) c.id (by simp) rfl
  have hslots : q.ledger.slots = r.ledger.slots ++ [⟨c.name, c.id, .waiting⟩] := by
    rw [hl.slots]
    exact CallSlot.add_of_not_mem hnew c.name
  have htasks : q.tasks = r.tasks := hl.tasks
  have hinbox : q.inbox = r.inbox := hl.inbox
  have hinFlight : q.ledger.inFlight = r.ledger.inFlight := hl.inFlight
  have hcoming : r.inbox.countP (Message.ends c.id) = 0 :=
    List.countP_eq_zero.mpr fun m hm hends => hnew (ha.known m hm c.id hends)
  refine ⟨?_, fun k x hx => ?_, ?_, ?_, ?_, fun k s t hs ht => ?_, fun m hm id hends => ?_, ?_,
    fun s hs => ?_, fun id hid => ?_⟩
  · have hold := ha.slots
    simp only [spawn, hslots, haccepted, List.map_append, hold]
    rfl
  · rw [haccepted] at hx
    rcases getElem?_concat hx with hx | ⟨hk, rfl⟩
    · exact ha.places k x hx
    · exact hk.trans hlength |>.symm
  · simp only [spawn]
    rw [hl.chain, callIds_append, hrouted, List.map_append, ← ha.calls]
    rfl
  · simp only [spawn]
    rw [hinFlight, hslots, List.countP_append, ha.inFlight]
    rfl
  · simp [spawn, htasks, hslots, ha.tasks]
  · simp only [spawn, hslots, htasks] at hs ht
    simp only [spawn, hinbox]
    rcases getElem?_concat hs with hs | ⟨hk, rfl⟩
    · rcases getElem?_concat ht with ht | ⟨hk', _⟩
      · exact ha.pending k s t hs ht
      · obtain ⟨hlt, _⟩ := List.getElem?_eq_some_iff.mp hs
        exact absurd (hk'.trans ha.tasks) (Nat.ne_of_lt hlt)
    · rcases getElem?_concat ht with ht | ⟨_, rfl⟩
      · obtain ⟨hlt, _⟩ := List.getElem?_eq_some_iff.mp ht
        exact absurd (hk.trans ha.tasks.symm) (Nat.ne_of_lt hlt)
      · exact ⟨rfl, fun _ => rfl, hcoming⟩
  · simp only [spawn, hslots, List.map_append]
    exact List.mem_append_left _ (ha.known m (hinbox ▸ hm) id hends)
  · simp only [spawn, hinbox]
    exact ha.rejections
  · simp only [spawn, hslots] at hs
    simp only [spawn, endingsOf_concat_push, hresults]
    rcases List.mem_append.mp hs with hs | hs
    · exact ha.states s hs
    · rw [List.mem_singleton.mp hs]
      exact ha.strangers c.id hnew
  · simp only [spawn, hslots, List.map_append, List.mem_append, not_or] at hid
    simp only [spawn, endingsOf_concat_push, hresults]
    exact ha.strangers id hid.1

/-- The message that ends a call finds its task over and its slot waiting, and no other such message
is on its way. -/
theorem exists_ended (ha : Accounts h r) {rest : List Message} {id : Uuid}
    (hm : r.inbox = m :: rest) (hends : ∀ id', m.ends id' = (id == id')) :
    ∃ (k : Nat) (s : CallSlot) (t : CallTask), r.ledger.slots[k]? = some s ∧
      r.tasks[k]? = some t ∧ s.callId = id ∧ s.state = .waiting ∧ t.isOver = true ∧
        t.call.id = id ∧ rest.countP (Message.ends id) = 0 := by
  have hmem : id ∈ r.ledger.slots.map (·.callId) :=
    ha.known m (hm ▸ List.mem_cons_self) id (by simp [hends])
  obtain ⟨s, hs, rfl⟩ := List.mem_map.mp hmem
  obtain ⟨k, hk⟩ := List.mem_iff_getElem?.mp hs
  obtain ⟨hlt, _⟩ := List.getElem?_eq_some_iff.mp hk
  obtain ⟨t, ht⟩ : ∃ t, r.tasks[k]? = some t := ⟨_, List.getElem?_eq_getElem (ha.tasks.symm ▸ hlt)⟩
  obtain ⟨hid, -, hcoming⟩ := ha.pending k s t hk ht
  rw [hm, List.countP_cons_of_pos (by simp [hends])] at hcoming
  have hboth : (t.isOver && s.isWaiting) = true := by
    by_contra hnot
    rw [if_neg hnot] at hcoming
    omega
  obtain ⟨hover, hwaiting⟩ := Bool.and_eq_true_iff.mp hboth
  rw [if_pos hboth] at hcoming
  exact ⟨k, s, t, hk, ht, rfl, CallSlot.isWaiting_iff.mp hwaiting, hover, hid, by omega⟩

/-- The message that ends a call is taken, and the slot of the call takes the outcome. -/
theorem ended (ha : Accounts h r) (ho : Orderly h) {rest : List Message} {id : Uuid}
    {state : CallState} {res : List Entry.Result} {es : List Entry} {own : List String}
    (hm : r.inbox = m :: rest) (hends : ∀ id', m.ends id' = (id == id')) (hcall : m.call? = none)
    (hstate : state.Accounted id [({ r with inbox := rest }, m)] res) (hne : state ≠ .waiting)
    (hl : Logs own es (resolveSlot id state { r with inbox := rest }) r')
    (hcalls : ∀ e ∈ es, e.kind ≠ .call)
    (hres : ∀ id', resultsOf id' es = if id = id' then res else []) :
    Accounts (h ++ [({ r with inbox := rest }, m)]) r' := by
  obtain ⟨k, s, t, hk, ht, rfl, hwaiting, hover, hid, hidle⟩ := ha.exists_ended hm hends
  have hs := List.mem_of_getElem? hk
  have hold := ha.states s hs
  rw [hwaiting] at hold
  have hslots : r'.ledger.slots = CallSlot.resolve s.callId state r.ledger.slots := hl.slots
  have htasks : r'.tasks = r.tasks := hl.tasks
  have hinbox : r'.inbox = rest := hl.inbox
  have hrouted := routedCalls_concat_of_none h { r with inbox := rest } hcall
  have haccepted := acceptedCalls_concat_of_none h { r with inbox := rest } hcall
  have hendings (id' : Uuid) : endingsOf id' (h ++ [({ r with inbox := rest }, m)]) =
      endingsOf id' h ++ if s.callId = id' then [({ r with inbox := rest }, m)] else [] := by
    by_cases he : s.callId = id' <;> simp [endingsOf, hends, he]
  have hresults (id' : Uuid) : resultsOf id' r'.ledger.chain =
      resultsOf id' r.ledger.chain ++ if s.callId = id' then res else [] := by
    rw [hl.chain, resultsOf_append, hres]
    rfl
  refine ⟨?_, ?_, ?_, ?_, ?_, fun j x u hx hu => ?_, fun m' hm' id' he => ?_, fun id' err hf => ?_,
    fun x hx => ?_, fun id' hid' => ?_⟩
  · rw [hslots, CallSlot.map_name_resolve, haccepted]
    exact ha.slots
  · rw [haccepted]
    exact ha.places
  · rw [hl.chain, callIds_append, callIds_eq_nil hcalls, List.append_nil, hrouted]
    exact ha.calls
  · rw [hslots, CallSlot.countP_isWaiting_resolve (ha.nodup ho) hs hwaiting hne, ← ha.inFlight]
    exact hl.inFlight
  · simpa [htasks, hslots, CallSlot.resolve] using ha.tasks
  · rw [hslots] at hx
    rw [htasks] at hu
    rw [hinbox]
    rcases CallSlot.of_resolve_waiting (ha.nodup ho) hk hwaiting hx with ⟨rfl, rfl⟩ | ⟨_, hx, hother⟩
    · obtain rfl : t = u := Option.some.inj (ht.symm.trans hu)
      have hdone : CallSlot.isWaiting { s with state } = false := beq_eq_false_iff_ne.mpr hne
      refine ⟨hid, fun hnot => ?_, ?_⟩
      · rw [hover] at hnot
        cases hnot
      · simp [hidle, hdone]
    · obtain ⟨hid', hwaiting', hcoming'⟩ := ha.pending j x u hx hu
      rw [hm, List.countP_cons_of_neg (by simp [hends, hother.symm])] at hcoming'
      exact ⟨hid', hwaiting', hcoming'⟩
  · rw [hslots, CallSlot.map_callId_resolve]
    exact ha.known m' (hm ▸ List.mem_cons_of_mem m (hinbox ▸ hm')) id' he
  · exact ha.rejections id' err (hm ▸ List.mem_cons_of_mem m (hinbox ▸ hf))
  · obtain ⟨j, hj⟩ := List.mem_iff_getElem?.mp hx
    rw [hslots] at hj
    rcases CallSlot.of_resolve_waiting (ha.nodup ho) hk hwaiting hj with ⟨_, rfl⟩ | ⟨_, hj, hother⟩
    · simp only [hendings, hresults, ↓reduceIte, hold.1, hold.2, List.nil_append]
      exact hstate
    · simp only [hendings, hresults, hother.symm, ↓reduceIte, List.append_nil]
      exact ha.states x (List.mem_of_getElem? hj)
  · rw [hslots, CallSlot.map_callId_resolve] at hid'
    have hother : s.callId ≠ id' := fun he => hid' (he ▸ List.mem_map_of_mem hs)
    simp only [hendings, hresults, hother, ↓reduceIte, List.append_nil]
    exact ha.strangers id' hid'

theorem pushed (ha : Accounts h r) {e : Entry} (ho : Orderly (h ++ [(r, .push e)]))
    (hr : Reception r (.push e) r') : Accounts (h ++ [(r, .push e)]) r' := by
  cases hr with
  | plain he hl =>
    exact (ha.quiet (.logsPlain hl)).noted r (Entry.call?_eq_none he.1) fun _ => rfl
  | result he _ =>
    have hnone := ho.noResults (r, .push e) (by simp)
    rw [Message.result?, he] at hnone
    cases hnone
  | refused he hp hl => exact ha.refused he hp hl
  | accepted he hp hl => exact ha.accepted ho he hp hl

theorem patchCall (ha : Accounts h r) (id : Uuid) (data : Json) :
    Accounts h (r.patchCall id data) := by
  unfold Run.patchCall
  split
  · exact ha.congr rfl rfl rfl rfl rfl fun _ => rfl
  · rename_i c hsome
    refine ha.congr rfl rfl rfl rfl (callIds_replaceFirst hsome data) fun id' => ?_
    have hkeep := resultsOf_replaceFirst id' hsome data
    exact hkeep

/-- The oldest message is taken. -/
theorem delivered (ha : Accounts h r) {m : Message} {rest : List Message} (hm : r.inbox = m :: rest)
    (ho : Orderly (h ++ [({ r with inbox := rest }, m)]))
    (hr : Reception { r with inbox := rest } m r') :
    Accounts (h ++ [({ r with inbox := rest }, m)]) r' := by
  cases m with
  | push e => exact (ha.popped hm fun _ => rfl).pushed ho hr
  | prepared id data =>
    cases hr
    exact ((ha.popped hm fun _ => rfl).noted _ rfl fun _ => rfl).patchCall id data
  | failed id err =>
    cases hr with
    | failed hl =>
      have hrej := ha.rejections id err (hm ▸ List.mem_cons_self)
      have hstate : (CallState.failed err.message).Accounted id
          [({ r with inbox := rest }, .failed id err)] [] := ⟨⟨_, err, rfl, rfl, hrej⟩, rfl⟩
      refine ha.ended ho.left hm (fun _ => rfl) rfl hstate nofun hl
        (fun e he => (Entry.isPlain_of_mem_ofError he).1) fun id' => ?_
      rw [resultsOf_eq_nil id' fun e he => (Entry.isPlain_of_mem_ofError he).2, ite_self]
  | completed res =>
    cases hr with
    | completed hl =>
      have hstate : (CallState.completed res).Accounted res.callId
          [({ r with inbox := rest }, .completed res)] [res] := ⟨rfl, ⟨_, rfl⟩, rfl⟩
      refine ha.ended ho.left hm (fun _ => rfl) rfl hstate nofun hl
        (by simp [Entry.kind]) fun id' => ?_
      by_cases he : res.callId = id' <;> simp [resultsOf, Entry.result?, he]

theorem applyAll {ms : List Move} (ha : Accounts h r) (hown : r.TasksOwn)
    (ho : Orderly (h ++ history ms r)) : Accounts (h ++ history ms r) (r.applyAll ms) := by
  refine (applyAll_keeps (I := fun g q => q.TasksOwn ∧ (Orderly g → Accounts g q))
    ?_ ?_ ?_ ?_ ⟨hown, fun _ => ha⟩ ms).2 ho
  · exact fun ⟨hown, ha⟩ hq => ⟨hq.tasksOwn hown, fun ho => (ha ho).quiet hq⟩
  · exact fun ⟨hown, ha⟩ hm => ⟨hm.tasksOwn hown, fun ho => (ha ho.left).pushed ho hm⟩
  · exact fun ⟨hown, ha⟩ hinbox hm =>
      ⟨hm.tasksOwn hown, fun ho => (ha ho.left).delivered hinbox ho hm⟩
  · intro g q i q' ⟨hown, ha⟩ hs
    have hadv := stepTask?_advances hs hown
    exact ⟨hadv.tasksOwn hown, fun ho => (ha ho).advances ho hadv⟩

end Accounts

end Run

end TagLedger
