import Mathlib.Tactic.Common
import TagLedger.Proofs.Run.Accounts
import TagLedger.Proofs.Run.Settle

/-!
Every routed call has one fate: it is refused before it gets a slot, it fails before its action
runs, or it completes with one result; as long as none of these has happened, its slot waits.
-/

namespace TagLedger.Run

/-- What has become, after a history, of a call that was routed in the run `q`. -/
inductive Fate (h : List (Run × Message)) (r q : Run) (c : Entry.Call) : Prop where
  /-- The call is logged with one event, one error is recorded, and there is no slot for it. -/
  | refused {err : RunError} {id : Uuid} {now : Timestamp} {name : String} {data : Json}
    (hp : PreparedCall.ofCall q.ledger.actions c = .error err)
    (hlog : Logs [err.message] [.call c, Entry.reportEvent id now name data "callId" c.id]
      q (q.dispatch c))
    (hname : name = "error:action_call" ∨ name = "error:action_call:parsingError")
    (hslot : c.id ∉ r.ledger.slots.map (·.callId)) (htaken : endingsOf c.id h = [])
    (hresults : resultsOf c.id r.ledger.chain = [])
  /-- The slot still waits. -/
  | waiting
    (hslot : r.ledger.slots[q.ledger.slots.length]? = some ⟨c.name, c.id, .waiting⟩)
    (htaken : endingsOf c.id h = []) (hresults : resultsOf c.id r.ledger.chain = [])
  /-- One failure was taken, in the run `p`. It recorded one error, and logged an event only if the
  payload could not be used. -/
  | failed {err : RunError} {p : Run} {es : List Entry}
    (hslot : r.ledger.slots[q.ledger.slots.length]? = some ⟨c.name, c.id, .failed err.message⟩)
    (htaken : endingsOf c.id h = [(p, .failed c.id err)])
    (hlog : Logs [err.message] es (p.resolveSlot c.id (.failed err.message))
      (receive (.failed c.id err) p))
    (hes : (∃ text, err = .failure .template text) ∧ es = [] ∨
      ∃ d text id now, err = .malformed (.call d) text ∧
        es = [Entry.reportEvent id now "error:action_call:parsingError"
          (.obj [("message", .str text)]) "callId" c.id])
    (hresults : resultsOf c.id r.ledger.chain = [])
  /-- One result was taken, in the run `p`. It was logged and recorded no error. -/
  | completed {res : Entry.Result} {p : Run}
    (hslot : r.ledger.slots[q.ledger.slots.length]? = some ⟨c.name, c.id, .completed res⟩)
    (htaken : endingsOf c.id h = [(p, .completed res)])
    (hlog : Logs [] [.result res] (p.resolveSlot c.id (.completed res))
      (receive (.completed res) p))
    (hresults : resultsOf c.id r.ledger.chain = [res])

/-- Every routed call is logged once and has a fate; calls in flight are those whose slots have no
outcome. -/
structure OneFateEach (h : List (Run × Message)) (r : Run) : Prop where
  entries : callIds r.ledger.chain = (routedCalls h).map (·.2.id)
  fates : ∀ x ∈ routedCalls h, Fate h r x.1 x.2
  inFlight : r.ledger.inFlight = r.ledger.slots.countP CallSlot.isWaiting
  settled : r.ledger.inFlight = 0 → ∀ s ∈ r.ledger.slots, s.state ≠ .waiting ∧ s.state ≠ .dropped

variable {h : List (Run × Message)} {r q : Run} {c : Entry.Call}

theorem Accounts.fate_refused (ha : Accounts h r) (ho : Orderly h) (hx : (q, c) ∈ routedCalls h)
    {err : RunError} (hp : PreparedCall.ofCall q.ledger.actions c = .error err) : Fate h r q c := by
  have hslot : c.id ∉ r.ledger.slots.map (·.callId) := by
    rw [ha.callIds_slots]
    intro hmem
    obtain ⟨y, hy, hid⟩ := List.mem_map.mp hmem
    obtain ⟨hrouted, hok⟩ := List.mem_filter.mp hy
    obtain rfl : y = (q, c) := List.inj_on_of_nodup_map ho.distinct hrouted hx hid
    simp [hp, Except.isOk, Except.toBool] at hok
  obtain ⟨htaken, hresults⟩ := ha.strangers c.id hslot
  obtain ⟨id, now, hlog⟩ := dispatch_refused hp
  obtain ⟨name, data, hevent, hname⟩ := (PreparedCall.isRefusalOf_of_ofCall hp).ofError_eq id now
  rw [hevent] at hlog
  exact .refused hp hlog hname hslot htaken hresults

theorem Accounts.fate_accepted (ha : Accounts h r) (hx : (q, c) ∈ acceptedCalls h) :
    Fate h r q c := by
  obtain ⟨k, hk⟩ := List.mem_iff_getElem?.mp hx
  have hplace := ha.places k (q, c) hk
  have hboth : (r.ledger.slots[k]?).map (fun s => (s.name, s.callId)) = some (c.name, c.id) := by
    rw [← List.getElem?_map, ha.slots, List.getElem?_map, hk]
    rfl
  obtain ⟨⟨name, id, state⟩, hs, heq⟩ := Option.map_eq_some_iff.mp hboth
  obtain ⟨rfl, rfl⟩ := Prod.mk.inj heq
  have hstate := ha.states _ (List.mem_of_getElem? hs)
  subst hplace
  cases state with
  | waiting => exact .waiting hs hstate.1 hstate.2
  | dropped => exact hstate.elim
  | completed res =>
    obtain ⟨hid, ⟨p, htaken⟩, hresults⟩ := hstate
    have hlog := receive_completed res p
    rw [hid] at hlog
    exact .completed hs htaken hlog hresults
  | failed reason =>
    obtain ⟨⟨p, err, htaken, rfl, hrej⟩, hresults⟩ := hstate
    obtain ⟨fresh, now, hlog⟩ := receive_failed c.id err p
    refine .failed hs htaken hlog ?_ hresults
    rcases hrej with ⟨text, rfl⟩ | ⟨d, text, rfl, hid⟩
    · exact .inl ⟨⟨text, rfl⟩, rfl⟩
    · have hid : d.id = c.id := hid
      exact .inr ⟨d, text, fresh, now, rfl, hid ▸ rfl⟩

theorem Accounts.oneFateEach (ha : Accounts h r) (ho : Orderly h) : OneFateEach h r where
  entries := ha.calls
  fates := fun x hx => by
    cases hp : PreparedCall.ofCall x.1.ledger.actions x.2 with
    | error err => exact ha.fate_refused ho hx hp
    | ok p =>
      refine ha.fate_accepted (List.mem_filter.mpr ⟨hx, ?_⟩)
      simp [hp, Except.isOk, Except.toBool]
  inFlight := ha.inFlight
  settled := fun hzero s hs => by
    rw [ha.inFlight] at hzero
    refine ⟨fun hwaiting => ?_, fun hdropped => ?_⟩
    · exact List.countP_eq_zero.mp hzero s hs (CallSlot.isWaiting_iff.mpr hwaiting)
    · have hstate := ha.states s hs
      rw [hdropped] at hstate
      exact hstate

theorem accounts_new (setup : Setup) (store : Store) (archive : Archive)
    (subscribers : Subscribers) : Accounts [] (new setup store archive subscribers) where
  slots := rfl
  places := fun k x hx => by simp [acceptedCalls, routedCalls] at hx
  calls := rfl
  inFlight := rfl
  tasks := rfl
  pending := fun k s t hs => by simp [new, Ledger.empty] at hs
  known := fun m hm => by simp [new] at hm
  rejections := fun id err hm => by simp [new] at hm
  states := fun s hs => by simp [new, Ledger.empty] at hs
  strangers := fun _ _ => ⟨rfl, rfl⟩

/-- Every call that was routed has one fate, under every schedule; and when settling comes to an
end, no call is in flight. -/
theorem applyAll_oneFateEach (setup : Setup) (store : Store) (archive : Archive)
    (subscribers : Subscribers) (ms : List Move)
    (ho : Orderly (history ms (new setup store archive subscribers))) :
    let r := (new setup store archive subscribers).applyAll ms
    OneFateEach (history ms (new setup store archive subscribers)) r ∧
      ∀ s s', Session.Settles s s' → s'.run = r → r.ledger.inFlight = 0 := by
  intro r
  have hown : (new setup store archive subscribers).TasksOwn := by simp [TasksOwn, new]
  have ha := (accounts_new setup store archive subscribers).applyAll hown ho
  exact ⟨ha.oneFateEach ho, fun s s' hs hr => hr ▸ hs.inFlight_eq_zero⟩

open Sample in
/-- A call that completes, and one that no action answers. -/
theorem applyAll_oneFateEach_completed_and_refused :
    let ms : List Move := [.start, .push (noteCall 1), .push (callNamed "absent" 2)] ++
      List.replicate 9 (.task 0) ++ [.deliver, .deliver]
    Orderly (history ms noteRun) ∧ OneFateEach (history ms noteRun) (noteRun.applyAll ms) := by
  intro ms
  have ho : Orderly (history ms noteRun) := ⟨by decide +kernel, by decide +kernel⟩
  exact ⟨ho, (applyAll_oneFateEach _ _ _ _ ms ho).1⟩

end TagLedger.Run
