import Mathlib.Tactic.Common
import TagLedger.Proofs.Run.CausalOrder
import TagLedger.Proofs.Run.Progress
import TagLedger.Proofs.Run.Writes

/-!
The ends of calls. Every call that is dispatched is ended at most once, and exactly once when no
call is in flight; the log shows how, and so does the slot of the call, unless a later call took
over its identifier.
-/

namespace TagLedger

/-- The call that a message ends, and the state that its slot gets. -/
def Message.answer? : Message → Option (Uuid × CallState)
  | .failed id err => some (id, .failed err.message)
  | .completed res => some (res.callId, .completed res)
  | _ => none

theorem Message.ends_of_answer? {m : Message} {id : Uuid} {state : CallState}
    (h : m.answer? = some (id, state)) : m.ends id = true := by
  cases m with
  | failed id' err =>
    cases h
    exact beq_self_eq_true _
  | completed res =>
    cases h
    exact beq_self_eq_true _
  | _ => cases h

/-- The log shows how a call ended whose end was taken when the chain was that long: its result
stands there, or an error is recorded. -/
def CallState.IsLogged (state : CallState) (place : Nat) (r : Run) : Prop :=
  match state with
  | .completed res => r.ledger.chain[place]? = some (.result res)
  | .failed reason => reason ∈ r.ledger.errors
  | _ => False

namespace Run

variable {h : List (Run × Message)} {r r' q : Run} {m : Message} {i k : Nat} {ms : List Move}
  {x : Run × Entry.Call} {y : Run × Message} {slots : List CallSlot} {id : Uuid}
  {state : CallState}

structure Answered (h : List (Run × Message)) (slots : List CallSlot) : Prop where
  told : ∀ s ∈ slots, s.state = .waiting ∨ s.state = .dropped ∨
    ∃ y ∈ h, y.2.answer? = some (s.callId, s.state)
  dropped : ∀ (k : Nat) s, slots[k]? = some s → s.state = .dropped →
    ∃ (j : Nat) (s' : CallSlot), k < j ∧ slots[j]? = some s' ∧ s'.callId = s.callId

namespace Answered

theorem noted (ha : Answered h slots) (y : Run × Message) : Answered (h ++ [y]) slots where
  told := fun s hs => by
    rcases ha.told s hs with hwaits | hdropped | ⟨z, hz, htold⟩
    · exact .inl hwaits
    · exact .inr (.inl hdropped)
    · exact .inr (.inr ⟨z, List.mem_append_left _ hz, htold⟩)
  dropped := ha.dropped

/-- The slots that wait under an identifier learn how the call ended. -/
theorem resolve (ha : Answered h slots) (hy : y.2.answer? = some (id, state))
    (hne : state ≠ .dropped) : Answered (h ++ [y]) (CallSlot.resolve id state slots) where
  told := fun s hs => by
    obtain ⟨s, hmem, rfl⟩ := List.mem_map.mp hs
    split
    · rename_i hawaits
      exact .inr (.inr ⟨y, by simp, (CallSlot.awaits_iff.mp hawaits).1 ▸ hy⟩)
    · exact (ha.noted y).told s hmem
  dropped := fun k s hs hdropped => by
    rcases CallSlot.of_resolve hs with ⟨hs, _⟩ | ⟨s, _, _, rfl⟩
    · obtain ⟨j, s', hj, hs', hid⟩ := ha.dropped k s hs hdropped
      obtain ⟨s'', hs'', hid'⟩ := CallSlot.exists_resolve id state hs'
      exact ⟨j, s'', hj, hs'', hid'.trans hid⟩
    · exact absurd hdropped hne

/-- A call begins under an identifier; slots that wait under it are dropped. -/
theorem add (ha : Answered h slots) (name : String) (id : Uuid) :
    Answered h (CallSlot.add slots name id) where
  told := fun s hs => by
    rcases List.mem_append.mp hs with hs | hs
    · obtain ⟨s, hmem, rfl⟩ := List.mem_map.mp hs
      split
      · exact .inr (.inl rfl)
      · exact ha.told s hmem
    · rw [List.mem_singleton.mp hs]
      exact .inl rfl
  dropped := fun k s hs hdropped => by
    have hlength : (CallSlot.resolve id .dropped slots).length = slots.length := List.length_map _
    rw [CallSlot.add_eq] at hs ⊢
    rcases getElem?_concat hs with hs | ⟨_, rfl⟩
    · rcases CallSlot.of_resolve hs with ⟨hs, _⟩ | ⟨s, hbefore, hawaits, rfl⟩
      · obtain ⟨j, s', hj, hs', hid⟩ := ha.dropped k s hs hdropped
        obtain ⟨s'', hs'', hid'⟩ := CallSlot.exists_resolve id .dropped hs'
        refine ⟨j, s'', hj, ?_, hid'.trans hid⟩
        rw [List.getElem?_append_left (List.getElem?_eq_some_iff.mp hs'').1, hs'']
      · have hlt := (List.getElem?_eq_some_iff.mp hbefore).1
        refine ⟨slots.length, ⟨name, id, .waiting⟩, hlt, ?_, ?_⟩
        · rw [← hlength, List.getElem?_concat_length]
        · exact (CallSlot.awaits_iff.mp hawaits).1.symm
    · cases hdropped

theorem reception (ha : Answered h q.ledger.slots) (hm : Reception q m r') :
    Answered (h ++ [(q, m)]) r'.ledger.slots := by
  cases hm with
  | plain _ hl =>
    obtain ⟨_, _, hl, _⟩ := hl
    exact hl.slots ▸ ha.noted _
  | result _ hl => exact hl.slots ▸ ha.noted _
  | refused _ _ hl => exact hl.slots ▸ ha.noted _
  | @accepted _ c p logged _ _ hl =>
    have hslots : logged.ledger.slots = CallSlot.add q.ledger.slots c.name c.id := hl.slots
    have hspawn : (logged.spawn c p q.ledger.slots.length).ledger.slots =
      CallSlot.add q.ledger.slots c.name c.id := hslots
    exact hspawn ▸ (ha.add c.name c.id).noted _
  | prepared id data => exact (patchCall_untouched id data q).slots ▸ ha.noted _
  | failed hl =>
    rw [hl.slots]
    exact ha.resolve rfl (by simp)
  | completed hl =>
    rw [hl.slots]
    exact ha.resolve rfl (by simp)

theorem applyAll (ha : Answered h r.ledger.slots) (ms : List Move) :
    Answered (h ++ history ms r) (r.applyAll ms).ledger.slots := by
  refine applyAll_keeps (I := fun h q => Answered h q.ledger.slots) ?_ ?_ ?_ ?_ ha ms
  · exact fun ha hq => hq.slots ▸ ha
  · exact fun ha hm => ha.reception hm
  · intro _ q _ rest _ ha _ hm
    have htaken : Answered _ { q with inbox := rest }.ledger.slots := ha
    exact htaken.reception hm
  · intro _ q i q' ha hs
    obtain ⟨t, t', sent, ht, hconduct⟩ := stepTask?_conduct hs
    exact (hconduct.steps ht).ledger ▸ ha

theorem new (setup : Setup) (store : Store) (archive : Archive) (subscribers : Subscribers) :
    Answered [] (new setup store archive subscribers).ledger.slots where
  told := by simp [Run.new, Ledger.empty]
  dropped := by simp [Run.new, Ledger.empty]

end Answered

def endsTaken (k : Nat) (ms : List Move) (r : Run) : List (Run × Message) :=
  (takenFrom k ms r).filter (·.2.isEnd)

/-- How a call that was accepted as number `k` has ended after a schedule. -/
structure EndsOnce (k : Nat) (x : Run × Entry.Call) (ms : List Move) (r : Run) : Prop where
  once : (endsTaken k ms r).length ≤ 1
  logged : ∀ y ∈ endsTaken k ms r, ∃ state, y.2.answer? = some (x.2.id, state) ∧
    state.IsLogged y.1.place (r.applyAll ms)
  settled : (r.applyAll ms).ledger.inFlight = 0 → (endsTaken k ms r).length = 1
  /-- If the call shares its identifier with no other, its slot tells the same. -/
  slot : (r.applyAll ms).ledger.inFlight = 0 →
    ((routedCalls (history ms r)).map (·.2.id)).count x.2.id = 1 →
    ∀ y ∈ endsTaken k ms r, ∀ state, y.2.answer? = some (x.2.id, state) →
      (r.applyAll ms).ledger.slots[k]? = some ⟨x.2.name, x.2.id, state⟩

theorem EndsLast.length_filter {isOver : Bool} {xs : List Message} (h : EndsLast isOver xs) :
    (xs.filter Message.isEnd).length = isOver.toNat := by
  have hnone {xs : List Message} (h : ∀ x ∈ xs, x.isEnd = false) : xs.filter Message.isEnd = [] :=
    List.filter_eq_nil_iff.mpr fun x hx => by simp [h x hx]
  cases h with
  | goesOn h => rw [hnone h, List.length_nil, Bool.toNat_false]
  | ended h hx => rw [List.filter_append, hnone h]; simp [hx]

section

variable {setup : Setup} {store : Store} {archive : Archive} {subscribers : Subscribers}

/-- The error of a call that was ended by one is recorded. -/
theorem error_mem_of_taken (hr : r = new setup store archive subscribers)
    (hy : y ∈ takenFrom k ms r) {err : RunError} (herr : y.2 = .failed id err) :
    err.message ∈ (r.applyAll ms).ledger.errors := by
  subst hr
  obtain ⟨j, hj, _⟩ := (mem_takenFrom rfl).mp hy
  obtain ⟨before, after, rest, i, rfl, _, htaken, _⟩ := exists_delivery rfl hj
  have hthere : err.message ∈ (receive y.2 y.1).ledger.errors := by
    rw [herr]
    obtain ⟨_, _, hlog⟩ := receive_failed id err y.1
    obtain ⟨faults, hfaults, _⟩ := hlog.errors
    simp [hfaults]
  have hdone :
      ResultsDone ((new setup store archive subscribers).applyAll (before ++ [.deliver])) :=
    (ResultsDone.new setup store archive subscribers).applyAll _
  have hlater := (Writes.applyAll hdone after).errors
  rw [applyAll_concat, htaken] at hlater
  rw [← List.singleton_append, ← List.append_assoc, applyAll_append, applyAll_concat, htaken]
  exact hlater.subset hthere

theorem endsTaken_length (hr : r = new setup store archive subscribers)
    (hx : (acceptedCalls (history ms r))[k]? = some x) :
    (endsTaken k ms r).length ≤ 1 ∧
      ((r.applyAll ms).ledger.inFlight = 0 → (endsTaken k ms r).length = 1) := by
  obtain ⟨t, ht, hends, _⟩ := takenFrom_endsLast hr hx
  have hlength : (endsTaken k ms r).length =
      (((takenFrom k ms r).map (·.2)).filter Message.isEnd).length := by
    rw [endsTaken, List.filter_map, List.length_map]
    rfl
  have htotal := hends.length_filter
  rw [List.filter_append, List.length_append, ← hlength] at htotal
  have hover := Bool.toNat_le t.isOver
  refine ⟨by omega, fun hzero => ?_⟩
  have hcounted : Counted (r.applyAll ms) :=
    hr ▸ counted_applyAll_new setup store archive subscribers ms
  rw [waitingFrom_eq_nil hr hx hzero, hcounted.isOver_of_inFlight hzero ht] at htotal
  simpa using htotal

/-- An end that was taken of a call names the call and is logged where it was taken. -/
theorem logged_of_mem_endsTaken (hr : r = new setup store archive subscribers)
    (hx : (acceptedCalls (history ms r))[k]? = some x) (hy : y ∈ endsTaken k ms r) :
    ∃ state, y.2.answer? = some (x.2.id, state) ∧ state.IsLogged y.1.place (r.applyAll ms) := by
  obtain ⟨hy, hend⟩ := List.mem_filter.mp hy
  obtain ⟨_, _, _, hown⟩ := takenFrom_endsLast hr hx
  have hends := hown y hy hend
  cases hm : y.2 with
  | completed res =>
    rw [hm, Message.ends, beq_iff_eq] at hends
    refine ⟨.completed res, by rw [Message.answer?, hends], ?_⟩
    have hland := landed_of_mem_takenFrom (hr ▸ rfl) hy
    exact getElem?_of_withoutData (by simp [Entry.kind])
      (hland.entry (.result res) (by rw [hm, Message.adds?]))
  | failed id err =>
    rw [hm, Message.ends, beq_iff_eq] at hends
    exact ⟨.failed err.message, by rw [Message.answer?, hends], error_mem_of_taken hr hy hm⟩
  | _ =>
    rw [hm] at hend
    cases hend

/-- When no call is in flight the slot of a call with an identifier of its own tells how the call
ended. -/
theorem slot_of_mem_endsTaken (hr : r = new setup store archive subscribers)
    (hx : (acceptedCalls (history ms r))[k]? = some x)
    (hzero : (r.applyAll ms).ledger.inFlight = 0)
    (hid : ((routedCalls (history ms r)).map (·.2.id)).count x.2.id = 1)
    (hy : y ∈ endsTaken k ms r) (hstate : y.2.answer? = some (x.2.id, state)) :
    (r.applyAll ms).ledger.slots[k]? = some ⟨x.2.name, x.2.id, state⟩ := by
  have hroster : Roster (history ms r) (r.applyAll ms) :=
    hr ▸ roster_applyAll_new setup store archive subscribers ms
  have hattended : Attended (history ms r) (r.applyAll ms) :=
    hr ▸ (Attended.new setup store archive subscribers).applyAll ms
  have hcounted : Counted (r.applyAll ms) :=
    hr ▸ counted_applyAll_new setup store archive subscribers ms
  have hanswered : Answered (history ms r) (r.applyAll ms).ledger.slots :=
    Answered.applyAll (h := []) (hr ▸ .new setup store archive subscribers) ms
  obtain ⟨t, s, _, hs, _, hname, hcall⟩ := hroster.exists_task hx
  rcases hanswered.told s (List.mem_of_getElem? hs) with hwaits | hdropped | ⟨z, hz, htold⟩
  · exact absurd hwaits (hattended.ne_waiting hcounted hzero hs)
  · -- A later slot under the identifier would be that of another call.
    obtain ⟨j, s', hj, hs', hsame⟩ := hanswered.dropped k s hs hdropped
    obtain ⟨x', hx', hid'⟩ := hroster.exists_accepted hs'
    have hjk := eq_of_accepted hid hx hx' (hid'.symm.trans (hsame.trans hcall))
    exact absurd hj (Nat.not_lt_of_ge hjk.le)
  · rw [hcall] at htold
    have hends := Message.ends_of_answer? htold
    have hmem : z ∈ endsTaken k ms r := List.mem_filter.mpr
      ⟨mem_takenFrom_of_ends hr hx hid hz hends, Message.isEnd_of_ends hends⟩
    obtain ⟨e, he⟩ := List.length_eq_one_iff.mp ((endsTaken_length hr hx).2 hzero)
    rw [he] at hy hmem
    rw [List.mem_singleton.mp hy, ← List.mem_singleton.mp hmem, htold] at hstate
    obtain ⟨_, rfl⟩ := Prod.mk.inj (Option.some.inj hstate)
    rw [hs, ← hname, ← hcall]

/-- Every call that is accepted ends once. -/
theorem endsOnce_of_accepted (hr : r = new setup store archive subscribers)
    (hx : (acceptedCalls (history ms r))[k]? = some x) : EndsOnce k x ms r where
  once := (endsTaken_length hr hx).1
  logged := fun _ hy => logged_of_mem_endsTaken hr hx hy
  settled := (endsTaken_length hr hx).2
  slot := fun hzero hid _ hy _ hstate => slot_of_mem_endsTaken hr hx hzero hid hy hstate

end

end Run

end TagLedger
