import Mathlib.Tactic.Common
import TagLedger.Proofs.Run.Gate

/-!
The calls that working memory holds. They are the last of all calls that were committed, in their
order, and as many as retention allows; late data changes the call that it belongs to and no other.
-/

namespace TagLedger

namespace WorkingMemory

/-- The memory that a chain leads to holds the last calls, and drops none while there is room. -/
theorem exists_calls_rebuild (ret : Retention) (m : WorkingMemory) (chain : List Entry) :
    ∃ dropped, m.calls ++ callsOf chain = dropped ++ (RunRecord.rebuild ret m chain).calls ∧
      (dropped = [] ∨ ret.maxCalls ≤ (RunRecord.rebuild ret m chain).calls.length) := by
  induction chain generalizing m with
  | nil => exact ⟨[], by simp [callsOf], .inl rfl⟩
  | cons e chain ih =>
    obtain ⟨later, hsplit, hroom⟩ := ih (ret.trim (m.push e))
    have hpush : (m.push e).calls = m.calls ++ callsOf [e] := by
      cases e <;> simp [push, callsOf, Entry.call?]
    have htrim : (ret.trim (m.push e)).calls =
        (m.push e).calls.drop ((m.push e).calls.length - ret.maxCalls) := rfl
    rw [htrim] at hsplit
    set calls := (m.push e).calls
    refine ⟨calls.take (calls.length - ret.maxCalls) ++ later, ?_, ?_⟩
    · rw [List.append_assoc, RunRecord.rebuild_cons, ← hsplit, ← List.append_assoc,
        List.take_append_drop, hpush, List.append_assoc, ← callsOf_append]
      rfl
    · rw [RunRecord.rebuild_cons]
      rcases hroom with rfl | hroom
      · have hlength := congrArg List.length hsplit
        simp only [List.nil_append, List.length_append, List.length_drop] at hlength
        rcases Nat.le_total calls.length ret.maxCalls with hle | hle
        · exact .inl (by simp [hle])
        · exact .inr (by omega)
      · exact .inr hroom

/-- Changing the first element that satisfies `p` changes the first of all that do. -/
theorem filter_updateFirst {α : Type} {p : α → Bool} {f : α → α} (hf : ∀ x, p (f x) = p x)
    (xs : List α) : (updateFirst p f xs).filter p = updateFirst p f (xs.filter p) := by
  induction xs with
  | nil => rfl
  | cons x xs ih => cases hx : p x <;> simp [updateFirst, hx, hf, ih]

/-- Elements that do not satisfy `p` are not concerned. -/
theorem filter_updateFirst_of_disjoint {α : Type} {p q : α → Bool} {f : α → α}
    (hq : ∀ x, p x = true → q x = false) (hf : ∀ x, p x = true → q (f x) = false) (xs : List α) :
    (updateFirst p f xs).filter q = xs.filter q := by
  induction xs with
  | nil => rfl
  | cons x xs ih =>
    cases hx : p x with
    | true => simp [updateFirst, hx, hq x hx, hf x hx]
    | false => simp [updateFirst, hx, List.filter_cons, ih]

end WorkingMemory

namespace Run

variable {own : List String} {es : List Entry} {r r' q : Run} {id : Uuid} {m : Message}

def heldCalls (id : Uuid) (r : Run) : List Entry.Call :=
  r.ledger.memory.calls.filter fun c => c.id == id

theorem mem_heldCalls {c : Entry.Call} :
    c ∈ heldCalls id r ↔ c ∈ r.ledger.memory.calls ∧ c.id = id := by
  simp [heldCalls]

/-- If memory holds one call of an identifier, the identifier finds it. -/
theorem call?_of_heldCalls {c : Entry.Call} (h : heldCalls id r = [c]) :
    r.ledger.memory.call? id = some c := by
  rw [WorkingMemory.call?, ← List.head?_filter]
  exact congrArg List.head? h

/-- Commits add the calls that they log, and may drop others. -/
theorem Logs.heldCalls_sublist (hl : Logs own es r r') (id : Uuid) :
    (heldCalls id r').Sublist
      (heldCalls id r ++ (callsOf es).filter fun c => c.id == id) := by
  have hsub := WorkingMemory.calls_rebuild_sublist r.setup.config.retention
    r.ledger.memory.forgetEpisodes es
  rw [← hl.memory] at hsub
  have hheld := hsub.filter fun c => c.id == id
  rwa [List.filter_append] at hheld

theorem heldCalls_patchCall_self (data : Json) :
    heldCalls id (r.patchCall id data) =
      WorkingMemory.updateFirst (·.id == id) (fun c => { c with data := some data })
        (heldCalls id r) := by
  have hmemory : (r.patchCall id data).ledger.memory = r.ledger.memory.setCallData id data := by
    unfold patchCall
    split <;> rfl
  rw [heldCalls, hmemory]
  exact WorkingMemory.filter_updateFirst (p := fun c : Entry.Call => c.id == id)
    (f := fun c => { c with data := some data }) (fun _ => rfl) r.ledger.memory.calls

theorem heldCalls_patchCall_of_ne {id' : Uuid} (h : id' ≠ id) (data : Json) :
    heldCalls id (r.patchCall id' data) = heldCalls id r := by
  have hmemory : (r.patchCall id' data).ledger.memory = r.ledger.memory.setCallData id' data := by
    unfold patchCall
    split <;> rfl
  have hne (c : Entry.Call) (hc : (c.id == id') = true) : (c.id == id) = false := by
    rw [beq_iff_eq.mp hc]
    exact beq_eq_false_iff_ne.mpr h
  rw [heldCalls, hmemory]
  exact WorkingMemory.filter_updateFirst_of_disjoint (p := fun c : Entry.Call => c.id == id')
    (f := fun c => { c with data := some data }) hne hne r.ledger.memory.calls

/-- The identifiers of the calls in memory are the last of those before the run and in the chain;
they are as many as retention allows if any are dropped. -/
def HoldsLast (before : List Uuid) (r : Run) : Prop :=
  ∃ dropped, before ++ callIds r.ledger.chain =
      dropped ++ r.ledger.memory.calls.map (·.id) ∧
    (dropped = [] ∨ r.setup.config.retention.maxCalls ≤ r.ledger.memory.calls.length)

namespace HoldsLast

variable {before : List Uuid}

theorem logs (h : HoldsLast before r) (hl : Logs own es r r') : HoldsLast before r' := by
  obtain ⟨dropped, hsplit, hroom⟩ := h
  obtain ⟨later, hsplit', hroom'⟩ := WorkingMemory.exists_calls_rebuild
    r.setup.config.retention r.ledger.memory.forgetEpisodes es
  rw [← hl.memory] at hsplit' hroom'
  have hcalls : r.ledger.memory.calls ++ callsOf es = later ++ r'.ledger.memory.calls := hsplit'
  have hids := congrArg (List.map (·.id)) hcalls
  rw [List.map_append, List.map_append] at hids
  refine ⟨dropped ++ later.map (·.id), ?_, ?_⟩
  · rw [hl.chain, callIds_append, ← List.append_assoc, hsplit, List.append_assoc, List.append_assoc,
      ← hids]
    rfl
  · rw [hl.setup]
    rcases hroom' with rfl | hroom'
    · refine hroom.imp (fun hdropped => by simp [hdropped]) fun hfull => Nat.le_trans hfull ?_
      have hlength := congrArg List.length hcalls
      simp only [List.nil_append, List.length_append] at hlength
      omega
    · exact .inr hroom'

theorem of_eq (h : HoldsLast before r) (hsetup : r'.setup = r.setup)
    (hchain : callIds r'.ledger.chain = callIds r.ledger.chain)
    (hmemory : r'.ledger.memory.calls.map (·.id) = r.ledger.memory.calls.map (·.id)) :
    HoldsLast before r' := by
  obtain ⟨dropped, hsplit, hroom⟩ := h
  refine ⟨dropped, by rw [hchain, hmemory, hsplit], hroom.imp_right fun hfull => ?_⟩
  have hlength := congrArg List.length hmemory
  rw [List.length_map, List.length_map] at hlength
  rwa [hsetup, hlength]

theorem patchCall (h : HoldsLast before r) (id : Uuid) (data : Json) :
    HoldsLast before (r.patchCall id data) := by
  have hmemory : (r.ledger.memory.setCallData id data).calls.map (·.id) =
      r.ledger.memory.calls.map (·.id) := WorkingMemory.map_updateFirst fun _ _ => rfl
  unfold Run.patchCall
  split
  · exact h.of_eq rfl rfl hmemory
  · rename_i c hfound
    exact h.of_eq rfl (callIds_replaceFirst hfound data) hmemory

theorem reception (h : HoldsLast before q) (hm : Reception q m r') : HoldsLast before r' := by
  have hopened (c : Entry.Call) : HoldsLast before (q.openSlot c) := h.of_eq rfl rfl rfl
  have hresolved (id : Uuid) (state : CallState) : HoldsLast before (q.resolveSlot id state) :=
    h.of_eq rfl rfl rfl
  cases hm with
  | plain _ hl =>
    obtain ⟨_, _, hl, _⟩ := hl
    exact h.logs hl
  | result _ hl => exact h.logs hl
  | refused _ _ hl => exact h.logs hl
  | accepted _ _ hl => exact ((hopened _).logs hl).of_eq rfl rfl rfl
  | prepared id data => exact h.patchCall id data
  | failed hl => exact (hresolved _ _).logs hl
  | completed hl => exact (hresolved _ _).logs hl

theorem calm (h : HoldsLast before r) (hc : Calm r r') : HoldsLast before r' := by
  cases hc with
  | logs hl =>
    obtain ⟨_, _, hl, _⟩ := hl
    exact h.logs hl
  | cancels => exact h
  | waits ms => exact h

theorem steps {i : Nat} (h : HoldsLast before r) (hs : r.stepTask? i = some r') :
    HoldsLast before r' := by
  obtain ⟨t, t', sent, ht, hconduct⟩ := stepTask?_conduct hs
  have hsteps := hconduct.steps ht
  exact h.of_eq hsteps.setup (by rw [hsteps.ledger]) (by rw [hsteps.ledger])

/-- An identifier that not too many others follow is still there. -/
theorem mem_of_length_le (h : HoldsLast before r) {front rest : List Uuid}
    (hids : callIds r.ledger.chain = front ++ id :: rest)
    (hroom : (id :: rest).length ≤ r.setup.config.retention.maxCalls) :
    id ∈ r.ledger.memory.calls.map (·.id) := by
  obtain ⟨dropped, hsplit, hfull⟩ := h
  rw [hids, ← List.append_assoc] at hsplit
  have hlength := congrArg List.length hsplit
  simp only [List.length_append, List.length_cons, List.length_map] at hlength hroom
  have hbefore : dropped.length ≤ (before ++ front).length := by
    rw [List.length_append]
    rcases hfull with rfl | hfull
    · exact Nat.zero_le _
    · omega
  have hat := congrArg (·[(before ++ front).length]?) hsplit
  simp only [List.getElem?_append_right hbefore, List.getElem?_append_right (Nat.le_refl _),
    Nat.sub_self, List.getElem?_cons_zero] at hat
  exact List.mem_of_getElem? hat.symm

end HoldsLast

end Run

end TagLedger
