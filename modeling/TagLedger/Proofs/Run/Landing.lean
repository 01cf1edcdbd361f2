import Mathlib.Tactic.Common
import TagLedger.Proofs.Run.Places
import TagLedger.Proofs.Run.Posts
import TagLedger.Proofs.Run.Roster

/-!
Whatever is taken in stands in the chain where the chain ended at that moment, and stays there. A
result in the chain was brought by the end of a call or came from outside.
-/

namespace TagLedger

/-- The first entry that a message adds to the chain, if that does not depend on the run. -/
def Message.adds? : Message → Option Entry
  | .push e =>
    match e.finished with
    | .input _ => none
    | .output _ => none
    | e => some e
  | .completed res => some (.result res)
  | _ => none

namespace Message

variable {m : Message}

theorem adds?_of_event? {ev : Entry.Event} (h : m.event? = some ev) :
    m.adds? = some (.event ev) := by
  cases m with
  | push e => rw [adds?, event?_push.mp h]
  | _ => cases h

theorem adds?_of_call? {c : Entry.Call} (h : m.call? = some c) : m.adds? = some (.call c) := by
  cases m with
  | push e =>
    have hc : e.finished.call? = some c := h
    cases he : e.finished with
    | call d =>
      rw [he] at hc
      cases hc
      rw [adds?, he]
    | _ =>
      rw [he] at hc
      cases hc
  | _ => cases h

end Message

namespace Run

variable {h : List (Run × Message)} {r r' q : Run} {m : Message} {e : Entry} {i j k s : Nat}
  {ms : List Move} {x : Run × Entry.Call} {y : Run × Message}

/-- Where the chain ends. -/
def place (r : Run) : Nat := r.ledger.chain.length

theorem receive_entry (he : m.adds? = some e) (r : Run) :
    ∃ es, (receive m r).ledger.chain = r.ledger.chain ++ e :: es := by
  cases m with
  | push x =>
    have hchain : (receive (.push x) r).ledger.chain = _ := r.chain_route x.finished
    cases hx : x.finished with
    | call c =>
      rw [Message.adds?, hx] at he
      cases he
      rw [hx] at hchain
      cases hp : PreparedCall.ofCall r.ledger.actions c with
      | ok p => exact ⟨[], by simpa only [entriesFor, hp] using hchain⟩
      | error err => exact ⟨_, by simpa only [entriesFor, hp] using hchain⟩
    | input body =>
      rw [Message.adds?, hx] at he
      cases he
    | output body =>
      rw [Message.adds?, hx] at he
      cases he
    | _ =>
      rw [Message.adds?, hx] at he
      cases he
      rw [hx] at hchain
      exact ⟨[], hchain⟩
  | completed res =>
    cases he
    exact ⟨[], (receive_completed res r).chain⟩
  | _ => cases he

/-- An event is committed as it is, and nothing with it. -/
theorem receive_event {ev : Entry.Event} (he : m.event? = some ev) (r : Run) :
    (receive m r).ledger.chain = r.ledger.chain ++ [.event ev] := by
  cases m with
  | push x =>
    have hchain : (receive (.push x) r).ledger.chain = _ := r.chain_route x.finished
    rw [Message.event?_push.mp he] at hchain
    exact hchain
  | _ => cases he

structure Landed (y : Run × Message) (r : Run) : Prop where
  place : y.1.place ≤ r.place
  entry : ∀ e, y.2.adds? = some e → r.chainWithoutData[y.1.place]? = some e.withoutData

namespace Landed

theorem lt (hl : Landed y r) (he : y.2.adds? = some e) : y.1.place < r.place := by
  obtain ⟨hlt, _⟩ := List.getElem?_eq_some_iff.mp (hl.entry e he)
  rwa [chainWithoutData, List.length_map] at hlt

theorem grows (hl : Landed y r)
    (hr : ∃ es, r'.chainWithoutData = r.chainWithoutData ++ es) : Landed y r' := by
  obtain ⟨es, hes⟩ := hr
  refine ⟨hl.place.trans ?_, fun e he => ?_⟩
  · have hlength := congrArg List.length hes
    rw [chainWithoutData, chainWithoutData, List.length_append, List.length_map,
      List.length_map] at hlength
    exact Nat.le.intro hlength.symm
  · have hentry := hl.entry e he
    rw [hes, List.getElem?_append_left (List.getElem?_eq_some_iff.mp hentry).1, hentry]

theorem receive (m : Message) (q : Run) : Landed (q, m) (receive m q) where
  place := by
    obtain ⟨es, hes⟩ := (receive_reception m q).chainWithoutData
    have hlength := congrArg List.length hes
    rw [chainWithoutData, chainWithoutData, List.length_append, List.length_map,
      List.length_map] at hlength
    exact Nat.le.intro hlength.symm
  entry := fun e he => by
    obtain ⟨es, hes⟩ := receive_entry he q
    have hplace : q.place = (q.ledger.chain.map Entry.withoutData).length :=
      (List.length_map _).symm
    simp [chainWithoutData, hes, hplace]

end Landed

theorem chainWithoutData_of_quiet (hq : Quiet r r') :
    ∃ es : List Entry, r'.chainWithoutData = r.chainWithoutData ++ es.map Entry.withoutData ∧
      ∀ e ∈ es, e.IsPlain := by
  obtain ⟨es, hes, hplain⟩ := hq.chain
  refine ⟨es, ?_, hplain⟩
  rw [chainWithoutData, hes, List.map_append]
  rfl

/-- Everything that a schedule takes in lands, and stays where it is. -/
theorem landed_applyAll (ms : List Move) (r : Run) (hy : y ∈ history ms r) :
    Landed y (r.applyAll ms) := by
  refine applyAll_carries (I := fun g q => ∀ y ∈ g, Landed y q) (g := []) ?_ ?_ ?_ ?_ (by simp) ms
    y hy
  · intro g q q' hg hq z hz
    obtain ⟨es, hes, _⟩ := chainWithoutData_of_quiet hq
    exact (hg z hz).grows ⟨_, hes⟩
  · intro g q e hg z hz
    rcases List.mem_append.mp hz with hz | hz
    · exact (hg z hz).grows (receive_reception _ _).chainWithoutData
    · rw [List.mem_singleton.mp hz]
      exact .receive _ _
  · intro g q m rest hg _ z hz
    rcases List.mem_append.mp hz with hz | hz
    · exact Landed.grows (hg z hz) (receive_reception m { q with inbox := rest }).chainWithoutData
    · rw [List.mem_singleton.mp hz]
      exact .receive _ _
  · intro g q i q' hg hs z hz
    obtain ⟨t, t', sent, ht, hconduct⟩ := stepTask?_conduct hs
    refine (hg z hz).grows ⟨[], ?_⟩
    rw [chainWithoutData, (hconduct.steps ht).ledger, List.append_nil]
    rfl

/-- A result comes into the chain as the end of a call or from outside. -/
def BringsResult (y : Run × Message) (s : Nat) (res : Entry.Result) : Prop :=
  y.1.place = s ∧ (y.2 = .completed res ∨ y.2.result? = some res)

theorem Reception.bringsResult (hm : Reception q m r') {res : Entry.Result}
    (hs : r'.chainWithoutData[s]? = some (.result res)) :
    q.chainWithoutData[s]? = some (.result res) ∨ BringsResult (q, m) s res := by
  have hplain {es : List Entry} (hes : ∀ e ∈ es, e.kind ≠ .result)
      (hchain : r'.ledger.chain = q.ledger.chain ++ es) :
      q.chainWithoutData[s]? = some (.result res) := by
    rw [Run.chainWithoutData, hchain, List.map_append] at hs
    rcases Nat.lt_or_ge s (q.ledger.chain.map Entry.withoutData).length with hlt | hge
    · rwa [List.getElem?_append_left hlt] at hs
    · rw [List.getElem?_append_right hge] at hs
      obtain ⟨e, he, hbare⟩ := List.mem_map.mp (List.mem_of_getElem? hs)
      refine absurd ?_ (hes e he)
      cases e <;> cases hbare
      rfl
  have hone {res' : Entry.Result} (hchain : r'.ledger.chain = q.ledger.chain ++ [.result res']) :
      q.chainWithoutData[s]? = some (.result res) ∨ (q.place = s ∧ res' = res) := by
    rw [Run.chainWithoutData, hchain, List.map_append] at hs
    rcases getElem?_concat hs with hs | ⟨hplace, hres⟩
    · exact .inl hs
    · rw [List.length_map] at hplace
      cases hres
      exact .inr ⟨hplace.symm, rfl⟩
  cases hm with
  | plain _ hl =>
    obtain ⟨_, _, hl, hes⟩ := hl
    exact .inl (hplain (fun e he => (hes e he).2) hl.chain)
  | @result x res' _ he hl =>
    rcases hone hl.chain with h | ⟨hplace, rfl⟩
    · exact .inl h
    · refine .inr ⟨hplace, .inr ?_⟩
      rw [Message.result?, he]
      rfl
  | refused _ _ hl =>
    refine .inl (hplain (fun e he => ?_) hl.chain)
    rcases List.mem_cons.mp he with rfl | he
    · simp [Entry.kind]
    · exact (Entry.isPlain_of_mem_ofError he).2
  | accepted _ _ hl => exact .inl (hplain (by simp [Entry.kind]) hl.chain)
  | prepared id data =>
    rw [chainWithoutData_patchCall] at hs
    exact .inl hs
  | failed hl => exact .inl (hplain (fun e he => (Entry.isPlain_of_mem_ofError he).2) hl.chain)
  | completed hl =>
    rcases hone hl.chain with h | ⟨hplace, rfl⟩
    · exact .inl h
    · exact .inr ⟨hplace, .inl rfl⟩

/-- Every result in the chain of a run that began without one was brought by something taken in. -/
theorem results_applyAll (hr : r.ledger.chain = []) (ms : List Move) {res : Entry.Result}
    (hs : (r.applyAll ms).chainWithoutData[s]? = some (.result res)) :
    ∃ y ∈ history ms r, BringsResult y s res := by
  refine applyAll_keeps (g := []) (I := fun g q => ∀ s res,
    q.chainWithoutData[s]? = some (.result res) → ∃ y ∈ g, BringsResult y s res) ?_ ?_ ?_ ?_ ?_ ms
    s res hs
  · intro g q q' hg hq s res hs
    obtain ⟨es, hes, hplain⟩ := chainWithoutData_of_quiet hq
    rw [hes] at hs
    rcases Nat.lt_or_ge s q.chainWithoutData.length with hlt | hge
    · exact hg s res (List.getElem?_append_left hlt ▸ hs)
    · rw [List.getElem?_append_right hge] at hs
      obtain ⟨e, he, hbare⟩ := List.mem_map.mp (List.mem_of_getElem? hs)
      refine absurd ?_ (hplain e he).2
      cases e <;> cases hbare
      rfl
  · intro g q e q' hg hm s res hs
    rcases hm.bringsResult hs with hs | hbrings
    · obtain ⟨y, hy, hbrings⟩ := hg s res hs
      exact ⟨y, List.mem_append_left _ hy, hbrings⟩
    · exact ⟨_, List.mem_append_right _ List.mem_cons_self, hbrings⟩
  · intro g q m rest q' hg _ hm s res hs
    rcases hm.bringsResult hs with hs | hbrings
    · obtain ⟨y, hy, hbrings⟩ := hg s res hs
      exact ⟨y, List.mem_append_left _ hy, hbrings⟩
    · exact ⟨_, List.mem_append_right _ List.mem_cons_self, hbrings⟩
  · intro g q i q' hg hs s res hres
    obtain ⟨t, t', sent, ht, hconduct⟩ := stepTask?_conduct hs
    rw [chainWithoutData, (hconduct.steps ht).ledger] at hres
    exact hg s res hres
  · intro s res hs
    rw [chainWithoutData, hr] at hs
    cases hs

/-- Entries other than calls stand in the chain as they are. -/
theorem getElem?_of_withoutData (he : e.kind ≠ .call)
    (h : r.chainWithoutData[s]? = some e.withoutData) : r.ledger.chain[s]? = some e := by
  rw [chainWithoutData, List.getElem?_map] at h
  obtain ⟨d, hd, hbare⟩ := Option.map_eq_some_iff.mp h
  rw [hd, Option.some.injEq]
  cases d <;> cases e <;> first | exact hbare | exact absurd rfl he | cases hbare

theorem Landed.event (hl : Landed y r) {ev : Entry.Event} (he : y.2.event? = some ev) :
    r.ledger.chain[y.1.place]? = some (.event ev) :=
  getElem?_of_withoutData nofun (hl.entry _ (Message.adds?_of_event? he))

theorem Landed.event_lt (hl : Landed y r) (he : y.2.event?.isSome = true) :
    y.1.place < r.place := by
  obtain ⟨ev, hev⟩ := Option.isSome_iff_exists.mp he
  exact hl.lt (Message.adds?_of_event? hev)

/-- The moment in which a call was taken in. -/
theorem exists_routed (hx : (acceptedCalls h)[k]? = some x) :
    ∃ m, (x.1, m) ∈ h ∧ m.call? = some x.2 := by
  have hmem : x ∈ routedCalls h := (List.mem_filter.mp (List.mem_of_getElem? hx)).1
  obtain ⟨y, hy, hc⟩ := List.mem_filterMap.mp hmem
  obtain ⟨c, hcall, rfl⟩ := Option.map_eq_some_iff.mp hc
  exact ⟨y.2, hy, hcall⟩

/-- An accepted call stands where the chain ended then. -/
theorem called_landed (hx : (acceptedCalls (history ms r))[k]? = some x) :
    x.1.place < (r.applyAll ms).place ∧
      ∃ data, (r.applyAll ms).ledger.chain[x.1.place]? = some (.call { x.2 with data }) := by
  obtain ⟨m, hm, hcall⟩ := exists_routed hx
  have hland := landed_applyAll ms r hm
  have hentry := Message.adds?_of_call? hcall
  have hstands := hland.entry _ hentry
  rw [chainWithoutData, List.getElem?_map] at hstands
  obtain ⟨e, he, hbare⟩ := Option.map_eq_some_iff.mp hstands
  refine ⟨hland.lt hentry, ?_⟩
  cases e with
  | call d =>
    have hd : d = { x.2 with data := d.data } := by
      have hd' := Entry.call.inj hbare
      cases d
      cases hx2 : x.2
      rw [hx2] at hd'
      cases hd'
      rfl
    exact ⟨d.data, hd ▸ he⟩
  | _ => cases hbare

end Run

end TagLedger
