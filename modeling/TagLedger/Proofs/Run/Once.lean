import Mathlib.Tactic.Common
import TagLedger.Proofs.Run.Noted

/-!
The data of a call is noted once. If the identifiers of a chain are distinct, a call keeps its place
and all else that it has; its data changes only when its own task tells of it, and then for good.
-/

namespace TagLedger.Run

variable {i k : Nat} {r r' q : Run} {m : Message} {h h' : List (Run × Message)}
  {chain : List Entry} {c : Entry.Call} {id : Uuid}

/-- Noting the data of a call, among distinct identifiers, is noting it in its place. -/
theorem patchCall_chain_eq_map (hids : (q.ledger.chain.map Entry.id).Nodup) (id : Uuid)
    (data : Json) : (q.patchCall id data).ledger.chain =
      q.ledger.chain.map (Entry.mapCall (Entry.Call.patch id data)) := by
  cases hfound : chainCall? id q.ledger.chain with
  | some d =>
    obtain ⟨hmem, rfl⟩ := mem_of_chainCall? hfound
    rw [patchCall_chain_of_some hfound, replaceFirst_eq_map hids hmem]
  | none =>
    rw [patchCall_chain_of_none hfound]
    refine ((List.map_congr_left fun e he => ?_).trans (List.map_id _)).symm
    cases e with
    | call c =>
      refine congrArg Entry.call (Entry.Call.patch_of_ne (fun hid => ?_) data)
      cases hfound.symm.trans ((chainCall?_iff hids).mpr ⟨he, hid⟩)
    | _ => rfl

/-- A call that is there later in the same place: with the same data, or, if it is one of the
accepted calls as they came, with data noted since. -/
def LaterCall (h : List (Run × Message)) (c c' : Entry.Call) : Prop :=
  c' = c ∨ (∃ x ∈ acceptedCalls h, x.2 = c) ∧ ∃ data, c' = { c with data := some data }

theorem LaterCall.mono {c' : Entry.Call} (hc : LaterCall h c c') (h' : List (Run × Message)) :
    LaterCall (h ++ h') c c' := by
  refine hc.imp_right ?_
  rintro ⟨⟨x, hx, hxc⟩, hdata⟩
  refine ⟨⟨x, ?_, hxc⟩, hdata⟩
  rw [acceptedCalls, routedCalls_append, List.filter_append]
  exact List.mem_append_left _ hx

/-- A call that stands as it was accepted has not changed. -/
theorem LaterCall.eq_of_accepted {c' : Entry.Call} (hc : LaterCall h c c') (hd : DistinctCalls h)
    {x : Run × Entry.Call} (hx : x ∈ acceptedCalls h) (hxc : x.2 = c') : c' = c := by
  rcases hc with rfl | ⟨⟨y, hy, rfl⟩, data, rfl⟩
  · rfl
  · have hid : x.2.id = y.2.id := by rw [hxc]
    obtain rfl := List.inj_on_of_nodup_map hd hx hy hid
    exact hxc.symm

structure NotedSince (chain : List Entry) (h : List (Run × Message)) (q : Run) : Prop
    extends Noted h q where
  since : ∀ (k : Nat) c, chain[k]? = some (.call c) →
    ∃ c', q.ledger.chain[k]? = some (.call c') ∧ LaterCall h c c'

namespace NotedSince

theorem of_noted (hn : Noted h r) : NotedSince r.ledger.chain h r where
  toNoted := hn
  since := fun _ c hc => ⟨c, hc, .inl rfl⟩

/-- The chain only grows. -/
theorem append (hn : NotedSince chain h q) {es : List Entry} {h' : List (Run × Message)}
    (hes : r'.ledger.chain = q.ledger.chain ++ es) (hn' : Noted (h ++ h') r') :
    NotedSince chain (h ++ h') r' where
  toNoted := hn'
  since := fun k c hc => by
    obtain ⟨c', hc', hlater⟩ := hn.since k c hc
    obtain ⟨hlt, _⟩ := List.getElem?_eq_some_iff.mp hc'
    exact ⟨c', by rw [hes, List.getElem?_append_left hlt, hc'], hlater.mono h'⟩

theorem quiet (hn : NotedSince chain h r) (hq : Quiet r r') : NotedSince chain h r' := by
  obtain ⟨es, hes, _⟩ := hq.chain
  have hn' : Noted (h ++ []) r' := (List.append_nil h).symm ▸ hn.toNoted.quiet hq
  exact List.append_nil h ▸ hn.append hes hn'

theorem tells {e : Entry} (hn : NotedSince chain h q) (hids : (r'.ledger.chain.map Entry.id).Nodup)
    (hm : Reception q (.push e) r') : NotedSince chain (h ++ [(q, .push e)]) r' := by
  obtain ⟨es, hes⟩ := hm.chain_append (by simp)
  exact hn.append hes (hn.toNoted.tells hids hm)

theorem steps (hn : NotedSince chain h r) (hs : r.stepTask? i = some r') :
    NotedSince chain h r' where
  toNoted := hn.toNoted.steps hs
  since := by
    obtain ⟨t, t', sent, ht, hconduct⟩ := stepTask?_conduct hs
    rw [(hconduct.steps ht).ledger]
    exact hn.since

/-- The call of a task that tells of its data has it already, or is there as it was accepted. -/
theorem later_of_told (hn : Noted h q) (hids : (q.ledger.chain.map Entry.id).Nodup) {data : Json}
    (htold : ∃ j, TellsAt h q j (.prepared id data)) (hc : Entry.call c ∈ q.ledger.chain)
    (hid : c.id = id) :
    c.data = some data ∨ ∃ x ∈ acceptedCalls h, x.2 = c := by
  obtain ⟨j, x, t, p, hx, ht, _, htells⟩ := htold
  obtain ⟨rfl, _, _, hdata⟩ := htells.prepared_inv
  have hfound : chainCall? x.2.id q.ledger.chain = some c := (chainCall?_iff hids).mpr ⟨hc, hid⟩
  rcases hn.noted j x t hx ht with hnoted | ⟨hplain, _⟩
  · obtain rfl := Option.some.inj (hfound.symm.trans hnoted)
    exact .inl (by rw [hdata])
  · obtain rfl := Option.some.inj (hfound.symm.trans hplain)
    exact .inr ⟨x, List.mem_of_getElem? hx, rfl⟩

theorem prepared {rest : List Message} {data : Json} (hn : NotedSince chain h q)
    (hinbox : q.inbox = .prepared id data :: rest)
    (hids : (({ q with inbox := rest }.patchCall id data).ledger.chain.map Entry.id).Nodup) :
    NotedSince chain (h ++ [({ q with inbox := rest }, .prepared id data)])
      ({ q with inbox := rest }.patchCall id data) where
  toNoted := hn.toNoted.delivers hinbox hids (.prepared id data)
  since := fun k c hc => by
    have hbefore : (q.ledger.chain.map Entry.id).Nodup := by
      obtain ⟨ids, hmore⟩ := (Reception.prepared (r := { q with inbox := rest }) id data).ids
      rw [hmore] at hids
      exact hids.of_append_left
    have htold : ∃ j, TellsAt h q j (.prepared id data) := by
      refine (hn.inbox _ (hinbox ▸ List.mem_cons_self)).resolve_left ?_
      rintro ⟨_, he⟩
      cases he
    obtain ⟨c', hc', hlater⟩ := hn.since k c hc
    have hpatched : ({ q with inbox := rest }.patchCall id data).ledger.chain[k]? =
        some (.call (c'.patch id data)) := by
      have hmap := patchCall_chain_eq_map (q := { q with inbox := rest }) hbefore id data
      rw [hmap, List.getElem?_map, hc']
      rfl
    refine ⟨_, hpatched, .mono ?_ _⟩
    by_cases hid : c'.id = id
    · have hpatch : c'.patch id data = { c' with data := some data } := by
        simp [Entry.Call.patch, hid]
      rcases later_of_told hn.toNoted hbefore htold (List.mem_of_getElem? hc') hid with
        hsame | ⟨x, hx, hxc⟩
      · have hfixed : { c' with data := some data } = c' := by rw [← hsame]
        rwa [hpatch, hfixed]
      · obtain rfl := hlater.eq_of_accepted (hn.toRoster.distinctCalls hbefore) hx hxc
        exact .inr ⟨⟨x, hx, hxc⟩, data, hpatch⟩
    · rwa [Entry.Call.patch_of_ne hid]

theorem delivers {rest : List Message} (hn : NotedSince chain h q) (hinbox : q.inbox = m :: rest)
    (hids : (r'.ledger.chain.map Entry.id).Nodup) (hm : Reception { q with inbox := rest } m r') :
    NotedSince chain (h ++ [({ q with inbox := rest }, m)]) r' := by
  by_cases hplain : ∀ id data, m ≠ .prepared id data
  · obtain ⟨es, hes⟩ := hm.chain_append hplain
    exact hn.append hes (hn.toNoted.delivers hinbox hids hm)
  · push Not at hplain
    obtain ⟨id, data, rfl⟩ := hplain
    cases hm with
    | prepared _ _ => exact hn.prepared hinbox hids

theorem applyAll (hn : NotedSince chain h r) (ms : List Move)
    (hids : ((r.applyAll ms).ledger.chain.map Entry.id).Nodup) :
    NotedSince chain (h ++ history ms r) (r.applyAll ms) :=
  applyAll_keeps_distinct (I := NotedSince chain) quiet tells delivers steps hn ms hids

end NotedSince

end TagLedger.Run
