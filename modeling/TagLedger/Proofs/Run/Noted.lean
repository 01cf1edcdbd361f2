import Mathlib.Tactic.Common
import TagLedger.Proofs.Run.Mail

/-!
The data of calls in the chain. If the entries of a chain have distinct identifiers, the entry of an
accepted call is the call of its task, or will be once the message of its data is taken.
-/

namespace TagLedger.Run

variable {i : Nat} {t t' : CallTask} {sent : List Message} {r r' q : Run} {m : Message}
  {h : List (Run × Message)} {chain : List Entry} {c : Entry.Call} {id : Uuid}

theorem chainCall?_iff (hids : (chain.map Entry.id).Nodup) :
    chainCall? id chain = some c ↔ Entry.call c ∈ chain ∧ c.id = id := by
  constructor
  · exact mem_of_chainCall?
  · rintro ⟨hmem, rfl⟩
    exact chainCall?_of_mem hids hmem

theorem callIds_sublist_ids (chain : List Entry) :
    (callIds chain).Sublist (chain.map Entry.id) := by
  induction chain with
  | nil => exact .slnil
  | cons e es ih =>
    cases e with
    | call c => exact ih.cons_cons c.id
    | _ => exact ih.cons _

/-- In a chain with distinct identifiers no two routed calls have the same. -/
theorem Roster.distinctRouted (hr : Roster h r) (hids : (r.ledger.chain.map Entry.id).Nodup) :
    ((routedCalls h).map (·.2.id)).Nodup :=
  hr.calls ▸ hids.sublist (callIds_sublist_ids _)

theorem Roster.distinctCalls (hr : Roster h r) (hids : (r.ledger.chain.map Entry.id).Nodup) :
    DistinctCalls h :=
  (hr.distinctRouted hids).sublist (List.Sublist.map _ List.filter_sublist)

theorem patchCall_chain_of_none (h : chainCall? id r.ledger.chain = none)
    (data : Json) : (r.patchCall id data).ledger.chain = r.ledger.chain := by
  simp only [patchCall, h]

theorem patchCall_chain_of_some {d : Entry.Call}
    (h : chainCall? id r.ledger.chain = some d) (data : Json) :
    (r.patchCall id data).ledger.chain =
      replaceFirst id (.call { d with data := some data }) r.ledger.chain := by
  simp only [patchCall, h, notify]

/-- A message that brings no data only adds to the chain. -/
theorem Reception.chain_append (hm : Reception q m r') (hplain : ∀ id data, m ≠ .prepared id data) :
    ∃ es, r'.ledger.chain = q.ledger.chain ++ es := by
  cases hm with
  | plain _ hl =>
    obtain ⟨_, _, hl, _⟩ := hl
    exact ⟨_, hl.chain⟩
  | result _ hl => exact ⟨_, hl.chain⟩
  | refused _ _ hl => exact ⟨_, hl.chain⟩
  | accepted _ _ hl => exact ⟨_, hl.chain⟩
  | prepared id data => exact absurd rfl (hplain id data)
  | failed hl => exact ⟨_, hl.chain⟩
  | completed hl => exact ⟨_, hl.chain⟩

/-- Taking a message keeps the identifiers of the chain. -/
theorem Reception.ids (hm : Reception q m r') :
    ∃ ids, r'.ledger.chain.map Entry.id = q.ledger.chain.map Entry.id ++ ids := by
  by_cases hplain : ∀ id data, m ≠ .prepared id data
  · obtain ⟨es, hes⟩ := hm.chain_append hplain
    exact ⟨es.map Entry.id, by rw [hes, List.map_append]⟩
  · push Not at hplain
    obtain ⟨id, data, rfl⟩ := hplain
    cases hm with
    | prepared _ _ =>
      refine ⟨[], ?_⟩
      rw [List.append_nil]
      cases hfound : chainCall? id q.ledger.chain with
      | none => rw [patchCall_chain_of_none hfound]
      | some d => rw [patchCall_chain_of_some hfound, ids_replaceFirst hfound]

/-- What is kept as long as the identifiers of the chain are distinct, a schedule keeps if they are
distinct in the end. -/
theorem applyAll_keeps_distinct {I : List (Run × Message) → Run → Prop}
    (quiet : ∀ {h q q'}, I h q → Quiet q q' → I h q')
    (tells : ∀ {h q e q'}, I h q → (q'.ledger.chain.map Entry.id).Nodup →
      Reception q (.push e) q' → I (h ++ [(q, .push e)]) q')
    (delivers : ∀ {h q m rest q'}, I h q → q.inbox = m :: rest →
      (q'.ledger.chain.map Entry.id).Nodup → Reception { q with inbox := rest } m q' →
      I (h ++ [({ q with inbox := rest }, m)]) q')
    (steps : ∀ {h q i q'}, I h q → q.stepTask? i = some q' → I h q')
    {g : List (Run × Message)} (hr : I g r) (ms : List Move)
    (hids : ((r.applyAll ms).ledger.chain.map Entry.id).Nodup) :
    I (g ++ history ms r) (r.applyAll ms) := by
  refine applyAll_keeps
    (I := fun g q => (q.ledger.chain.map Entry.id).Nodup → I g q) ?_ ?_ ?_ ?_ (fun _ => hr) ms
    hids
  · intro g q q' ih hq hids
    obtain ⟨es, hes, _⟩ := hq.chain
    rw [hes, List.map_append] at hids
    exact quiet (ih hids.of_append_left) hq
  · intro g q e q' ih hm hids
    have hids' := hids
    obtain ⟨ids, hmore⟩ := hm.ids
    rw [hmore] at hids'
    exact tells (ih hids'.of_append_left) hids hm
  · intro g q m rest q' ih hinbox hm hids
    have hids' := hids
    obtain ⟨ids, hmore⟩ := hm.ids
    rw [hmore] at hids'
    exact delivers (ih hids'.of_append_left) hinbox hids hm
  · intro g q i q' ih hs hids
    obtain ⟨t, t', sent, ht, hconduct⟩ := stepTask?_conduct hs
    rw [(hconduct.steps ht).ledger] at hids
    exact steps (ih hids) hs

theorem chainCall?_append (h : chainCall? id chain = some c) (es : List Entry) :
    chainCall? id (chain ++ es) = some c := by
  rw [chainCall?_eq_some_iff] at h ⊢
  rw [List.find?_append, h]
  rfl

/-- The call in the chain is that of the task, or the data of the task is on its way there. -/
def NotedIn (inbox : List Message) (chain : List Entry) (c : Entry.Call) (t : CallTask) : Prop :=
  chainCall? c.id chain = some t.call ∨
    chainCall? c.id chain = some c ∧
      ∃ data, t.call = { c with data := some data } ∧ .prepared c.id data ∈ inbox

theorem NotedIn.append {inbox : List Message} (hn : NotedIn inbox chain c t) (es : List Entry) :
    NotedIn inbox (chain ++ es) c t := by
  rcases hn with hnoted | ⟨hplain, hcoming⟩
  · exact .inl (chainCall?_append hnoted es)
  · exact .inr ⟨chainCall?_append hplain es, hcoming⟩

/-- A message that is taken away leaves the data on its way, if it does not bring it. -/
theorem NotedIn.taken {inbox : List Message} (hn : NotedIn (m :: inbox) chain c t)
    (hm : ∀ data, m ≠ .prepared c.id data) : NotedIn inbox chain c t := by
  rcases hn with hnoted | ⟨hplain, data, hdata, hcoming⟩
  · exact .inl hnoted
  · exact .inr ⟨hplain, data, hdata, (List.mem_cons.mp hcoming).resolve_left (hm data).symm⟩

/-- The data of the task is noted. -/
theorem NotedIn.patched {inbox : List Message} (hids : (chain.map Entry.id).Nodup)
    (hn : NotedIn inbox chain c t) {data : Json} (hdata : t.call = { c with data := some data })
    {d : Entry.Call} (hd : chainCall? c.id chain = some d) :
    chainCall? c.id (replaceFirst c.id (.call { d with data := some data }) chain) =
      some t.call := by
  have hids' := ids_replaceFirst hd data
  have hcall : { d with data := some data } = t.call := by
    rcases hn with hnoted | ⟨hplain, _⟩
    · obtain rfl := Option.some.inj (hd.symm.trans hnoted)
      rw [hdata]
    · obtain rfl := Option.some.inj (hd.symm.trans hplain)
      rw [hdata]
  obtain ⟨hmem, hid⟩ := mem_of_chainCall? hd
  rw [chainCall?_iff (hids'.symm ▸ hids), ← hid, replaceFirst_eq_map hids hmem, ← hcall]
  refine ⟨List.mem_map.mpr ⟨.call d, hmem, ?_⟩, rfl⟩
  simp [Entry.mapCall, Entry.Call.patch]

/-- Noting the data of one call leaves the others as they are. -/
theorem NotedIn.others {inbox : List Message} (hids : (chain.map Entry.id).Nodup)
    (hn : NotedIn inbox chain c t) (hne : c.id ≠ id) {d : Entry.Call}
    (hd : chainCall? id chain = some d) (data : Json) :
    NotedIn inbox (replaceFirst id (.call { d with data := some data }) chain) c t := by
  have hids' := ids_replaceFirst hd data
  have hsame {c' : Entry.Call} (hc : chainCall? c.id chain = some c') :
      chainCall? c.id (replaceFirst id (.call { d with data := some data }) chain) = some c' := by
    obtain ⟨hmem, hid⟩ := mem_of_chainCall? hd
    obtain ⟨hmem', hid'⟩ := mem_of_chainCall? hc
    rw [chainCall?_iff (hids'.symm ▸ hids), ← hid, replaceFirst_eq_map hids hmem]
    refine ⟨List.mem_map.mpr ⟨.call c', hmem', ?_⟩, hid'⟩
    have hother : c'.id ≠ d.id := by rwa [hid', hid]
    simp [Entry.mapCall, Entry.Call.patch_of_ne hother]
  rcases hn with hnoted | ⟨hplain, hcoming⟩
  · exact .inl (hsame hnoted)
  · exact .inr ⟨hsame hplain, hcoming⟩

structure Noted (h : List (Run × Message)) (r : Run) : Prop extends Mail h r where
  noted : ∀ (k : Nat) x t, (acceptedCalls h)[k]? = some x → r.tasks[k]? = some t →
    NotedIn r.inbox r.ledger.chain x.2 t

namespace Noted

theorem quiet (hn : Noted h r) (hq : Quiet r r') : Noted h r' where
  toMail := hn.toMail.quiet hq
  noted := fun k x t hx ht => by
    obtain ⟨es, hes, _⟩ := hq.chain
    rw [hq.inbox, hes]
    exact (hn.noted k x t hx (hq.tasks ▸ ht)).append es

/-- Data that was told is in the chain once its message is taken. -/
theorem prepared (hd : DistinctCalls h) (hids : (q.ledger.chain.map Entry.id).Nodup) {j k : Nat}
    {data : Json} (htold : TellsAt h q j (.prepared id data)) {x : Run × Entry.Call}
    (hx : (acceptedCalls h)[k]? = some x) (ht : q.tasks[k]? = some t)
    (hn : NotedIn (.prepared id data :: q.inbox) q.ledger.chain x.2 t) :
    NotedIn q.inbox (q.patchCall id data).ledger.chain x.2 t := by
  obtain ⟨x', t', p, hx', ht', _, htells⟩ := htold
  obtain ⟨rfl, _, _, hdata⟩ := htells.prepared_inv
  by_cases hid : x.2.id = x'.2.id
  · obtain rfl := Mail.eq_of_callId hd hx hx' hid
    obtain rfl := Option.some.inj (hx.symm.trans hx')
    obtain rfl := Option.some.inj (ht.symm.trans ht')
    obtain ⟨d, hfound⟩ : ∃ d, chainCall? x.2.id q.ledger.chain = some d := by
      rcases hn with h | ⟨h, _⟩
      · exact ⟨_, h⟩
      · exact ⟨_, h⟩
    rw [patchCall_chain_of_some hfound]
    exact .inl (hn.patched hids hdata hfound)
  · have hrest : NotedIn q.inbox q.ledger.chain x.2 t := by
      refine hn.taken fun data' hsame => ?_
      exact hid (Message.prepared.inj hsame).1.symm
    cases hfound : chainCall? x'.2.id q.ledger.chain with
    | none => rwa [patchCall_chain_of_none hfound]
    | some d =>
      rw [patchCall_chain_of_some hfound]
      exact hrest.others hids hid hfound data

/-- A call that is accepted is in the chain as it came. -/
theorem accepted (hmail : Mail h q) {e : Entry} {p : PreparedCall} {logged : Run}
    (hn : ∀ (k : Nat) x t, (acceptedCalls h)[k]? = some x → q.tasks[k]? = some t →
      NotedIn (.push e :: q.inbox) q.ledger.chain x.2 t)
    (he : e.finished = .call c) (hp : PreparedCall.ofCall q.ledger.actions c = .ok p)
    (hl : Logs [] [.call c] (q.openSlot c) logged)
    (hids : (logged.ledger.chain.map Entry.id).Nodup) {k : Nat} {x : Run × Entry.Call}
    (hx : (acceptedCalls (h ++ [(q, .push e)]))[k]? = some x)
    (ht : (logged.spawn c p q.ledger.slots.length).tasks[k]? = some t) :
    NotedIn q.inbox logged.ledger.chain x.2 t := by
  have hchain : logged.ledger.chain = q.ledger.chain ++ [.call c] := hl.chain
  have htasks : logged.tasks = q.tasks := hl.tasks
  rw [acceptedCalls_concat_accepted h he hp] at hx
  simp only [spawn, htasks] at ht
  rw [hchain] at hids ⊢
  rcases getElem?_concat ht with ht | ⟨hk, rfl⟩
  · obtain ⟨hlt, _⟩ := List.getElem?_eq_some_iff.mp ht
    rw [hmail.tasks] at hlt
    rw [List.getElem?_append_left hlt] at hx
    exact ((hn k x t hx ht).taken (by simp)).append _
  · rw [hk, hmail.tasks, List.getElem?_concat_length] at hx
    obtain rfl := Option.some.inj hx
    exact .inl (chainCall?_of_mem hids (List.mem_append_right _ (List.mem_singleton_self _)))

theorem reception (hmail : Mail h q) (hn : ∀ (k : Nat) x t, (acceptedCalls h)[k]? = some x →
      q.tasks[k]? = some t → NotedIn (m :: q.inbox) q.ledger.chain x.2 t)
    (htold : m.IsPush ∨ ∃ k, TellsAt h q k m) (hids : (r'.ledger.chain.map Entry.id).Nodup)
    (hm : Reception q m r') : Noted (h ++ [(q, m)]) r' := by
  have hd := (hmail.toRoster.reception hm).distinctCalls hids
  refine ⟨hmail.reception hd htold hm, fun k x t hx ht => ?_⟩
  rw [hm.inbox]
  -- A message that brings no data leaves all as it is, but that the chain may grow.
  have hlogs {own : List String} {es : List Entry} {q' : Run} (hl : Logs own es q' r')
      (hc : q'.ledger.chain = q.ledger.chain) (htasks : q'.tasks = q.tasks)
      (hcalls : acceptedCalls (h ++ [(q, m)]) = acceptedCalls h)
      (hplain : ∀ id data, m ≠ .prepared id data) : NotedIn q.inbox r'.ledger.chain x.2 t := by
    rw [hcalls] at hx
    rw [hl.tasks, htasks] at ht
    rw [hl.chain, hc]
    exact ((hn k x t hx ht).taken fun data => hplain _ data).append es
  cases hm with
  | plain he hl =>
    obtain ⟨_, _, hl, _⟩ := hl
    exact hlogs hl rfl rfl (acceptedCalls_concat_of_none h q (Entry.call?_eq_none he.1))
      (by simp)
  | result he hl =>
    refine hlogs hl rfl rfl (acceptedCalls_concat_of_none h q ?_) (by simp)
    rw [Message.call?, he]
    rfl
  | refused he hp hl => exact hlogs hl rfl rfl (acceptedCalls_concat_refused h he hp) (by simp)
  | accepted he hp hl => exact accepted hmail hn he hp hl hids hx ht
  | prepared id data =>
    have hcalls := acceptedCalls_concat_of_none h q (rfl : (Message.prepared id data).call? = none)
    rw [DistinctCalls, hcalls] at hd
    rw [hcalls] at hx
    rw [(patchCall_untouched id data q).tasks] at ht
    have hbefore : (q.ledger.chain.map Entry.id).Nodup := by
      obtain ⟨ids, hmore⟩ := (Reception.prepared (r := q) id data).ids
      rw [hmore] at hids
      exact hids.of_append_left
    obtain ⟨j, htells⟩ := htold.resolve_left (by rintro ⟨_, he⟩; cases he)
    exact prepared hd hbefore htells hx ht (hn k x t hx ht)
  | failed hl => exact hlogs hl rfl rfl (acceptedCalls_concat_of_none h q rfl) (by simp)
  | completed hl => exact hlogs hl rfl rfl (acceptedCalls_concat_of_none h q rfl) (by simp)

theorem steps (hn : Noted h r) (hs : r.stepTask? i = some r') : Noted h r' := by
  obtain ⟨t, t', sent, ht, hconduct⟩ := stepTask?_conduct hs
  have hsteps := hconduct.steps ht
  refine ⟨hn.toMail.steps hs, fun k x u hx hu => ?_⟩
  rw [hsteps.inbox, hsteps.ledger]
  have hmore {v : CallTask} (hv : NotedIn r.inbox r.ledger.chain x.2 v) (hcall : u.call = v.call) :
      NotedIn (r.inbox ++ sent) r.ledger.chain x.2 u := by
    rcases hv with hnoted | ⟨hplain, data, hdata, hcoming⟩
    · exact .inl (hcall ▸ hnoted)
    · exact .inr ⟨hplain, data, hcall.trans hdata, List.mem_append_left _ hcoming⟩
  by_cases hk : k = i
  · subst hk
    obtain rfl : t' = u := Option.some.inj (hsteps.after.symm.trans hu)
    have hnoted := hn.noted k x t hx ht
    cases hconduct with
    | @prepares payload data hp hdata =>
      obtain ⟨y, p, hy, _, _, _, hgated⟩ := hn.toGate.exists_gated ht
      obtain rfl := Option.some.inj (hx.symm.trans hy)
      obtain ⟨hc, _⟩ := hgated.verdict_eq hp
      have hplain : chainCall? x.2.id r.ledger.chain = some x.2 := by
        rcases hnoted with h | ⟨h, _⟩
        · rw [h, hc]
        · exact h
      refine .inr ⟨hplain, data, by rw [hc], ?_⟩
      rw [hc]
      exact List.mem_append_right _ (List.mem_singleton_self _)
    | _ => exact hmore hnoted rfl
  · obtain ⟨v, hv, hkept⟩ := hsteps.exists_kept hk hu
    exact hmore (hn.noted k x v hx hv) hkept.isOver_eq.1

/-- An entry of the host or of the stream is taken. -/
theorem tells {e : Entry} (hn : Noted h q) (hids : (r'.ledger.chain.map Entry.id).Nodup)
    (hm : Reception q (.push e) r') : Noted (h ++ [(q, .push e)]) r' := by
  refine reception hn.toMail (fun k x t hx ht => ?_) (.inl ⟨e, rfl⟩) hids hm
  rcases hn.noted k x t hx ht with h | ⟨hplain, data, hdata, hcoming⟩
  · exact .inl h
  · exact .inr ⟨hplain, data, hdata, List.mem_cons_of_mem _ hcoming⟩

/-- The oldest message is taken. -/
theorem delivers {rest : List Message} (hn : Noted h q) (hinbox : q.inbox = m :: rest)
    (hids : (r'.ledger.chain.map Entry.id).Nodup)
    (hm : Reception { q with inbox := rest } m r') :
    Noted (h ++ [({ q with inbox := rest }, m)]) r' := by
  have hnoted := hn.noted
  rw [hinbox] at hnoted
  exact reception (hn.toMail.taken hinbox) hnoted (hn.inbox m (hinbox ▸ List.mem_cons_self)) hids hm

theorem applyAll (hn : Noted h r) (ms : List Move)
    (hids : ((r.applyAll ms).ledger.chain.map Entry.id).Nodup) :
    Noted (h ++ history ms r) (r.applyAll ms) :=
  applyAll_keeps_distinct (I := Noted) quiet tells delivers steps hn ms hids

theorem new (setup : Setup) (store : Store) (archive : Archive) (subscribers : Subscribers) :
    Noted [] (new setup store archive subscribers) where
  toMail := .new setup store archive subscribers
  noted := by simp [acceptedCalls, routedCalls]

end Noted

end TagLedger.Run
