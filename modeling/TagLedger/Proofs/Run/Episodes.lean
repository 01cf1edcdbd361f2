import Mathlib.Tactic.Common
import TagLedger.Proofs.Run.Admission
import TagLedger.Proofs.Run.CausalOrder
import TagLedger.Proofs.Run.Held
import TagLedger.Proofs.Run.Mail
import TagLedger.Proofs.Run.Replay

/-!
Episodes. When the result of a call is taken, the data of the call has been noted wherever the call
is kept. So the episode of the result tells of the call as its task has it, if working memory still
holds the call.
-/

namespace TagLedger

namespace Run

variable {h : List (Run × Message)} {r r' q : Run} {m : Message} {id : Uuid} {c : Entry.Call}
  {t t' : CallTask} {inbox : List Message} {i k : Nat} {x : Run × Entry.Call}

/-- The data of a call is on its way, with no end of the call before it. -/
def OnItsWay (id : Uuid) (data : Json) (inbox : List Message) : Prop :=
  ∃ front rest, inbox = front ++ .prepared id data :: rest ∧ ∀ m ∈ front, m.ends id = false

namespace OnItsWay

variable {data : Json}

theorem cons (h : OnItsWay id data inbox) (hm : m.ends id = false) :
    OnItsWay id data (m :: inbox) := by
  obtain ⟨front, rest, rfl, hfront⟩ := h
  exact ⟨m :: front, rest, rfl, List.forall_mem_cons.mpr ⟨hm, hfront⟩⟩

theorem append (h : OnItsWay id data inbox) (more : List Message) :
    OnItsWay id data (inbox ++ more) := by
  obtain ⟨front, rest, rfl, hfront⟩ := h
  exact ⟨front, rest ++ more, by simp, hfront⟩

/-- It stays on its way until it is taken itself; until then the call has not ended. -/
theorem taken (h : OnItsWay id data (m :: inbox)) (hm : m ≠ .prepared id data) :
    OnItsWay id data inbox ∧ m.ends id = false := by
  obtain ⟨front, rest, heq, hfront⟩ := h
  cases front with
  | nil => exact absurd (List.cons.inj heq).1 hm
  | cons m' front =>
    obtain ⟨rfl, rfl⟩ := List.cons.inj heq
    obtain ⟨hends, hfront⟩ := List.forall_mem_cons.mp hfront
    exact ⟨⟨front, rest, rfl, hfront⟩, hends⟩

end OnItsWay

/-- Memory holds of a call at most what its task has, or at most the call as it came, with the data
on its way. -/
def HeldAs (inbox : List Message) (held : List Entry.Call) (c : Entry.Call) (t : CallTask) : Prop :=
  held.Sublist [t.call] ∨
    held.Sublist [c] ∧ ∃ data, t.call = { c with data := some data } ∧ OnItsWay c.id data inbox

namespace HeldAs

variable {held held' : List Entry.Call}

theorem sublist (h : HeldAs inbox held c t) (hs : held'.Sublist held) : HeldAs inbox held' c t :=
  h.imp hs.trans (And.imp_left hs.trans)

theorem taken (h : HeldAs (m :: inbox) held c t) (hm : ∀ data, m ≠ .prepared c.id data) :
    HeldAs inbox held c t :=
  h.imp_right fun ⟨hs, data, hdata, hcoming⟩ => ⟨hs, data, hdata, (hcoming.taken (hm data)).1⟩

/-- When the end of the call is taken, its data has been taken. -/
theorem ended (h : HeldAs (m :: inbox) held c t) (hm : m.ends c.id = true) :
    held.Sublist [t.call] := by
  rcases h with hs | ⟨_, data, _, hcoming⟩
  · exact hs
  · have hnot : m ≠ .prepared c.id data := by
      rintro rfl
      cases hm
    rw [(hcoming.taken hnot).2] at hm
    cases hm

/-- The data of the task is noted. -/
theorem patched (h : HeldAs inbox held c t) {data : Json}
    (hdata : t.call = { c with data := some data }) :
    (WorkingMemory.updateFirst (·.id == c.id) (fun c => { c with data := some data }) held).Sublist
      [t.call] := by
  have hone {d : Entry.Call} (hs : held.Sublist [d]) (hd : { d with data := some data } = t.call) :
      (WorkingMemory.updateFirst (·.id == c.id) (fun c => { c with data := some data })
        held).Sublist [t.call] := by
    rcases List.sublist_singleton.mp hs with rfl | rfl
    · exact List.nil_sublist _
    · have hid : d.id = c.id := by
        have hids := congrArg (·.id) (hd.trans hdata)
        exact hids
      simp [WorkingMemory.updateFirst, hid, hd]
  rcases h with hs | ⟨hs, _⟩
  · exact hone hs (by rw [hdata])
  · exact hone hs hdata.symm

end HeldAs

def Single (id : Uuid) (h : List (Run × Message)) : Prop :=
  ((routedCalls h).map (·.2.id)).count id ≤ 1

namespace Single

variable {h' : List (Run × Message)}

theorem left (hs : Single id (h ++ h')) : Single id h := by
  rw [Single, routedCalls_append, List.map_append, List.count_append] at hs
  exact Nat.le_trans (Nat.le_add_right _ _) hs

theorem eq (hs : Single id h) {x' : Run × Entry.Call} (hx : (acceptedCalls h)[k]? = some x)
    (hx' : (acceptedCalls h)[i]? = some x') (hid : x.2.id = id) (hid' : x'.2.id = id) : i = k := by
  have hcount : (acceptedCalls h).countP (fun x => x.2.id == id) ≤ 1 := by
    refine Nat.le_trans List.filter_sublist.countP_le ?_
    rw [Single, List.count_eq_countP, List.countP_map] at hs
    exact hs
  exact eq_of_countP_le_one hcount hx' (by simp [hid']) hx (by simp [hid])

theorem notMem_of_concat (hs : Single id (h ++ [(q, m)])) (hc : m.call? = some c)
    (hid : c.id = id) : id ∉ (routedCalls h).map (·.2.id) := by
  have hone : routedCalls [(q, m)] = [(q, c)] := by simp [routedCalls, hc]
  rw [Single, routedCalls_append, List.map_append, List.count_append, hone, List.map_singleton,
    hid, List.count_singleton_self] at hs
  exact List.count_eq_zero.mp (by omega)

end Single

theorem mem_routed_of_accepted (hx : (acceptedCalls h)[k]? = some x) :
    x.2.id ∈ (routedCalls h).map (·.2.id) :=
  List.mem_map_of_mem (List.mem_filter.mp (List.mem_of_getElem? hx)).1

structure Told (id : Uuid) (h : List (Run × Message)) (r : Run) : Prop extends Gate h r where
  own : r.TasksOwn
  inbox : ∀ m ∈ r.inbox, m.IsPush ∨ ∃ k, TellsAt h r k m
  absent : id ∉ (routedCalls h).map (·.2.id) → heldCalls id r = []

structure Pairs (id : Uuid) (h : List (Run × Message)) (r : Run) : Prop extends Told id h r where
  held : ∀ (k : Nat) x t, (acceptedCalls h)[k]? = some x → x.2.id = id → r.tasks[k]? = some t →
    HeldAs r.inbox (heldCalls id r) x.2 t

namespace Pairs

theorem calm (hp : Pairs id h r) (hc : Calm r r') : Pairs id h r' := by
  have hq := Quiet.calm hc
  have hsub : (heldCalls id r').Sublist (heldCalls id r) := by
    cases hc with
    | logs hl =>
      obtain ⟨_, es, hl, hplain⟩ := hl
      have hnone : callsOf es = [] :=
        List.map_eq_nil_iff.mp (callIds_eq_nil fun e he => (hplain e he).1)
      have hheld := hl.heldCalls_sublist id
      rwa [hnone, List.filter_nil, List.append_nil] at hheld
    | cancels => exact .refl _
    | waits ms => exact .refl _
  refine ⟨⟨hp.toGate.quiet hq, ?_, fun m hm => ?_, fun hid => ?_⟩, fun k x t hx hid ht => ?_⟩
  · exact hq.tasksOwn hp.own
  · refine (hp.inbox m (hq.inbox ▸ hm)).imp_right (Exists.imp fun k htells => ?_)
    exact htells.grows hp.toRoster (.quiet hq) (fun _ _ hx => hx) fun _ _ ht => hq.tasks ▸ ht
  · exact List.sublist_nil.mp (hp.absent hid ▸ hsub)
  · rw [hq.inbox]
    exact (hp.held k x t hx hid (hq.tasks ▸ ht)).sublist hsub

/-- What memory holds after a message that brings no data, and no call of the identifier. -/
theorem heldCalls_reception (hm : Reception q m r') (hplain : ∀ data, m ≠ .prepared id data)
    (hcall : ∀ c, m.call? = some c → c.id ≠ id) :
    (heldCalls id r').Sublist (heldCalls id q) := by
  have hlogs {own : List String} {es : List Entry} {q' q'' : Run} (hl : Logs own es q' q'')
      (hmemory : q'.ledger.memory = q.ledger.memory)
      (hes : ∀ c ∈ callsOf es, c.id ≠ id) : (heldCalls id q'').Sublist (heldCalls id q) := by
    have hheld := hl.heldCalls_sublist id
    rw [List.filter_eq_nil_iff.mpr (by simpa using hes), List.append_nil, heldCalls, heldCalls,
      hmemory] at hheld
    exact hheld
  have hnone {es : List Entry} (hes : ∀ e ∈ es, e.kind ≠ .call) : ∀ c ∈ callsOf es, c.id ≠ id := by
    intro c hc
    exact absurd rfl (hes _ (mem_callsOf.mp hc))
  cases hm with
  | plain _ hl =>
    obtain ⟨_, _, hl, hes⟩ := hl
    exact hlogs hl rfl (hnone fun e he => (hes e he).1)
  | result _ hl => exact hlogs hl rfl (hnone (by simp [Entry.kind]))
  | @refused e c err fresh now _ he hp hl =>
    have hc : (Message.push e).call? = some c := by rw [Message.call?, he]; rfl
    refine hlogs hl rfl fun c' hc' => ?_
    rcases List.mem_cons.mp (mem_callsOf.mp hc') with hsame | hrest
    · cases hsame
      exact hcall _ hc
    · exact absurd rfl (Entry.isPlain_of_mem_ofError hrest).1
  | @accepted e c p logged he hp hl =>
    have hc : (Message.push e).call? = some c := by rw [Message.call?, he]; rfl
    have hlogged : (heldCalls id logged).Sublist (heldCalls id q) := by
      refine hlogs hl rfl fun c' hc' => ?_
      cases List.mem_singleton.mp (mem_callsOf.mp hc')
      exact hcall _ hc
    exact hlogged
  | prepared id' data =>
    have hne : id' ≠ id := fun heq => hplain data (heq ▸ rfl)
    rw [heldCalls_patchCall_of_ne hne]
  | failed hl =>
    exact hlogs hl rfl (hnone fun e he => (Entry.isPlain_of_mem_ofError he).1)
  | completed hl => exact hlogs hl rfl (hnone (by simp [Entry.kind]))

/-- A call of the identifier was accepted before, unless the message routes it. -/
theorem accepted_before (hcall : ∀ c, m.call? = some c → c.id ≠ id)
    (hx : (acceptedCalls (h ++ [(q, m)]))[k]? = some x) (hid : x.2.id = id) :
    (acceptedCalls h)[k]? = some x := by
  rw [acceptedCalls, routedCalls_append, List.filter_append] at hx
  rcases Nat.lt_or_ge k (acceptedCalls h).length with hlt | hge
  · exact (List.getElem?_append_left hlt).symm.trans hx
  · have hrouted := (List.mem_filter.mp (List.mem_of_getElem?
      ((List.getElem?_append_right hge).symm.trans hx))).1
    simp only [routedCalls, List.filterMap_cons, List.filterMap_nil] at hrouted
    cases hc : m.call? with
    | none => simp [hc] at hrouted
    | some c =>
      simp only [hc, Option.map_some, List.mem_singleton] at hrouted
      rw [hrouted] at hid
      exact absurd hid (hcall c hc)

theorem task_before (hr : Roster h q) (hm : Reception q m r') (hx : (acceptedCalls h)[k]? = some x)
    (ht : r'.tasks[k]? = some t) : q.tasks[k]? = some t := by
  obtain ⟨t', _, ht', _⟩ := hr.exists_task hx
  rwa [← ht, hm.getElem?_tasks ht']

/-- The identifier of a call is noted when the call is routed. -/
theorem held_routed (hp : Told id h q) (hs : Single id (h ++ [(q, m)])) (hm : Reception q m r')
    (hc : m.call? = some c) (hid : c.id = id) (hx : (acceptedCalls (h ++ [(q, m)]))[k]? = some x)
    (hxid : x.2.id = id) (ht : r'.tasks[k]? = some t) : (heldCalls id r').Sublist [t.call] := by
  have habsent := hs.notMem_of_concat hc hid
  have hnone := hp.absent habsent
  cases hm with
  | @accepted e c' p logged he hprepared hl =>
    rw [acceptedCalls_concat_accepted h he hprepared] at hx
    rcases getElem?_concat hx with hx | ⟨hk, rfl⟩
    · exact absurd (hxid ▸ mem_routed_of_accepted hx) habsent
    · have htasks : logged.tasks = q.tasks := hl.tasks
      have hlast : k = logged.tasks.length := by rw [hk, htasks, hp.tasks]
      simp only [spawn, hlast, List.getElem?_concat_length, Option.some.injEq] at ht
      have hheld := hl.heldCalls_sublist id
      have hbefore : heldCalls id (q.openSlot c') = [] := hnone
      rw [hbefore, List.nil_append] at hheld
      rw [← ht]
      exact hheld.trans List.filter_sublist
  | refused he hprepared hl =>
    rw [acceptedCalls_concat_refused h he hprepared] at hx
    exact absurd (hxid ▸ mem_routed_of_accepted hx) habsent
  | plain he hl => cases (Entry.call?_eq_none he.1).symm.trans hc
  | result he hl =>
    rw [Message.call?, he] at hc
    cases hc
  | _ => cases hc

/-- Data that was told of the identifier is that of the task of its call. -/
theorem call_eq_of_told {data : Json} (hs : Single id h) (hx : (acceptedCalls h)[k]? = some x)
    (hid : x.2.id = id) (ht : q.tasks[k]? = some t)
    (htold : TellsAt h q i (.prepared id data)) : t.call = { x.2 with data := some data } := by
  obtain ⟨x', t', p, hx', ht', hp, htells⟩ := htold
  obtain ⟨hid', _, _, hcall⟩ := htells.prepared_inv
  obtain rfl := hs.eq hx hx' hid hid'.symm
  obtain rfl := Option.some.inj (hx.symm.trans hx')
  obtain rfl := Option.some.inj (ht.symm.trans ht')
  exact hcall

/-- A message is taken that was told until then. -/
theorem reception (hp : Told id h q) (hs : Single id (h ++ [(q, m)]))
    (hheld : ∀ (k : Nat) x t, (acceptedCalls h)[k]? = some x → x.2.id = id →
      q.tasks[k]? = some t → HeldAs (m :: q.inbox) (heldCalls id q) x.2 t)
    (htold : m.IsPush ∨ ∃ k, TellsAt h q k m) (hm : Reception q m r') :
    Pairs id (h ++ [(q, m)]) r' := by
  have hinbox := hm.inbox
  refine ⟨⟨hp.toGate.reception hm, hm.tasksOwn hp.own, fun m' hm' => ?_, fun hid => ?_⟩,
    fun k x t hx hid ht => ?_⟩
  · refine (hp.inbox m' (hinbox ▸ hm')).imp_right (Exists.imp fun k htells => ?_)
    exact htells.reception hp.toRoster hm
  · have hbefore : id ∉ (routedCalls h).map (·.2.id) := fun hmem => hid (by
      rw [routedCalls_append, List.map_append]
      exact List.mem_append_left _ hmem)
    have hcall : ∀ c, m.call? = some c → c.id ≠ id := fun c hc hcid => hid (by
      rw [routedCalls_append, List.map_append]
      simp [routedCalls, hc, hcid])
    have hplain : ∀ data, m ≠ .prepared id data := by
      rintro data rfl
      obtain ⟨j, x, t, p, hx, _, _, htells⟩ := htold.resolve_left (by rintro ⟨_, he⟩; cases he)
      exact hbefore (htells.prepared_inv.1 ▸ mem_routed_of_accepted hx)
    exact List.sublist_nil.mp (hp.absent hbefore ▸ heldCalls_reception hm hplain hcall)
  · by_cases hcall : ∃ c, m.call? = some c ∧ c.id = id
    · obtain ⟨c, hc, hcid⟩ := hcall
      exact .inl (held_routed hp hs hm hc hcid hx hid ht)
    · have hcall : ∀ c, m.call? = some c → c.id ≠ id := fun c hc hcid => hcall ⟨c, hc, hcid⟩
      have hearlier := accepted_before hcall hx hid
      have htask := task_before hp.toRoster hm hearlier ht
      have hbefore := hheld k x t hearlier hid htask
      rw [hinbox]
      by_cases hdata : ∃ data, m = .prepared id data
      · obtain ⟨data, rfl⟩ := hdata
        obtain ⟨j, htold⟩ := htold.resolve_left (by rintro ⟨_, he⟩; cases he)
        have hown := call_eq_of_told hs.left hearlier hid htask htold
        cases hm with
        | prepared _ _ =>
          rw [heldCalls_patchCall_self]
          exact .inl (hid ▸ (hid ▸ hbefore).patched hown)
      · have hplain : ∀ data, m ≠ .prepared id data := fun data heq => hdata ⟨data, heq⟩
        exact (hbefore.taken (hid ▸ hplain)).sublist (heldCalls_reception hm hplain hcall)

/-- Nothing that waits ends the call of a task that is not over. -/
theorem ends_eq_false (hp : Pairs id h r) (hs : Single id h) (hx : (acceptedCalls h)[k]? = some x)
    (hid : x.2.id = id) (ht : r.tasks[k]? = some t) (hover : t.isOver = false) :
    ∀ m ∈ r.inbox, m.ends id = false := by
  intro m hm
  by_contra hends
  rw [Bool.not_eq_false] at hends
  rcases hp.inbox m hm with hpush | ⟨j, x', t', p, hx', ht', hprepared, htells⟩
  · rw [hpush.ends_eq] at hends
    cases hends
  · have hended : x'.2.id = id ∧ t'.phase = .ended := by
      cases htells with
      | prepared _ _ _ => cases hends
      | failed hphase _ => exact ⟨beq_iff_eq.mp hends, hphase⟩
      | completed hphase _ hcall => exact ⟨hcall ▸ beq_iff_eq.mp hends, hphase⟩
    obtain rfl := hs.eq hx hx' hid hended.1
    obtain rfl := Option.some.inj (ht.symm.trans ht')
    simp [CallTask.isOver, hended.2] at hover

theorem steps (hp : Pairs id h r) (hs : Single id h) (hstep : r.stepTask? i = some r') :
    Pairs id h r' := by
  have hadv := stepTask?_advances hstep hp.own
  obtain ⟨t, t', sent, ht, hconduct⟩ := stepTask?_conduct hstep
  have hsteps := hconduct.steps ht
  have hheld : heldCalls id r' = heldCalls id r := by rw [heldCalls, heldCalls, hsteps.ledger]
  refine ⟨⟨hp.toGate.steps hstep, hadv.tasksOwn hp.own, fun m hm => ?_, hheld ▸ hp.absent⟩,
    fun k x u hx hid hu => ?_⟩
  · rw [hsteps.inbox] at hm
    rcases List.mem_append.mp hm with hm | hm
    · exact (hp.inbox m hm).imp_right (Exists.imp fun k htells => htells.conduct hsteps hconduct)
    · obtain ⟨x, p, hx, _, hprepared, ha, hgated⟩ := hp.toGate.exists_gated ht
      refine (hconduct.tells ha (hp.own t (List.mem_of_getElem? ht)) hgated hm).imp_right
        fun htells => ⟨i, x, t', p, hx, hsteps.after, hprepared, ?_⟩
      rwa [hsteps.sources_eq hconduct.task_follows.slot]
  · rw [hsteps.inbox, hheld]
    have hmore {v : CallTask} (hv : HeldAs r.inbox (heldCalls id r) x.2 v)
        (hcall : u.call = v.call) : HeldAs (r.inbox ++ sent) (heldCalls id r) x.2 u := by
      rcases hv with hnoted | ⟨hplain, data, hdata, hcoming⟩
      · exact .inl (hcall ▸ hnoted)
      · exact .inr ⟨hplain, data, hcall.trans hdata, hcoming.append sent⟩
    by_cases hk : k = i
    · subst hk
      obtain rfl : t' = u := Option.some.inj (hsteps.after.symm.trans hu)
      have hbefore := hp.held k x t hx hid ht
      cases hconduct with
      | @prepares payload data hphase hdata =>
        obtain ⟨y, p, hy, _, _, _, hgated⟩ := hp.toGate.exists_gated ht
        obtain rfl := Option.some.inj (hx.symm.trans hy)
        obtain ⟨hc, _⟩ := hgated.verdict_eq hphase
        have hplain : (heldCalls id r).Sublist [x.2] := by
          rcases hbefore with h | ⟨h, _⟩
          · rwa [hc] at h
          · exact h
        have hover : t.isOver = false := by simp [CallTask.isOver, hphase]
        refine .inr ⟨hplain, data, by rw [hc], r.inbox, [], by rw [hc], ?_⟩
        rw [hid]
        exact hp.ends_eq_false hs hx hid ht hover
      | _ => exact hmore hbefore rfl
    · obtain ⟨v, hv, hkept⟩ := hsteps.exists_kept hk hu
      exact hmore (hp.held k x v hx hid hv) hkept.isOver_eq.1

/-- An entry of the host or of the stream is taken. -/
theorem tells {e : Entry} (hp : Pairs id h q) (hs : Single id (h ++ [(q, .push e)]))
    (hm : Reception q (.push e) r') : Pairs id (h ++ [(q, .push e)]) r' := by
  refine reception hp.toTold hs (fun k x t hx hid ht => ?_) (.inl ⟨e, rfl⟩) hm
  exact (hp.held k x t hx hid ht).imp_right fun ⟨hplain, data, hdata, hcoming⟩ =>
    ⟨hplain, data, hdata, hcoming.cons rfl⟩

theorem taken {rest : List Message} (hp : Pairs id h r) (hinbox : r.inbox = m :: rest) :
    Told id h { r with inbox := rest } where
  toGate := hp.toGate.grows (hp.toRoster.congr rfl rfl rfl) rfl (.of_eq rfl rfl rfl) rfl
  own := hp.own
  inbox := fun m' hm' => hp.inbox m' (hinbox ▸ List.mem_cons_of_mem m hm')
  absent := hp.absent

/-- The oldest message is taken. -/
theorem delivers {rest : List Message} (hp : Pairs id h q) (hinbox : q.inbox = m :: rest)
    (hs : Single id (h ++ [({ q with inbox := rest }, m)]))
    (hm : Reception { q with inbox := rest } m r') :
    Pairs id (h ++ [({ q with inbox := rest }, m)]) r' := by
  have hheld := hp.held
  rw [hinbox] at hheld
  exact reception (hp.taken hinbox) hs hheld (hp.inbox m (hinbox ▸ List.mem_cons_self)) hm

end Pairs

structure Backed (id : Uuid) (before : List Uuid) (h : List (Run × Message)) (q : Run) : Prop where
  call : ∃ (k : Nat) (x : Run × Entry.Call) (t : CallTask) (p : PreparedCall) (data : Json),
    (acceptedCalls h)[k]? = some x ∧ x.2.id = id ∧ q.tasks[k]? = some t ∧
      PreparedCall.ofCall x.1.ledger.actions x.2 = .ok p ∧
      p.verdict x.2 (q.sources t) = some (.ok data) ∧
      (heldCalls id q).Sublist [{ x.2 with data := some data }]
  known : id ∈ callIds q.ledger.chain
  holdsLast : HoldsLast before q

namespace Backed

variable {before : List Uuid}

theorem mono (hb : Backed id before h q) (h' : List (Run × Message)) :
    Backed id before (h ++ h') q := by
  obtain ⟨k, x, t, p, data, hx, hrest⟩ := hb.call
  exact ⟨⟨k, x, t, p, data, getElem?_acceptedCalls_append hx h', hrest⟩, hb.known, hb.holdsLast⟩

theorem of_pairs {rest : List Message} {res : Entry.Result} (hp : Pairs id h q)
    (hinbox : q.inbox = .completed res :: rest) (hid : res.callId = id)
    (hl : HoldsLast before q) : Backed id before h { q with inbox := rest } := by
  have htold := hp.inbox (.completed res) (hinbox ▸ List.mem_cons_self)
  obtain ⟨k, x, t, p, hx, ht, hprepared, htells⟩ := htold.resolve_left (by rintro ⟨_, he⟩; cases he)
  cases htells with
  | @completed data _ hphase hv hcall =>
    have hxid : x.2.id = id := hcall.symm.trans hid
    have hdata : t.call = { x.2 with data := some data } := by
      cases hp.gated k x t p hx ht hprepared with
      | undecided hphase' _ _ => cases hphase.symm.trans hphase'
      | passed _ hv' hc =>
        cases hv.symm.trans hv'
        exact hc
      | rejected _ hv' _ => cases hv.symm.trans hv'
    have hheld := hp.held k x t hx hxid ht
    rw [hinbox] at hheld
    have hends : (Message.completed res).ends x.2.id = true := by
      rw [Message.ends, hcall, beq_self_eq_true]
    have hsub := hheld.ended hends
    refine ⟨⟨k, x, t, p, data, hx, hxid, ht, hprepared, hv, hdata ▸ hsub⟩, ?_, hl⟩
    have hknown := mem_routed_of_accepted hx
    rw [← hp.calls, hxid] at hknown
    exact hknown

end Backed

/-- Whatever happens after a start, every result of the identifier is taken in that way. -/
theorem backed_of_trace {S : Nat → Prop} {before : List Uuid} (ht : Trace S r h q)
    (hr : Pairs id [] r) (hl : HoldsLast before r) (hs : Single id h) :
    Pairs id h q ∧ HoldsLast before q ∧ ∀ y ∈ h, ∀ res, y.2 = .completed res →
      res.callId = id → Backed id before h y.1 := by
  induction ht with
  | refl => exact ⟨hr, hl, by simp⟩
  | calm _ hc ih =>
    obtain ⟨hp, hl, hback⟩ := ih hs
    exact ⟨hp.calm hc, hl.calm hc, hback⟩
  | @tells h q _ e ih =>
    obtain ⟨hp, hl, hback⟩ := ih hs.left
    have hm := receive_reception (.push e) q
    refine ⟨hp.tells hs hm, hl.reception hm, fun y hy res hres hid => ?_⟩
    rcases List.mem_append.mp hy with hy | hy
    · exact (hback y hy res hres hid).mono _
    · rw [List.mem_singleton.mp hy] at hres
      cases hres
  | @delivers h q m rest _ hinbox ih =>
    obtain ⟨hp, hl, hback⟩ := ih hs.left
    have hm := receive_reception m { q with inbox := rest }
    refine ⟨hp.delivers hinbox hs hm, HoldsLast.reception (q := { q with inbox := rest }) hl hm,
      fun y hy res hres hid => ?_⟩
    rcases List.mem_append.mp hy with hy | hy
    · exact (hback y hy res hres hid).mono _
    · rw [List.mem_singleton.mp hy] at hres ⊢
      subst hres
      exact (Backed.of_pairs hp hinbox hid hl).mono _
  | steps _ _ hstep ih =>
    obtain ⟨hp, hl, hback⟩ := ih hs
    exact ⟨hp.steps hs hstep, hl.steps hstep, hback⟩

/-- The archive with the episode of a call and its result, if there was a thought. -/
def archiveWith (c : Entry.Call) (res : Entry.Result) (r : Run) : Archive :=
  match r.ledger.memory.lastThought? with
  | none => r.ledger.archive
  | some thought =>
    (r.ledger.archive.upsert r.setup.context.id
      [(Episode.ofResult r.nextId r.time thought c res).toJson]).2

/-- What a result leaves in the archive if memory holds its call. -/
theorem archive_receive_completed {res : Entry.Result}
    (hc : q.ledger.memory.call? res.callId = some c) :
    (receive (.completed res) q).ledger.archive = q.archiveWith c res := by
  have hepisode : episodeCall? (q.ledger.memory.push (.result res)) res = some c := by
    have hsame : (q.ledger.memory.push (.result res)).call? res.callId = some c := hc
    rw [episodeCall?, hsame, Option.some_or]
  have harchive : (receive (.completed res) q).ledger.archive =
      (((q.resolveSlot res.callId (.completed res)).append (.result res)).recordEpisode
        res).ledger.archive := rfl
  have hmemory : ((q.resolveSlot res.callId (.completed res)).append (.result res)).ledger.memory =
      q.ledger.memory.push (.result res) := rfl
  have hthought : (q.ledger.memory.push (.result res)).lastThought? =
      q.ledger.memory.lastThought? := rfl
  rw [harchive, recordEpisode, hmemory, hepisode, hthought, archiveWith]
  cases q.ledger.memory.lastThought? <;> rfl

section

variable {setup : Setup} {store : Store} {archive : Archive} {subscribers : Subscribers}
  {moves : List Move} {y : Run × Message} {res : Entry.Result}

theorem quiet_started (setup : Setup) (store : Store) (archive : Archive)
    (subscribers : Subscribers) :
    Quiet (new setup store archive subscribers) (started setup store archive subscribers) :=
  .start _

theorem pairs_started (hfresh : ∀ c ∈ (started setup store archive subscribers).ledger.memory.calls,
      c.id ≠ id) : Pairs id [] (started setup store archive subscribers) := by
  have hquiet := quiet_started setup store archive subscribers
  refine ⟨⟨(Gate.new setup store archive subscribers).quiet hquiet, ?_, ?_, fun _ => ?_⟩, ?_⟩
  · exact hquiet.tasksOwn (by simp [TasksOwn, new])
  · rw [hquiet.inbox]
    simp [new]
  · exact List.filter_eq_nil_iff.mpr (by simpa using hfresh)
  · simp [acceptedCalls, routedCalls]

theorem holdsLast_started : HoldsLast
    ((started setup store archive subscribers).ledger.memory.calls.map (·.id))
      (started setup store archive subscribers) := by
  have hquiet := quiet_started setup store archive subscribers
  have hnone := ((Gate.new setup store archive subscribers).quiet hquiet).calls
  refine ⟨[], ?_, .inl rfl⟩
  rw [hnone, List.nil_append]
  exact List.append_nil _

/-- If working memory still has room for a call and all calls after it when the result of the call
is taken, the episode tells of that call, with the data of the verdict on its payload. -/
theorem episode_of_own_call (hmoves : Move.start ∉ moves)
    (hx : (acceptedCalls (history moves (started setup store archive subscribers)))[k]? = some x)
    (hid : ((routedCalls (history moves (started setup store archive subscribers))).map
      (·.2.id)).count x.2.id = 1)
    (hfresh : ∀ c ∈ (started setup store archive subscribers).ledger.memory.calls, c.id ≠ x.2.id)
    (hy : y ∈ history moves (started setup store archive subscribers))
    (hres : y.2 = .completed res) (hcall : res.callId = x.2.id)
    (hroom : ((callIds y.1.ledger.chain).dropWhile (· != x.2.id)).length ≤
      y.1.setup.config.retention.maxCalls) :
    ∃ t p data, y.1.tasks[k]? = some t ∧ PreparedCall.ofCall x.1.ledger.actions x.2 = .ok p ∧
      p.verdict x.2 (y.1.sources t) = some (.ok data) ∧
      (receive y.2 y.1).ledger.archive =
        y.1.archiveWith { x.2 with data := some data } res := by
  have htrace := applyAll_trace hmoves (started setup store archive subscribers)
  have hsingle : Single x.2.id (history moves (started setup store archive subscribers)) :=
    Nat.le_of_eq hid
  obtain ⟨_, _, hback⟩ := backed_of_trace htrace (pairs_started hfresh) holdsLast_started hsingle
  have hbacked := hback y hy res hres hcall
  obtain ⟨k', x', t, p, data, hx', hid', ht, hp, hv, hsub⟩ := hbacked.call
  obtain rfl := hsingle.eq hx hx' rfl hid'
  obtain rfl := Option.some.inj (hx.symm.trans hx')
  refine ⟨t, p, data, ht, hp, hv, ?_⟩
  obtain ⟨front, rest, hids, hfront⟩ := List.eq_append_cons_of_mem hbacked.known
  have hdrop : (callIds y.1.ledger.chain).dropWhile (· != x.2.id) = x.2.id :: rest := by
    rw [hids, List.dropWhile_append_of_pos fun a ha => by
      simpa using fun heq : a = x.2.id => hfront (heq ▸ ha)]
    simp
  rw [hdrop] at hroom
  obtain ⟨c, hc, hcid⟩ := List.mem_map.mp (hbacked.holdsLast.mem_of_length_le hids hroom)
  have hheld : heldCalls x.2.id y.1 = [{ x.2 with data := some data }] := by
    rcases List.sublist_singleton.mp hsub with hnone | hone
    · exact absurd (mem_heldCalls.mpr ⟨hc, hcid⟩) (hnone ▸ List.not_mem_nil)
    · exact hone
  rw [hres]
  exact archive_receive_completed (hcall ▸ call?_of_heldCalls hheld)

end

end Run

namespace Sample

def setupKeeping (calls : Nat) : Setup :=
  { noteSetup with
    config := { Config.standard with retention := { Retention.standard with maxCalls := calls } } }

def startedKeeping (calls : Nat) : Run :=
  Run.started (setupKeeping calls) Store.empty Archive.empty Subscribers.empty

/-- A thought and two calls; the first call ends when the second is there. -/
def overlappingCalls : List Move :=
  [.push (.thought { toHeader := Header.final ⟨BitVec.ofNat 128 9⟩ noteSetup.epoch, content := "both" }),
    .push (callWriting 1 "[true]"), .push (callWriting 2 "[false]")] ++
  List.replicate 9 (.task 0) ++ [.deliver, .deliver]

end Sample

open Sample in
/-- With room for both calls, the episode of the first result tells of the first call. -/
theorem Run.episode_of_own_call_room_for_two :
    let r := startedKeeping 2
    ∃ x y res t p data, (acceptedCalls (history overlappingCalls r))[0]? = some x ∧
      (history overlappingCalls r)[4]? = some y ∧ y.2 = .completed res ∧ res.callId = x.2.id ∧
      PreparedCall.ofCall x.1.ledger.actions x.2 = .ok p ∧
      p.verdict x.2 (y.1.sources t) = some (.ok data) ∧
      (receive y.2 y.1).ledger.archive = y.1.archiveWith { x.2 with data := some data } res := by
  intro r
  have hfirst : ((acceptedCalls (history overlappingCalls r))[0]?).map (·.2.id) =
      some ⟨BitVec.ofNat 128 1⟩ := by decide +kernel
  obtain ⟨x, hx, hid⟩ := Option.map_eq_some_iff.mp hfirst
  have htaken : ((history overlappingCalls r)[4]?).bind (fun y => y.2.completed?.map fun res =>
      (res.callId, decide (((callIds y.1.ledger.chain).dropWhile (· != res.callId)).length ≤
        y.1.setup.config.retention.maxCalls))) = some (⟨BitVec.ofNat 128 1⟩, true) := by
    decide +kernel
  obtain ⟨y, hy, htaken⟩ := Option.bind_eq_some_iff.mp htaken
  obtain ⟨res, hends, htaken⟩ := Option.map_eq_some_iff.mp htaken
  obtain ⟨hcall, hroom⟩ := Prod.mk.inj htaken
  have hres : y.2 = .completed res := Message.eq_completed hends
  have hown : res.callId = x.2.id := hcall.trans hid.symm
  have hmoves : Move.start ∉ overlappingCalls := by simp [overlappingCalls]
  have hone : ((routedCalls (history overlappingCalls r)).map (·.2.id)).count x.2.id = 1 := by
    rw [hid]
    decide +kernel
  have hfresh : ∀ c ∈ r.ledger.memory.calls, c.id ≠ x.2.id := by
    have hnone : r.ledger.memory.calls = [] := by decide +kernel
    simp [hnone]
  obtain ⟨t, p, data, _, hp, hv, harchive⟩ := episode_of_own_call hmoves hx hone hfresh
    (List.mem_of_getElem? hy) hres hown (hown ▸ of_decide_eq_true hroom)
  exact ⟨x, y, res, t, p, data, hx, hy, hres, hown, hp, hv, harchive⟩

open Sample in
/-- With room for one call, the episode of the result of the first call has the text of the second,
which has taken its place in working memory. -/
theorem Run.episode_of_other_call :
    let r := startedKeeping 1
    let episodes := (r.applyAll overlappingCalls).ledger.archive.bucket "context"
    (history overlappingCalls r).filterMap
        (fun y => y.2.completed?.map fun res => (res.callId, res.data)) =
          [(⟨BitVec.ofNat 128 1⟩, .arr [.bool true])] ∧
      (callsOf (r.applyAll overlappingCalls).ledger.chain).map (fun c => (c.id, c.data)) =
        [(⟨BitVec.ofNat 128 1⟩, some (.arr [.bool true])), (⟨BitVec.ofNat 128 2⟩, none)] ∧
      episodes.map (·.get? "result") = [some (.arr [.bool true])] ∧
      episodes.map (·.get? "call") = [some (.str "[false]")] := by
  decide +kernel

end TagLedger
