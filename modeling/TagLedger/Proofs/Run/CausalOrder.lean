import Mathlib.Data.List.Count
import Mathlib.Tactic.Common
import TagLedger.Proofs.Run.Landing
import TagLedger.Proofs.Run.Senders
import TagLedger.Proofs.Run.Slices

/-!
The order of what one call leaves in the chain: the call first, then the events of its scripts in
the order of posting, and its result last, however the tasks of other calls come in between.
-/

namespace TagLedger

namespace Run

variable {r : Run} {k : Nat} {ms : List Move} {x : Run × Entry.Call} {y : Run × Message}

/-- Whatever is delivered has landed before the next delivery. -/
theorem delivered_pairwise (ms : List Move) (r : Run) :
    (delivered ms r).Pairwise fun y z => Landed y z.1 := by
  induction ms using List.reverseRecOn with
  | nil => exact .nil
  | append_singleton ms m ih =>
    rw [delivered] at ih ⊢
    rw [gathered_concat, List.pairwise_append]
    refine ⟨ih, ?_, fun y hy z hz => ?_⟩
    · cases (r.applyAll ms).passes m with
      | sends hm _ _ _ _ =>
        subst hm
        exact .nil
      | takes _ _ htaken _ =>
        rw [htaken]
        exact List.pairwise_singleton _ _
      | rests _ _ htaken _ _ =>
        rw [htaken]
        exact .nil
    · have hland := landed_applyAll ms r ((delivered_sublist ms r).subset hy)
      cases (r.applyAll ms).passes m with
      | sends hm _ _ _ _ =>
        subst hm
        cases hz
      | takes _ _ htaken _ =>
        rw [htaken] at hz
        rw [List.mem_singleton.mp hz]
        exact ⟨hland.place, hland.entry⟩
      | rests _ _ htaken _ _ =>
        rw [htaken] at hz
        cases hz

/-- A call whose identifier no other routed call has is accepted once. -/
theorem eq_of_accepted {h : List (Run × Message)} {i : Nat} {x' : Run × Entry.Call}
    (hid : ((routedCalls h).map (·.2.id)).count x.2.id = 1) (hx : (acceptedCalls h)[k]? = some x)
    (hx' : (acceptedCalls h)[i]? = some x') (hsame : x'.2.id = x.2.id) : i = k := by
  have hcount : (acceptedCalls h).countP (fun x' => x'.2.id == x.2.id) ≤ 1 := by
    rw [← hid, List.count_eq_countP, List.countP_map]
    exact List.filter_sublist.countP_le
  exact eq_of_countP_le_one hcount hx' (by simp [hsame]) hx (by simp)

/-- What the chain shows, after a schedule, of the call that was accepted as number `k`. -/
structure CausalOrder (k : Nat) (x : Run × Entry.Call) (ms : List Move) (r : Run) : Prop where
  /-- The call stands where the chain ended when it was accepted. -/
  called : ∃ data, (r.applyAll ms).ledger.chain[x.1.place]? = some (.call { x.2 with data })
  /-- No other entry is a call of that identifier. -/
  onlyCall : (callIds (r.applyAll ms).ledger.chain).count x.2.id = 1
  /-- The events that the scripts of the call have posted, in any attempt or hook, are those that
  were taken or are waiting, one by one and in the same order. -/
  emitted : List.Forall₂ Post.IsCommittedAs ((fromTask k (posted ms r)).filter Post.isEvent)
    (((takenFrom k ms r).map (·.2) ++ waitingFrom k ms r).filterMap Message.event?)
  /-- An event that was taken is committed then, once. -/
  committed : ∀ y ∈ takenFrom k ms r, ∀ e, y.2.event? = some e →
    (receive y.2 y.1).ledger.chain = y.1.ledger.chain ++ [.event e] ∧
      (r.applyAll ms).ledger.chain[y.1.place]? = some (.event e)
  /-- Events stand after the call, in the order in which they were taken. -/
  ascending : (x.1.place :: ((takenFrom k ms r).filter (·.2.event?.isSome)).map (·.1.place)).Pairwise
    (· < ·)
  /-- When the result of the call is taken it is committed. It stands after the call and after
  all events of the call, none of which is waiting. -/
  result : ∀ y ∈ takenFrom k ms r, ∀ res, y.2 = .completed res →
    res.callId = x.2.id ∧ (r.applyAll ms).ledger.chain[y.1.place]? = some (.result res) ∧
      x.1.place < y.1.place ∧ waitingFrom k ms r = [] ∧
      ∀ z ∈ takenFrom k ms r, z.2.event?.isSome → z.1.place < y.1.place
  /-- A result for the call in the chain is that one, unless it came from outside. -/
  own : ∀ s res, (r.applyAll ms).ledger.chain[s]? = some (.result res) → res.callId = x.2.id →
    (∃ y ∈ takenFrom k ms r, y.1.place = s ∧ y.2 = .completed res) ∨
      ∃ y ∈ history ms r, y.1.place = s ∧ y.2.result? = some res
  /-- Once no call is in flight, nothing is waiting. -/
  settled : (r.applyAll ms).ledger.inFlight = 0 → waitingFrom k ms r = []

section

variable (setup : Setup) (store : Store) (archive : Archive) (subscribers : Subscribers)
  (ms : List Move)

theorem roster_applyAll_new :
    Roster (history ms (new setup store archive subscribers))
      ((new setup store archive subscribers).applyAll ms) :=
  (Roster.new setup store archive subscribers).applyAll ms

variable {setup store archive subscribers ms}

/-- The task of an accepted call has sent messages only after the call was taken in. -/
theorem called_before (hr : r = new setup store archive subscribers)
    (hx : (acceptedCalls (history ms r))[k]? = some x) (hy : y ∈ takenFrom k ms r) :
    x.1.place < y.1.place := by
  subst hr
  obtain ⟨j, hj, hsent⟩ := (mem_takenFrom rfl).mp hy
  obtain ⟨before, after, rest, i, rfl, hrun, _, hfrom⟩ := exists_delivery rfl hj
  have hsame : i = k := by
    have hlt := (List.getElem?_eq_some_iff.mp hfrom).1
    rw [sentIn] at hsent hfrom hlt
    rw [gathered_append, List.getElem?_append_left hlt] at hsent
    exact congrArg Prod.fst (Option.some.inj (hfrom.symm.trans hsent))
  subst hsame
  have htask := (sent_applyAll_new setup store archive subscribers before).senders _
    (List.mem_of_getElem? hfrom)
  obtain ⟨x', _, hx', _⟩ :=
    (roster_applyAll_new setup store archive subscribers before).exists_served
      (List.getElem?_eq_getElem htask)
  have hlater := getElem?_acceptedCalls_append hx'
    (history (.deliver :: after) ((new setup store archive subscribers).applyAll before))
  rw [← history_append] at hlater
  obtain rfl := Option.some.inj (hlater.symm.trans hx)
  rw [hrun]
  exact (called_landed hx').1

theorem landed_of_mem_takenFrom (hinbox : r.inbox = []) (hy : y ∈ takenFrom k ms r) :
    Landed y (r.applyAll ms) :=
  landed_applyAll ms r ((delivered_sublist ms r).subset ((takenFrom_sublist hinbox k ms).subset hy))

/-- The messages of a call, those taken and those waiting, end with its result. -/
theorem takenFrom_endsLast (hr : r = new setup store archive subscribers)
    (hx : (acceptedCalls (history ms r))[k]? = some x) :
    ∃ t ∈ (r.applyAll ms).tasks,
      EndsLast t.isOver ((takenFrom k ms r).map (·.2) ++ waitingFrom k ms r) ∧
        ∀ y ∈ takenFrom k ms r, y.2.isEnd = true → y.2.ends x.2.id = true := by
  subst hr
  have hsent := sent_applyAll_new setup store archive subscribers ms
  obtain ⟨t, _, ht, _, hserves, _⟩ :=
    (roster_applyAll_new setup store archive subscribers ms).exists_task hx
  have hall := takenFrom_append_waitingFrom (r := new setup store archive subscribers) rfl k ms
  refine ⟨t, List.mem_of_getElem? ht, hall ▸ hsent.ends k t ht, fun y hy hend => ?_⟩
  rw [← hserves.callId]
  refine hsent.own k t y.2 ht ?_ hend
  exact hall ▸ List.mem_append_left _ (List.mem_map_of_mem hy)

/-- Nothing of a call is taken or waits after its end. -/
theorem last_of_isEnd (hr : r = new setup store archive subscribers)
    (hx : (acceptedCalls (history ms r))[k]? = some x) (hy : y ∈ takenFrom k ms r)
    (hend : y.2.isEnd = true) :
    waitingFrom k ms r = [] ∧ ∃ before, takenFrom k ms r = before ++ [y] := by
  obtain ⟨t, _, hends, _⟩ := takenFrom_endsLast hr hx
  obtain ⟨before, after, hsplit⟩ := List.append_of_mem hy
  have hlast : after.map (·.2) ++ waitingFrom k ms r = [] := by
    rw [hsplit, List.map_append, List.map_cons, List.append_assoc, List.cons_append] at hends
    exact hends.eq_nil hend
  obtain ⟨hafter, hwaiting⟩ := List.append_eq_nil_iff.mp hlast
  rw [List.map_eq_nil_iff] at hafter
  exact ⟨hwaiting, before, hafter ▸ hsplit⟩

/-- The end of a call is sent by the task of a call of that identifier. -/
theorem mem_takenFrom_of_ends (hr : r = new setup store archive subscribers)
    (hx : (acceptedCalls (history ms r))[k]? = some x)
    (hid : ((routedCalls (history ms r)).map (·.2.id)).count x.2.id = 1) (hy : y ∈ history ms r)
    (hends : y.2.ends x.2.id = true) : y ∈ takenFrom k ms r := by
  subst hr
  have hdelivered : y ∈ delivered ms (new setup store archive subscribers) := by
    by_contra hnot
    rw [(isPush_of_notMem_delivered hy hnot).ends_eq] at hends
    cases hends
  obtain ⟨j, hj⟩ := List.mem_iff_getElem?.mp hdelivered
  obtain ⟨i, hi⟩ := exists_sender rfl hj
  have hsent := sent_applyAll_new setup store archive subscribers ms
  have htask := hsent.senders _ (List.mem_of_getElem? hi)
  obtain ⟨x', _, hx', _, hserves, _⟩ :=
    (roster_applyAll_new setup store archive subscribers ms).exists_served
      (List.getElem?_eq_getElem htask)
  have hsame : x'.2.id = x.2.id := by
    have hown := hsent.own i _ y.2 (List.getElem?_eq_getElem htask)
      (mem_fromTask.mpr (List.mem_of_getElem? hi)) (Message.isEnd_of_ends hends)
    rw [← hserves.callId]
    exact Message.id_of_ends hown hends
  obtain rfl := eq_of_accepted hid hx hx' hsame
  exact (mem_takenFrom rfl).mpr ⟨j, hj, hi⟩

/-- Once no call is in flight, nothing that a call sent waits. -/
theorem waitingFrom_eq_nil (hr : r = new setup store archive subscribers)
    (hx : (acceptedCalls (history ms r))[k]? = some x)
    (hzero : (r.applyAll ms).ledger.inFlight = 0) : waitingFrom k ms r = [] := by
  obtain ⟨t, ht, hends, _⟩ := takenFrom_endsLast hr hx
  subst hr
  have hcounted := counted_applyAll_new setup store archive subscribers ms
  have hinbox := inbox_applyAll (r := new setup store archive subscribers) rfl ms
  by_contra hwaiting
  rw [hcounted.isOver_of_inFlight hzero ht] at hends
  obtain ⟨m, hm, hend⟩ := hends.exists_isEnd hwaiting
  have hcoming : m ∈ ((new setup store archive subscribers).applyAll ms).inbox := by
    have hdrop := congrArg
      (List.drop (delivered ms (new setup store archive subscribers)).length) hinbox
    rw [← List.length_map (·.2), List.drop_left, ← List.map_drop, List.length_map] at hdrop
    exact hdrop ▸ List.mem_map.mpr ⟨_, mem_fromTask.mp hm, rfl⟩
  rw [Counted, hzero] at hcounted
  exact List.countP_eq_zero.mp (by omega) m hcoming hend

variable (setup store archive subscribers ms)

/-- Whatever turns the tasks and the dispatcher take, a call whose identifier no other call has is
followed in the chain by the events of its scripts, each of them once and in their order, and after
them by its result. -/
theorem applyAll_causalOrder
    (hx : (acceptedCalls (history ms (new setup store archive subscribers)))[k]? = some x)
    (hid : ((routedCalls (history ms (new setup store archive subscribers))).map
      (·.2.id)).count x.2.id = 1) :
    CausalOrder k x ms (new setup store archive subscribers) := by
  obtain ⟨r, hr⟩ : ∃ r, r = new setup store archive subscribers := ⟨_, rfl⟩
  rw [← hr] at hx hid ⊢
  have hinbox : r.inbox = [] := hr ▸ rfl
  have hcalls : (callIds (r.applyAll ms).ledger.chain).count x.2.id = 1 :=
    hr ▸ (roster_applyAll_new setup store archive subscribers ms).calls ▸ hr ▸ hid
  have hpairwise := (delivered_pairwise ms r).sublist (takenFrom_sublist hinbox k ms)
  refine ⟨(called_landed hx).2, hcalls, ?_, ?_, ?_, ?_, ?_, waitingFrom_eq_nil hr hx⟩
  · rw [takenFrom_append_waitingFrom hinbox k ms]
    exact posted_events k ms r
  · exact fun y hy e he => ⟨receive_event he y.1, (landed_of_mem_takenFrom hinbox hy).event he⟩
  · refine List.pairwise_cons.mpr ⟨fun p hp => ?_, ?_⟩
    · obtain ⟨y, hy, rfl⟩ := List.mem_map.mp hp
      exact called_before hr hx (List.mem_filter.mp hy).1
    · rw [List.pairwise_map, List.pairwise_filter]
      exact hpairwise.imp fun hland hy _ => hland.event_lt hy
  · intro y hy res hres
    have hend : y.2.isEnd = true := by rw [hres, Message.isEnd]
    obtain ⟨_, _, _, hown⟩ := takenFrom_endsLast hr hx
    obtain ⟨hwaiting, before, hlast⟩ := last_of_isEnd hr hx hy hend
    have hnamed := hown y hy hend
    rw [hres, Message.ends, beq_iff_eq] at hnamed
    have hentry := (landed_of_mem_takenFrom hinbox hy).entry (.result res)
      (by rw [hres, Message.adds?])
    refine ⟨hnamed, getElem?_of_withoutData (by simp [Entry.kind]) hentry,
      called_before hr hx hy, hwaiting, fun z hz hevent => ?_⟩
    rw [hlast] at hpairwise hz
    rcases List.mem_append.mp hz with hz | hz
    · exact ((List.pairwise_append.mp hpairwise).2.2 z hz y List.mem_cons_self).event_lt hevent
    · rw [List.mem_singleton.mp hz, hres] at hevent
      cases hevent
  · intro s res hs hcall
    have hresult : (r.applyAll ms).chainWithoutData[s]? = some (.result res) := by
      rw [chainWithoutData, List.getElem?_map, hs]
      rfl
    obtain ⟨y, hy, hplace, hend | houtside⟩ := results_applyAll (hr ▸ rfl) ms hresult
    · have hends : y.2.ends x.2.id = true := by rw [hend, Message.ends, hcall, beq_self_eq_true]
      exact .inl ⟨y, mem_takenFrom_of_ends hr hx hid hy hends, hplace, hend⟩
    · exact .inr ⟨y, hy, hplace, houtside⟩

end

end Run

namespace Sample

/-- An action that emits an event in every attempt, fails in the first one, and emits an event when
it has succeeded. -/
def tellingAction : Action where
  name := "tell"
  schema := none
  retry := some 1
  memory := none
  contextType := none
  enabled := fun _ _ => true
  execute := fun _ attempt data _ =>
    .emit "attempt" data (.done (if attempt = 0 then .error (.failure .action "again") else .ok data))
  onError := fun e _ => .done (.error e)
  format := fun _ => none
  onSuccess := fun _ _ => .emit "success" .null (.done (.ok ()))

def tellingRun : Run :=
  Run.new { noteSetup with catalog := ⟨[tellingAction], [], []⟩ } Store.empty Archive.empty
    Subscribers.empty

/-- Two calls of that action take turns, and both wait for their second attempts. -/
def tellingMoves : List Move :=
  [.start, .push (callNamed "tell" 1), .push (callNamed "tell" 2)] ++
    (List.replicate 7 [.task 0, .task 1, .deliver]).flatten ++ [.wait 10000] ++
    (List.replicate 7 [.task 1, .task 0, .deliver, .deliver]).flatten

end Sample

open Sample in
/-- The events of both calls are told apart, whatever stands between them: the first call is at 2,
its events at 4, 7 and 9, and its result, the last entry of all, at 11. -/
theorem Run.applyAll_causalOrder_two_calls :
    ∃ x, (acceptedCalls (history tellingMoves tellingRun))[0]? = some x ∧ x.1.place = 2 ∧
      ((routedCalls (history tellingMoves tellingRun)).map (·.2.id)).count x.2.id = 1 ∧
      (takenFrom 0 tellingMoves tellingRun).map
          (fun y => (y.1.place, y.2.event?.isSome, y.2.isEnd)) =
        [(4, false, false), (4, true, false), (7, true, false), (9, true, false),
          (11, false, true)] ∧
      (tellingRun.applyAll tellingMoves).ledger.chain.length = 12 ∧
      CausalOrder 0 x tellingMoves tellingRun := by
  obtain ⟨x, hx⟩ : ∃ x, (acceptedCalls (history tellingMoves tellingRun))[0]? = some x :=
    ⟨_, List.getElem?_eq_getElem (by decide +kernel)⟩
  have hall : ((acceptedCalls (history tellingMoves tellingRun)).map fun x =>
      (x.1.place, ((routedCalls (history tellingMoves tellingRun)).map (·.2.id)).count
        x.2.id))[0]? = some (2, 1) := by decide +kernel
  rw [List.getElem?_map, hx, Option.map_some, Option.some.injEq, Prod.mk.injEq] at hall
  obtain ⟨hplace, hid⟩ := hall
  exact ⟨x, hx, hplace, hid, by decide +kernel, by decide +kernel,
    applyAll_causalOrder _ Store.empty Archive.empty Subscribers.empty tellingMoves hx hid⟩

end TagLedger
