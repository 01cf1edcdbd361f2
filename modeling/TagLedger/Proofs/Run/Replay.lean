import Mathlib.Data.List.Nodup
import Mathlib.Tactic.Common
import TagLedger.Proofs.Memory.Patch
import TagLedger.Proofs.Run.Settle

/-!
Replay agrees with the live run. Commits push to the chain and to working memory alike; the data of
a call reaches both late, and only calls of the chain are ever given data. So working memory is at
every moment what its chain leads to, up to recalled episodes.
-/

namespace TagLedger

namespace AuditLog

theorem find?_insertRecord (rec : RunRecord) (records : List RunRecord) :
    (insertRecord rec records).find? (·.runId == rec.runId) = some rec := by
  induction records with
  | nil => simp [insertRecord]
  | cons x records ih =>
    by_cases hx : x.runId = rec.runId
    · simp [insertRecord, hx]
    · simp [insertRecord, hx, ih]

/-- A record of a run that is as the run left it replays to what its chain leads to. -/
theorem replay_record (log : AuditLog) (ret : Retention) (r : Run) :
    (log.record r.record).replay ret r.record.runId =
      .ok (some (RunRecord.rebuild ret WorkingMemory.empty r.ledger.chain)) := by
  have hintact : r.record.isIntact = true := beq_self_eq_true _
  unfold replay get? record
  simp only [find?_insertRecord, hintact, ↓reduceIte]
  rfl

end AuditLog

namespace Run

structure Distinct (m : WorkingMemory) (chain : List Entry) : Prop where
  nodup : (chain.map Entry.id).Nodup
  fresh : ∀ c ∈ m.calls, c.id ∉ chain.map Entry.id

theorem Distinct.of_ids {m : WorkingMemory} {chain chain' : List Entry} {ids : List Uuid}
    (h : Distinct m chain') (hids : chain'.map Entry.id = chain.map Entry.id ++ ids) :
    Distinct m chain where
  nodup := by
    have hn := h.nodup
    rw [hids] at hn
    exact hn.of_append_left
  fresh := fun c hc hmem => h.fresh c hc (hids ▸ List.mem_append_left ids hmem)

/-- Working memory is what the chain leads to from `m`, and data is only on its way to calls of the
chain. -/
structure Replays (m : WorkingMemory) (r : Run) : Prop where
  tasks : ∀ t ∈ r.tasks, t.call.id ∈ callIds r.ledger.chain
  inbox : ∀ id data, .prepared id data ∈ r.inbox → id ∈ callIds r.ledger.chain
  memory : Distinct m r.ledger.chain → r.ledger.memory.forgetEpisodes =
    RunRecord.rebuild r.setup.config.retention m.forgetEpisodes r.ledger.chain

namespace Replays

variable {m : WorkingMemory} {r r' : Run}

/-- Commits keep the agreement. -/
theorem logs {own : List String} {es : List Entry} (h : Replays m r) (hl : Logs own es r r') :
    Replays m r' where
  tasks := fun t ht => by
    rw [hl.chain, callIds_append]
    exact List.mem_append_left _ (h.tasks t (hl.tasks ▸ ht))
  inbox := fun id data hmem => by
    rw [hl.chain, callIds_append]
    exact List.mem_append_left _ (h.inbox id data (hl.inbox ▸ hmem))
  memory := fun hids => by
    rw [hl.memory, hl.setup, hl.chain, RunRecord.rebuild_append,
      h.memory (hids.of_ids (by rw [hl.chain, List.map_append]))]

theorem calm (h : Replays m r) (hc : Calm r r') : Replays m r' := by
  cases hc with
  | logs hl =>
    obtain ⟨_, _, hl, _⟩ := hl
    exact h.logs hl
  | cancels => exact ⟨h.tasks, h.inbox, h.memory⟩
  | waits ms => exact ⟨h.tasks, h.inbox, h.memory⟩

theorem resolveSlot (h : Replays m r) (id : Uuid) (state : CallState) :
    Replays m (r.resolveSlot id state) := ⟨h.tasks, h.inbox, h.memory⟩

/-- A new task works on the call that was logged last. -/
theorem spawn {c : Entry.Call} (h : Replays m r) (hc : Entry.call c ∈ r.ledger.chain)
    (p : PreparedCall) (slot : Nat) : Replays m (r.spawn c p slot) where
  tasks := fun t ht => by
    rcases List.mem_append.mp ht with ht | ht
    · exact h.tasks t ht
    · rw [List.mem_singleton.mp ht]
      exact mem_callIds.mpr ⟨c, hc, rfl⟩
  inbox := h.inbox
  memory := h.memory

/-- Steps of tasks send data for their own calls only. -/
theorem advances {i : Nat} (h : Replays m r) (hadv : Advances i r r') : Replays m r' := by
  obtain ⟨t, t', sent, hsteps, _, hprogress⟩ := hadv
  have ht := h.tasks t (List.mem_of_getElem? hsteps.before)
  have hcall : t'.call.id = t.call.id := by cases hprogress <;> rfl
  refine ⟨fun u hu => ?_, fun id data hmem => ?_, ?_⟩
  · rw [hsteps.ledger]
    rcases hsteps.mem_cases hu with rfl | ⟨v, hv, hkept⟩
    · rwa [hcall]
    · rw [hkept.isOver_eq.1]
      exact h.tasks v hv
  · rw [hsteps.ledger]
    rw [hsteps.inbox] at hmem
    rcases List.mem_append.mp hmem with hmem | hmem
    · exact h.inbox id data hmem
    · cases hprogress with
      | goesOn _ _ hpush =>
        obtain ⟨e, he⟩ := hpush _ hmem
        cases he
      | prepared data' =>
        cases List.mem_singleton.mp hmem
        exact ht
      | rejected _ => cases List.mem_singleton.mp hmem
      | completed _ => cases List.mem_singleton.mp hmem
  · rw [hsteps.ledger, hsteps.setup]
    exact h.memory

/-- Among distinct identifiers, the data of a call is noted in the chain and in memory alike. -/
theorem patchCall_memory {c : Entry.Call} (h : Replays m r) (hids : Distinct m r.ledger.chain)
    (hc : Entry.call c ∈ r.ledger.chain) (data : Json) :
    (r.ledger.memory.setCallData c.id data).forgetEpisodes =
      RunRecord.rebuild r.setup.config.retention m.forgetEpisodes
        (r.ledger.chain.map (Entry.mapCall (Entry.Call.patch c.id data))) := by
  have hlive := h.memory hids
  -- The memory before the run has no call of that identifier, so the patch leaves it as it is.
  have hfresh (d : Entry.Call) (hd : d ∈ m.calls) : d.id ≠ c.id := fun hid =>
    hids.fresh d hd (hid ▸ List.mem_map_of_mem hc)
  have hbefore : m.forgetEpisodes.mapCalls (Entry.Call.patch c.id data) = m.forgetEpisodes := by
    have hcalls : m.calls.map (Entry.Call.patch c.id data) = m.calls :=
      (List.map_congr_left fun d hd => Entry.Call.patch_of_ne (hfresh d hd) data).trans
        (List.map_id _)
    simp only [WorkingMemory.mapCalls, WorkingMemory.forgetEpisodes, hcalls]
  have hone : r.ledger.memory.calls.countP (fun d => d.id == c.id) ≤ 1 := by
    have hsub := WorkingMemory.calls_rebuild_sublist r.setup.config.retention m.forgetEpisodes
      r.ledger.chain
    rw [← hlive] at hsub
    have hnone : m.calls.countP (fun d => d.id == c.id) = 0 :=
      List.countP_eq_zero.mpr fun d hd => by simpa using hfresh d hd
    refine Nat.le_trans hsub.countP_le ?_
    rw [List.countP_append]
    exact hnone.symm ▸ (Nat.zero_add _).symm ▸ countP_callsOf_le_one hids.nodup c.id
  rw [← hbefore, WorkingMemory.rebuild_mapCalls, ← hlive,
    WorkingMemory.setCallData_eq_mapCalls hone]
  rfl

/-- A call of the chain may be given data. -/
theorem patchCall {id : Uuid} (h : Replays m r) (hid : id ∈ callIds r.ledger.chain)
    (data : Json) : Replays m (r.patchCall id data) := by
  unfold Run.patchCall
  split
  · rename_i hnone
    refine ⟨h.tasks, h.inbox, fun hids => ?_⟩
    obtain ⟨c, hc, rfl⟩ := mem_callIds.mp hid
    cases hnone.symm.trans (chainCall?_of_mem hids.nodup hc)
  · rename_i c hsome
    have hkeep := callIds_replaceFirst hsome data
    refine ⟨fun t ht => ?_, fun id' data' hmem => ?_, fun hids => ?_⟩
    · exact hkeep.symm ▸ h.tasks t ht
    · exact hkeep.symm ▸ h.inbox id' data' hmem
    · have hbefore : Distinct m r.ledger.chain :=
        hids.of_ids ((ids_replaceFirst hsome data).trans (List.append_nil _).symm)
      obtain ⟨hc, rfl⟩ := mem_of_chainCall? hsome
      have hmemory := h.patchCall_memory hbefore hc data
      rwa [← replaceFirst_eq_map hbefore.nodup hc data] at hmemory

theorem receive {m' : Message} (h : Replays m r)
    (hm : ∀ id data, m' = .prepared id data → id ∈ callIds r.ledger.chain)
    (hr : Reception r m' r') : Replays m r' := by
  cases hr with
  | plain _ hl =>
    obtain ⟨_, _, hl, _⟩ := hl
    exact h.logs hl
  | result _ hl => exact h.logs hl
  | refused _ _ hl => exact h.logs hl
  | @accepted _ c _ _ _ _ hl =>
    have hopen : Replays m (r.openSlot c) := ⟨h.tasks, h.inbox, h.memory⟩
    refine (hopen.logs hl).spawn ?_ _ _
    rw [hl.chain]
    exact List.mem_append_right _ (List.mem_singleton.mpr rfl)
  | prepared id data => exact h.patchCall (hm id data rfl) data
  | failed hl => exact (h.resolveSlot _ _).logs hl
  | completed hl => exact (h.resolveSlot _ _).logs hl

theorem trace {S : Nat → Prop} {h : List (Run × Message)} (hr : Replays m r) (hown : r.TasksOwn)
    (ht : Trace S r h r') : Replays m r' := by
  induction ht with
  | refl => exact hr
  | calm _ hc ih => exact ih.calm hc
  | tells _ e ih =>
    refine ih.receive ?_ (receive_reception (.push e) _)
    exact fun _ _ h => nomatch h
  | @delivers _ q msg rest _ hm ih =>
    have htaken : Replays m { q with inbox := rest } :=
      ⟨ih.tasks, fun id data hmem => ih.inbox id data (hm ▸ List.mem_cons_of_mem _ hmem),
        ih.memory⟩
    refine htaken.receive (fun id data hmsg => ?_) (receive_reception _ _)
    exact ih.inbox id data (hm ▸ hmsg ▸ List.mem_cons_self)
  | steps ht _ hs ih => exact ih.advances (stepTask?_advances hs (ht.tasksOwn hown))

end Replays

section

variable (setup : Setup) (store : Store) (archive : Archive) (subscribers : Subscribers)

def started : Run := (new setup store archive subscribers).start.2

variable {setup store}

theorem applyAll_start (moves : List Move) :
    (new setup store archive subscribers).applyAll (.start :: moves) =
      (started setup store archive subscribers).applyAll moves := rfl

variable {m : WorkingMemory} {store' : Store}

/-- A started run keeps the agreement under every schedule. -/
theorem replays_applyAll_started
    (hload : WorkingMemory.load (setup.config.workingMemoryKey setup.context.id) store =
      (.ok m, store')) {moves : List Move} (hmoves : Move.start ∉ moves) :
    Replays m ((started setup store archive subscribers).applyAll moves) ∧
      ((started setup store archive subscribers).applyAll moves).setup = setup := by
  let bound := bindCatalog m { new setup store archive subscribers with store := store' }
  have hbound : Replays m bound := ⟨by simp [bound, bindCatalog, new],
    by simp [bound, bindCatalog, new], fun _ => rfl⟩
  have hown : bound.TasksOwn := by simp [TasksOwn, bound, bindCatalog, new]
  have htrace := (start_trace (r := new setup store archive subscribers) hload).trans
    (applyAll_trace hmoves (started setup store archive subscribers))
  exact ⟨hbound.trace hown htrace, htrace.setup⟩

/-- At every moment after the start, working memory without recalled episodes is what the chain
leads to from the loaded memory. If that was empty, the record of the finished run replays to
it. -/
theorem memory_eq_rebuild
    (hload : WorkingMemory.load (setup.config.workingMemoryKey setup.context.id) store =
      (.ok m, store')) :
    (∀ moves, Move.start ∉ moves →
      let r := (new setup store archive subscribers).applyAll (.start :: moves)
      Distinct m r.ledger.chain →
        r.ledger.memory.forgetEpisodes =
          RunRecord.rebuild setup.config.retention m.forgetEpisodes r.ledger.chain) ∧
    (m = WorkingMemory.empty → ∀ (moves : List Move) (s : Session) (log : AuditLog),
      Move.start ∉ moves →
      s.run = (new setup store archive subscribers).applyAll (.start :: moves) →
      Distinct m s.finish.1.chain →
        (log.record s.finish.1).replay setup.config.retention s.finish.1.runId =
          .ok (some s.finish.2.run.ledger.memory.forgetEpisodes)) := by
  refine ⟨fun moves hmoves => ?_, fun hempty moves s log hmoves hs hids => ?_⟩
  · intro r hids
    obtain ⟨hreplays, hsetup⟩ := replays_applyAll_started archive subscribers hload hmoves
    have hlive := hreplays.memory hids
    rwa [hsetup] at hlive
  · obtain ⟨ms, hms, hsettle⟩ := s.settle_leads
    have hall : Move.start ∉ moves ++ ms := by simp [hmoves, hms]
    obtain ⟨hreplays, hsetup⟩ := replays_applyAll_started archive subscribers hload hall
    rw [applyAll_append, ← applyAll_start, ← hs, ← hsettle] at hreplays hsetup
    have hlive := hreplays.memory hids
    rw [hsetup, hempty] at hlive
    exact (log.replay_record setup.config.retention s.settle.run).trans (hlive ▸ rfl)

open Sample in
/-- Two calls, the first of which is given its data after the second was committed. -/
theorem memory_eq_rebuild_two_calls :
    let moves : List Move :=
      [.push (noteCall 1), .push (noteCall 2), .task 0, .deliver, .task 0, .task 0]
    let r := noteRun.applyAll (.start :: moves)
    let s := (Session.new noteRun |>.move .start |>.move (.push (noteCall 1)))
    (Distinct WorkingMemory.empty r.ledger.chain ∧
      r.ledger.memory.forgetEpisodes =
        RunRecord.rebuild Retention.standard WorkingMemory.empty r.ledger.chain) ∧
    Distinct WorkingMemory.empty s.finish.1.chain ∧
      (AuditLog.empty.record s.finish.1).replay Retention.standard s.finish.1.runId =
        .ok (some s.finish.2.run.ledger.memory.forgetEpisodes) := by
  intro moves r s
  have hload : WorkingMemory.load (noteSetup.config.workingMemoryKey noteSetup.context.id)
      Store.empty = (.ok WorkingMemory.empty, Store.empty.counted) := rfl
  have hmoves : Move.start ∉ moves := by simp [moves]
  have hids : Distinct WorkingMemory.empty r.ledger.chain := ⟨by decide +kernel, nofun⟩
  have hfinal : Distinct WorkingMemory.empty s.finish.1.chain := ⟨by decide +kernel, nofun⟩
  obtain ⟨hlive, hreplay⟩ := memory_eq_rebuild Archive.empty Subscribers.empty hload
  exact ⟨⟨hids, hlive moves hmoves hids⟩, hfinal,
    hreplay rfl [.push (noteCall 1)] s AuditLog.empty (by simp) rfl hfinal⟩

end

end Run

end TagLedger
