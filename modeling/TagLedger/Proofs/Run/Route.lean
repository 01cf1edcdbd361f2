import Mathlib.Tactic.Common
import TagLedger.Proofs.Run.Log
import TagLedger.Run.Message

/-!
What the dispatcher does with one message. An entry that is no call only adds to the log; a call is
logged and either refused, with one error and one event, or given a slot and a task.
-/

namespace TagLedger

namespace Entry

def IsPlain (e : Entry) : Prop := e.kind ≠ .call ∧ e.kind ≠ .result

theorem isPlain_output (o : Output) : IsPlain (.output o) := ⟨nofun, nofun⟩

theorem isPlain_event (e : Event) : IsPlain (.event e) := ⟨nofun, nofun⟩

theorem isPlain_of_mem_ofError {id : Uuid} {now : Timestamp} {err : RunError} {e : Entry}
    (h : e ∈ ofError id now err) : e.IsPlain := by
  unfold ofError at h
  split at h
  all_goals
    simp only [degradedOutput, reportEvent, List.mem_cons, List.not_mem_nil, or_false] at h
  · rcases h with rfl | rfl
    · exact isPlain_output _
    · exact isPlain_event _
  · exact h ▸ isPlain_event _
  · rcases h with rfl | rfl
    · exact isPlain_output _
    · exact isPlain_event _
  · exact h ▸ isPlain_event _

theorem isPlain_of_mem_ofFailedHandler {id : Uuid} {now : Timestamp} {o : Output} {err : RunError}
    {e : Entry} (h : e ∈ ofFailedHandler id now o err) : e.IsPlain := by
  simp only [ofFailedHandler, degradedOutput, reportEvent, List.mem_cons, List.not_mem_nil,
    or_false] at h
  rcases h with rfl | rfl
  · exact isPlain_output _
  · exact isPlain_event _

end Entry

def RunError.IsRefusalOf (c : Entry.Call) (err : RunError) : Prop :=
  err = .unknown (.call c) ∨ ∃ text, err = .malformed (.call c) text

theorem PreparedCall.isRefusalOf_of_ofCall {actions : List BoundAction} {c : Entry.Call}
    {err : RunError} (h : PreparedCall.ofCall actions c = .error err) : err.IsRefusalOf c := by
  unfold PreparedCall.ofCall at h
  split at h
  · cases h
    exact .inl rfl
  · split at h
    · cases h
      exact .inr ⟨_, rfl⟩
    · cases h

/-- A refused call leaves one event that names it. -/
theorem RunError.IsRefusalOf.ofError_eq {c : Entry.Call} {err : RunError} (h : err.IsRefusalOf c)
    (id : Uuid) (now : Timestamp) :
    ∃ name data, Entry.ofError id now err = [Entry.reportEvent id now name data "callId" c.id] ∧
      (name = "error:action_call" ∨ name = "error:action_call:parsingError") := by
  rcases h with rfl | ⟨text, rfl⟩
  · exact ⟨_, _, rfl, .inl rfl⟩
  · exact ⟨_, _, rfl, .inr rfl⟩

namespace InputHandler

/-- Handling an input changes nothing in working memory but the recalled episodes. -/
theorem handleInput_memory (handlers : List InputHandler) (context : ContextState)
    (memory : WorkingMemory) (archive : Archive) (e : Entry.Input) :
    (handleInput handlers context memory archive e).memory.forgetEpisodes =
      memory.forgetEpisodes := by
  unfold handleInput
  split
  · rfl
  · split
    · rfl
    · split <;> rfl

end InputHandler

namespace Run

variable {r r' : Run}

def LogsPlain (r r' : Run) : Prop :=
  ∃ own es, Logs own es r r' ∧ ∀ e ∈ es, e.IsPlain

theorem Logs.logsPlain {own : List String} (h : Logs own [] r r') : LogsPlain r r' :=
  ⟨own, [], h, by simp⟩

theorem routeInput_logs (e : Entry.Input) (r : Run) : LogsPlain r (r.routeInput e) := by
  unfold routeInput
  set handled := InputHandler.handleInput r.setup.catalog.inputs r.setup.context r.ledger.memory
    r.ledger.archive e with hhandled
  have hrecall : Logs [] [] r { r with ledger := { r.ledger with
      memory := handled.memory, archive := handled.archive } } :=
    Logs.of_eq { Untouched.refl r with } rfl (InputHandler.handleInput_memory _ _ _ _ _) rfl
  dsimp only
  split
  · refine ⟨_, _, hrecall.trans (commit_logs _ _), ?_⟩
    simp [Entry.IsPlain, Entry.kind]
  · split
    · exact hrecall.logsPlain
    · rename_i err _ _
      refine ⟨[err.message], [], ?_, by simp⟩
      exact { hrecall with errors := ⟨[], by simp [recordError, addErrors], by simp⟩ }

theorem routeOutput_logs (e : Entry.Output) (r : Run) : LogsPlain r (r.routeOutput e) := by
  unfold routeOutput
  split
  · rename_i es _
    refine ⟨_, _, (r.draw_logs es.length).trans (commitAll_logs _ _), fun x hx => ?_⟩
    obtain ⟨o, _, rfl⟩ := List.mem_map.mp hx
    exact Entry.isPlain_output o
  · rename_i err _
    dsimp only
    split
    · exact ⟨_, _, (r.recordError_logs err).trans (commitSubstitutes_logs _ _),
        fun x hx => Entry.isPlain_of_mem_ofError hx⟩
    · exact ⟨_, _, ((r.recordError_logs err).trans (draw_logs 1 _)).trans (commitAll_logs _ _),
        fun x hx => Entry.isPlain_of_mem_ofFailedHandler hx⟩

theorem route_logs_of_isPlain {e : Entry} (h : e.IsPlain) (r : Run) : LogsPlain r (r.route e) := by
  have hcommit : LogsPlain r (r.commit e) := ⟨_, _, r.commit_logs e, by simpa using h⟩
  cases e with
  | input body => exact r.routeInput_logs body
  | output body => exact r.routeOutput_logs body
  | call body => exact absurd rfl h.1
  | result body => exact absurd rfl h.2
  | thought body => exact hcommit
  | event body => exact hcommit
  | step body => exact hcommit
  | run body => exact hcommit

theorem dispatch_refused {c : Entry.Call} {err : RunError}
    (h : PreparedCall.ofCall r.ledger.actions c = .error err) :
    ∃ id now, Logs [err.message] (.call c :: Entry.ofError id now err) r (r.dispatch c) := by
  unfold dispatch
  rw [h]
  exact ⟨_, _, ((r.recordError_logs err).trans (commit_logs _ _)).trans
    (commitSubstitutes_logs _ _)⟩

theorem dispatch_accepted {c : Entry.Call} {p : PreparedCall}
    (h : PreparedCall.ofCall r.ledger.actions c = .ok p) :
    ∃ q, Logs [] [.call c] (r.openSlot c) q ∧ r.dispatch c = q.spawn c p r.ledger.slots.length := by
  unfold dispatch
  rw [h]
  exact ⟨_, commit_logs _ _, rfl⟩

/-- Noting the data of a call is a matter of the log. -/
theorem patchCall_untouched (id : Uuid) (data : Json) (r : Run) :
    Untouched r (r.patchCall id data) := by
  unfold patchCall
  split
  · exact { Untouched.refl r with }
  · exact { Untouched.refl r with }

inductive Reception (r : Run) : Message → Run → Prop where
  /-- The entry is neither a call nor a result. -/
  | plain {e : Entry} {r' : Run} (he : e.finished.IsPlain) (hl : LogsPlain r r') :
    Reception r (.push e) r'
  /-- The entry is a result that comes from outside. -/
  | result {e : Entry} {res : Entry.Result} {r' : Run} (he : e.finished = .result res)
    (hl : Logs [] [.result res] r r') : Reception r (.push e) r'
  /-- The call cannot be prepared. -/
  | refused {e : Entry} {c : Entry.Call} {err : RunError} {id : Uuid} {now : Timestamp} {r' : Run}
    (he : e.finished = .call c) (hp : PreparedCall.ofCall r.ledger.actions c = .error err)
    (hl : Logs [err.message] (.call c :: Entry.ofError id now err) r r') :
    Reception r (.push e) r'
  /-- The call gets a slot and a task. -/
  | accepted {e : Entry} {c : Entry.Call} {p : PreparedCall} {q : Run}
    (he : e.finished = .call c) (hp : PreparedCall.ofCall r.ledger.actions c = .ok p)
    (hl : Logs [] [.call c] (r.openSlot c) q) :
    Reception r (.push e) (q.spawn c p r.ledger.slots.length)
  | prepared (id : Uuid) (data : Json) : Reception r (.prepared id data) (r.patchCall id data)
  | failed {id fresh : Uuid} {now : Timestamp} {err : RunError} {r' : Run}
    (hl : Logs [err.message] (Entry.ofError fresh now err)
      (r.resolveSlot id (.failed err.message)) r') : Reception r (.failed id err) r'
  | completed {res : Entry.Result} {r' : Run}
    (hl : Logs [] [.result res] (r.resolveSlot res.callId (.completed res)) r') :
    Reception r (.completed res) r'

/-- Taking a message sends none. -/
theorem Reception.inbox {m : Message} (h : Reception r m r') : r'.inbox = r.inbox := by
  cases h with
  | plain _ hl =>
    obtain ⟨_, _, hl, _⟩ := hl
    exact hl.inbox
  | result _ hl => exact hl.inbox
  | refused _ _ hl => exact hl.inbox
  | accepted _ _ hl => exact hl.inbox
  | prepared id data => exact (patchCall_untouched id data r).inbox
  | failed hl => exact hl.inbox
  | completed hl => exact hl.inbox

/-- An entry that is no result is routed in one of the ways of its kind. -/
theorem route_reception {e e' : Entry} (he : e.finished = e') (r : Run) :
    Reception r (.push e) (r.route e') := by
  by_cases hplain : e'.IsPlain
  · exact .plain (he ▸ hplain) (route_logs_of_isPlain hplain r)
  · cases e' with
    | call c =>
      cases hp : PreparedCall.ofCall r.ledger.actions c with
      | error err =>
        obtain ⟨id, now, hl⟩ := dispatch_refused hp
        exact .refused he hp hl
      | ok p =>
        obtain ⟨q, hl, hq⟩ := dispatch_accepted hp
        rw [route, hq]
        exact .accepted he hp hl
    | result res => exact .result he (r.commit_logs _)
    | input body => exact absurd ⟨nofun, nofun⟩ hplain
    | output body => exact absurd ⟨nofun, nofun⟩ hplain
    | thought body => exact absurd ⟨nofun, nofun⟩ hplain
    | event body => exact absurd ⟨nofun, nofun⟩ hplain
    | step body => exact absurd ⟨nofun, nofun⟩ hplain
    | run body => exact absurd ⟨nofun, nofun⟩ hplain

theorem receive_failed (id : Uuid) (err : RunError) (r : Run) :
    ∃ fresh now, Logs [err.message] (Entry.ofError fresh now err)
      (r.resolveSlot id (.failed err.message)) (receive (.failed id err) r) :=
  ⟨_, _, (recordError_logs err _).trans (commitSubstitutes_logs _ _)⟩

theorem receive_completed (res : Entry.Result) (r : Run) :
    Logs [] [.result res] (r.resolveSlot res.callId (.completed res))
      (receive (.completed res) r) :=
  commit_logs _ _

theorem receive_reception (m : Message) (r : Run) : Reception r m (receive m r) := by
  cases m with
  | push e => exact route_reception rfl r
  | prepared id data => exact .prepared id data
  | failed id err =>
    obtain ⟨_, _, hl⟩ := receive_failed id err r
    exact .failed hl
  | completed res => exact .completed (receive_completed res r)

end Run

end TagLedger
