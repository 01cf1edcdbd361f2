import Mathlib.Tactic.Common
import TagLedger.Proofs.Entry.Handled
import TagLedger.Proofs.Run.Frame

/-!
The entries that routing an entry adds to the chain. They are a function of the entry and of what
the dispatcher goes by; if handlers see the data alone, two runs that go by the same add entries
that are alike.
-/

namespace TagLedger.Run

variable {r q q' : Run} {id : Uuid} {now : Timestamp}

/-- What routing an entry adds to the chain. -/
def entriesFor (r : Run) : Entry → List Entry
  | .input e =>
    ((InputHandler.handleInput r.setup.catalog.inputs r.setup.context r.ledger.memory
      r.ledger.archive e).outcome.toOption.map Entry.input).toList
  | .output e =>
    match OutputHandler.handleOutput r.ledger.outputs r.setup.config.tagNames r.freshIds
      r.setup.context r.ledger.memory e with
    | .ok os => os.map .output
    | .error err =>
      if err.isRecoverable then Entry.ofError r.nextId r.time err
      else Entry.ofFailedHandler r.nextId r.time e err
  | .call c =>
    match PreparedCall.ofCall r.ledger.actions c with
    | .ok _ => [.call c]
    | .error err => .call c :: Entry.ofError r.nextId r.time err
  | e => [e]

theorem chain_routeInput (e : Entry.Input) (r : Run) :
    (r.routeInput e).ledger.chain = r.ledger.chain ++ r.entriesFor (.input e) := by
  unfold routeInput
  dsimp only [entriesFor]
  cases (InputHandler.handleInput r.setup.catalog.inputs r.setup.context r.ledger.memory
    r.ledger.archive e).outcome with
  | ok o => exact (commit_logs _ _).chain
  | error err =>
    dsimp only
    split <;> exact (List.append_nil _).symm

theorem chain_routeOutput (e : Entry.Output) (r : Run) :
    (r.routeOutput e).ledger.chain = r.ledger.chain ++ r.entriesFor (.output e) := by
  unfold routeOutput
  dsimp only [entriesFor]
  cases OutputHandler.handleOutput r.ledger.outputs r.setup.config.tagNames r.freshIds
    r.setup.context r.ledger.memory e with
  | ok os => exact (commitAll_logs _ _).chain
  | error err =>
    dsimp only
    split
    · exact (commitSubstitutes_logs _ _).chain
    · exact (commitAll_logs _ _).chain

theorem chain_dispatch (c : Entry.Call) (r : Run) :
    (r.dispatch c).ledger.chain = r.ledger.chain ++ r.entriesFor (.call c) := by
  unfold dispatch
  dsimp only [entriesFor]
  cases PreparedCall.ofCall r.ledger.actions c with
  | error err =>
    have hcall := ((r.recordError err).commit_logs (.call c)).chain
    have hrest := (commitSubstitutes_logs err ((r.recordError err).commit (.call c))).chain
    dsimp only
    rw [hrest, hcall, List.append_assoc]
    rfl
  | ok p => exact ((r.openSlot c).commit_logs (.call c)).chain

theorem chain_route (e : Entry) (r : Run) :
    (r.route e).ledger.chain = r.ledger.chain ++ r.entriesFor e := by
  cases e with
  | input e => exact r.chain_routeInput e
  | output e => exact r.chain_routeOutput e
  | call c => exact r.chain_dispatch c
  | _ => exact (r.commit_logs _).chain

structure GoesBySame (q q' : Run) : Prop where
  setup : ∃ ids epoch, q'.setup = { q.setup with ids, epoch }
  actions : q'.ledger.actions = q.ledger.actions
  outputs : q'.ledger.outputs = q.ledger.outputs
  queries : Archive.QueriesAlike q.setup.context.id q.ledger.archive q'.ledger.archive

structure HandlesData (q : Run) : Prop where
  inputs : ∀ h ∈ q.setup.catalog.inputs, h.OnData
  outputs : ∀ h ∈ q.ledger.outputs, h.OnData

theorem entriesFor_input_alike (hdata : HandlesData q) (hsame : GoesBySame q q')
    (e : Entry.Input) :
    List.Forall₂
      (Entry.Alike (SamePlace (q.entriesFor (.input e))
        (q'.entriesFor (.input { e with id, timestamp := now }))))
      (q.entriesFor (.input e)) (q'.entriesFor (.input { e with id, timestamp := now })) := by
  obtain ⟨ids, epoch, hsetup⟩ := hsame.setup
  have houtcome : (InputHandler.handleInput q.setup.catalog.inputs q.setup.context q'.ledger.memory
        q'.ledger.archive { e with id, timestamp := now }).outcome.toOption =
      (InputHandler.handleInput q.setup.catalog.inputs q.setup.context q.ledger.memory
        q.ledger.archive e).outcome.toOption.map fun o => { o with id, timestamp := now } :=
    InputHandler.outcome_reissued hdata.inputs hsame.queries e
  simp only [entriesFor, hsetup, houtcome]
  cases (InputHandler.handleInput q.setup.catalog.inputs q.setup.context q.ledger.memory
    q.ledger.archive e).outcome.toOption with
  | none => exact .nil
  | some o => exact .cons (Entry.alike_reissued (.input o) id now) .nil

theorem entriesFor_output_alike (hdata : HandlesData q) (hsame : GoesBySame q q')
    (e : Entry.Output) :
    List.Forall₂
      (Entry.Alike (SamePlace (q.entriesFor (.output e))
        (q'.entriesFor (.output { e with id, timestamp := now }))))
      (q.entriesFor (.output e)) (q'.entriesFor (.output { e with id, timestamp := now })) := by
  obtain ⟨ids, epoch, hsetup⟩ := hsame.setup
  have hhandled : OutputHandler.HandledAlike
      (OutputHandler.handleOutput q.ledger.outputs q.setup.config.tagNames q.freshIds
        q.setup.context q.ledger.memory e)
      (OutputHandler.handleOutput q.ledger.outputs q.setup.config.tagNames q'.freshIds
        q.setup.context q'.ledger.memory { e with id, timestamp := now }) :=
    OutputHandler.handleOutput_reissued hdata.outputs q.setup.config.tagNames q.freshIds
      q'.freshIds e
  simp only [entriesFor, hsetup, hsame.outputs]
  generalize OutputHandler.handleOutput q.ledger.outputs q.setup.config.tagNames q.freshIds
    q.setup.context q.ledger.memory e = x at hhandled ⊢
  generalize OutputHandler.handleOutput q.ledger.outputs q.setup.config.tagNames q'.freshIds
    q.setup.context q'.ledger.memory { e with id, timestamp := now } = x' at hhandled ⊢
  cases hhandled with
  | ok hos =>
    dsimp only
    rw [List.forall₂_map_left_iff, List.forall₂_map_right_iff]
    refine hos.imp ?_
    rintro o _ ⟨id', now', rfl⟩
    exact Entry.alike_reissued (.output o) id' now'
  | @error err id' now' hcall =>
    dsimp only
    rw [RunError.isRecoverable_reissued]
    split
    · exact Entry.ofError_alike err (fun c hc => .inl (hcall c hc)) fun _ _ h => h
    · rw [Entry.ofFailedHandler, Entry.ofFailedHandler, RunError.message_reissued]
      exact Entry.degradedOutput_alike e _ _ _ _ _ _ _ _ _

theorem entriesFor_call_alike (hsame : GoesBySame q q') (c : Entry.Call) :
    List.Forall₂
      (Entry.Alike (SamePlace (q.entriesFor (.call c))
        (q'.entriesFor (.call { c with id, timestamp := now }))))
      (q.entriesFor (.call c)) (q'.entriesFor (.call { c with id, timestamp := now })) := by
  simp only [entriesFor, hsame.actions, PreparedCall.ofCall_reissued]
  cases hp : PreparedCall.ofCall q.ledger.actions c with
  | ok p => exact .cons (Entry.alike_reissued (.call c) id now) .nil
  | error err =>
    refine .cons (Entry.alike_reissued (.call c) id now) ?_
    refine Entry.ofError_alike err (fun d hd => .inr ?_) fun _ _ h => List.mem_cons_of_mem _ h
    -- The event names the call that stands before it.
    have hself : d = c := by
      rcases PreparedCall.isRefusalOf_of_ofCall hp with rfl | ⟨_, rfl⟩ <;>
        exact (Entry.call.inj (Option.some.inj hd)).symm
    rw [hself]
    exact List.mem_cons_self

/-- Routing an element's entry adds entries that are alike. -/
theorem entriesFor_alike (hdata : HandlesData q) (hsame : GoesBySame q q') (e : Entry)
    (id : Uuid) (now : Timestamp) :
    List.Forall₂ (Entry.Alike (SamePlace (q.entriesFor e) (q'.entriesFor (e.reissued id now))))
      (q.entriesFor e) (q'.entriesFor (e.reissued id now)) := by
  cases e with
  | input e => exact entriesFor_input_alike hdata hsame e
  | output e => exact entriesFor_output_alike hdata hsame e
  | call c => exact entriesFor_call_alike hsame c
  | thought e => exact .cons (Entry.alike_reissued (.thought e) id now) .nil
  | result e => exact .cons (Entry.alike_reissued (.result e) id now) .nil
  | event e => exact .cons (Entry.alike_reissued (.event e) id now) .nil
  | step e => exact .cons (Entry.alike_reissued (.step e) id now) .nil
  | run e => exact .cons (Entry.alike_reissued (.run e) id now) .nil

end TagLedger.Run
