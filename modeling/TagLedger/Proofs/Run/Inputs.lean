import Mathlib.Tactic.Common
import TagLedger.Proofs.Entry.Outcome
import TagLedger.Proofs.Run.Settle

/-!
What becomes of an input. It is committed if its handler accepts it, and dropped otherwise. A
dropped input leaves no entry and nothing in the store. But its handler is run with the episodes
recalled for it in working memory, and those stay there even if the handler fails.
-/

namespace TagLedger

namespace Run

/-- Why an input is dropped, and working memory after it. -/
inductive Drops (r : Run) (e : Entry.Input) : RunError → WorkingMemory → Prop where
  | unknown (hfind : r.setup.catalog.inputs.find? (·.type == e.type) = none) :
    Drops r e (.unknown (.input e)) r.ledger.memory
  | malformed {h : InputHandler} {text : String}
    (hfind : r.setup.catalog.inputs.find? (·.type == e.type) = some h)
    (hv : h.validated e = .error (.malformed (.input e) text)) :
    Drops r e (.malformed (.input e) text) r.ledger.memory
  /-- No episodes can be recalled. -/
  | unanswered {h : InputHandler} {data : Json} {err : RunError}
    (hfind : r.setup.catalog.inputs.find? (·.type == e.type) = some h)
    (hv : h.validated e = .ok data)
    (hquery : (r.ledger.archive.query r.setup.context.id data.toText).1 = .error err) :
    Drops r e err r.ledger.memory
  /-- The handler fails, with the recalled episodes before it. -/
  | failed {h : InputHandler} {data : Json} {episodes : List Json} {err : RunError}
    (hfind : r.setup.catalog.inputs.find? (·.type == e.type) = some h)
    (hv : h.validated e = .ok data)
    (hquery : (r.ledger.archive.query r.setup.context.id data.toText).1 = .ok episodes)
    (hh : h.handle data ⟨r.setup.context, { r.ledger.memory with episodes := some episodes }⟩ =
      .error err) :
    Drops r e err { r.ledger.memory with episodes := some episodes }

structure InputDropped (r : Run) (e : Entry.Input) (err : RunError) (r' : Run) : Prop where
  chain : r'.ledger.chain = r.ledger.chain
  /-- Working memory is the same in every category. -/
  categories : r'.ledger.memory.forgetEpisodes = r.ledger.memory.forgetEpisodes
  memory : Drops r e err r'.ledger.memory
  /-- So is what was written of it. -/
  store : r'.store = r.store
  errors : r'.ledger.errors = r.ledger.errors ++ if err.isRecoverable then [] else [err.message]
  buckets : r'.ledger.archive.buckets = r.ledger.archive.buckets
  rest : r' =
    { r with
      ledger := { r.ledger with
        memory := r'.ledger.memory
        archive := r'.ledger.archive
        errors := r'.ledger.errors } }

def InputCommitted (r : Run) (e : Entry.Input) (r' : Run) : Prop :=
  ∃ o : Entry.Input, o.toHeader = { e.toHeader with processed := true } ∧
    Logs [] [.input o] r r'

theorem buckets_query (a : Archive) (context : String) (text : Text) :
    (a.query context text).2.buckets = a.buckets := by
  unfold Archive.query
  split <;> rfl

/-- The run after an input was handled without success. -/
theorem inputDropped_of_drops {r : Run} {e : Entry.Input} {err : RunError}
    {memory : WorkingMemory} {archive : Archive} (hdrops : Drops r e err memory)
    (hbuckets : archive.buckets = r.ledger.archive.buckets) :
    let r' := { r with ledger := { r.ledger with memory, archive } }
    InputDropped r e err (if err.isRecoverable then r' else r'.recordError err) := by
  have hcategories : memory.forgetEpisodes = r.ledger.memory.forgetEpisodes := by
    cases hdrops <;> rfl
  intro r'
  split
  · rename_i h
    exact ⟨rfl, hcategories, hdrops, rfl, by simp [r', h], hbuckets, rfl⟩
  · rename_i h
    exact ⟨rfl, hcategories, hdrops, rfl, by simp [r', h, recordError, addErrors], hbuckets, rfl⟩

/-- Every input that is routed is committed or dropped. -/
theorem route_input_committed_or_dropped (e : Entry.Input) (r : Run) :
    InputCommitted r e (r.route (.input e)) ∨ ∃ err, InputDropped r e err (r.route (.input e)) := by
  have hend := InputHandler.handleInput_outcome r.setup.catalog.inputs r.setup.context
    r.ledger.memory r.ledger.archive e
  rw [route, routeInput]
  generalize InputHandler.handleInput r.setup.catalog.inputs r.setup.context r.ledger.memory
    r.ledger.archive e = handled at hend ⊢
  cases hend with
  | unknown hfind => exact .inr ⟨_, inputDropped_of_drops (.unknown hfind) rfl⟩
  | malformed hfind hv => exact .inr ⟨_, inputDropped_of_drops (.malformed hfind hv) rfl⟩
  | @unanswered h data err asked hfind hv hquery =>
    have hbuckets := buckets_query r.ledger.archive r.setup.context.id data.toText
    rw [hquery] at hbuckets
    exact .inr ⟨_, inputDropped_of_drops (.unanswered hfind hv (by rw [hquery])) hbuckets⟩
  | @recalled h data episodes asked hfind hv hquery =>
    have hbuckets := buckets_query r.ledger.archive r.setup.context.id data.toText
    rw [hquery] at hbuckets
    cases hh : h.handle data
      ⟨r.setup.context, { r.ledger.memory with episodes := some episodes }⟩ with
    | error err =>
      exact .inr ⟨err, inputDropped_of_drops (.failed hfind hv (by rw [hquery]) hh) hbuckets⟩
    | ok response =>
      have hrecall : Logs [] [] r { r with ledger := { r.ledger with
          memory := { r.ledger.memory with episodes := some episodes }, archive := asked } } :=
        Logs.of_eq { Untouched.refl r with } rfl rfl rfl
      exact .inl ⟨h.respond e data response, h.header_respond e data response,
        hrecall.trans (commit_logs _ _)⟩

end Run

namespace Sample

def failingInputs : InputHandler where
  type := "ask"
  schema := none
  handle := fun _ _ => .error (.failure .action "out of order")
  format := fun _ => none

def askingRun : Run :=
  (Run.new { noteSetup with catalog := ⟨[], [], [failingInputs]⟩ } Store.empty Archive.empty
    Subscribers.empty).apply .start

def askInput : Entry.Input :=
  { toHeader := Header.final ⟨7⟩ noteSetup.epoch
    type := "ask", content := "why?", data := none, params := [], formatted := none }

end Sample

open Sample in
/-- The handler fails and the input is not committed, but working memory has changed: it recalls
that there were no episodes. -/
theorem Run.dropped_input_leaves_episodes :
    let r' := askingRun.route (.input askInput)
    r'.ledger.chain = askingRun.ledger.chain ∧ askingRun.ledger.memory.episodes = none ∧
      r'.ledger.memory.episodes = some [] ∧ r'.ledger.memory ≠ askingRun.ledger.memory := by
  decide +kernel

end TagLedger
