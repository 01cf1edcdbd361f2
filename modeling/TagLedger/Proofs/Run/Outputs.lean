import Mathlib.Tactic.Common
import TagLedger.Proofs.Entry.Outcome
import TagLedger.Proofs.Run.Route
import TagLedger.Proofs.Run.Settle

/-!
What becomes of an output. It is handled, and the chain grows by what its handler makes of it; or it
is degraded, and the chain grows by the output itself, with the reason among its parameters, and an
event about it. What stands in for an output that fails is chosen by the entry that the error
carries, so there is a third end: a handler that fails with an error about some other entry.
-/

namespace TagLedger

variable {id : Uuid} {now : Timestamp} {err : RunError}

/-- An output as it is committed when it is not handled: final, not processed, and with two more
parameters. -/
structure Entry.Output.DegradedTo (e o : Entry.Output) : Prop where
  id : o.id = e.id
  done : o.done = true
  processed : o.processed = false
  params : ∃ reason, o.params = (e.params.insert "id" e.id.toJson).insert "error" (.str reason)

inductive Entry.Degrades (id : Uuid) (now : Timestamp) (e : Entry.Output) : List Entry → Prop where
  | intro {o : Entry.Output} {name : String} {data : Json} (ho : e.DegradedTo o)
    (hname : name = "error:output" ∨ name = "error:output:parsingError") :
    Degrades id now e [.output o, reportEvent id now name data "outputId" e.id]

/-- The error carries the output, perhaps with other data. -/
def RunError.IsAbout (e : Entry.Output) (err : RunError) : Prop :=
  ∃ o, err.entry? = some (.output o) ∧ o.id = e.id ∧ o.params = e.params

namespace Entry

theorem degrades_degradedOutput {e o : Output} {reason name : String} {data : Json}
    (hid : o.id = e.id) (hparams : o.params = e.params)
    (hname : name = "error:output" ∨ name = "error:output:parsingError") :
    Degrades id now e (degradedOutput id now o reason name data) := by
  rw [degradedOutput, hid]
  refine .intro ⟨hid, rfl, rfl, reason, ?_⟩ hname
  rw [Output.degraded, hid, hparams]

theorem degrades_ofFailedHandler (e : Output) (err : RunError) :
    Degrades id now e (ofFailedHandler id now e err) :=
  degrades_degradedOutput rfl rfl (.inl rfl)

/-- An error about an output degrades it. -/
theorem degrades_ofError {e : Output} (h : err.IsAbout e) :
    Degrades id now e (ofError id now err) := by
  obtain ⟨o, hentry, hid, hparams⟩ := h
  cases err with
  | unknown x =>
    obtain rfl := Option.some.inj hentry
    exact degrades_degradedOutput hid hparams (.inl rfl)
  | malformed x m =>
    obtain rfl := Option.some.inj hentry
    exact degrades_degradedOutput hid hparams (.inr rfl)
  | aborted => cases hentry
  | failure area text => cases hentry

end Entry

inductive OutputHandler.Replies (h : OutputHandler) (fresh : Nat → Uuid) (e : Entry.Output)
    (data : Json) : OutputReply → List Entry.Output → Prop where
  | unchanged {o : Entry.Output} (ho : o = { e with processed := true, formatted := h.format data })
    (hid : o.id = e.id) : Replies h fresh e data .unchanged [o]
  | single {response : OutputResponse} {o : Entry.Output} (ho : o = h.respond e response)
    (hid : o.id = e.id) : Replies h fresh e data (.single response) [o]
  | fanOut {responses : List OutputResponse} {es : List Entry.Output}
    (hlength : es.length = responses.length)
    (hes : ∀ i response, responses[i]? = some response → ∃ o, es[i]? = some o ∧
      o = h.respond { e with id := fresh i } response ∧ o.id = fresh i) :
    Replies h fresh e data (.fanOut responses) es

theorem OutputHandler.replies_replyEntries (h : OutputHandler) (fresh : Nat → Uuid)
    (e : Entry.Output) (data : Json) (reply : OutputReply) :
    h.Replies fresh e data reply (h.replyEntries fresh e data reply) := by
  cases reply with
  | unchanged => exact .unchanged rfl rfl
  | single response => exact .single rfl rfl
  | fanOut responses =>
    refine .fanOut (by simp [replyEntries]) fun i response hi => ⟨_, ?_, rfl, rfl⟩
    simp [replyEntries, List.getElem?_zipIdx, hi]

namespace Run

inductive OutputAccount (r : Run) (e : Entry.Output) (r' : Run) : Prop where
  /-- The handler of its type answers, and no error is recorded. -/
  | handled {h : OutputHandler} {data : Json} {reply : OutputReply} {es : List Entry.Output}
    (hfind : r.ledger.outputs.find? (·.type == e.type) = some h)
    (hv : h.validated r.setup.config.tagNames e = .ok data)
    (hh : h.handle data ⟨r.setup.context, r.ledger.memory, { e with data := some data }⟩ =
      .ok reply)
    (hreply : h.Replies r.freshIds { e with data := some data } data reply es)
    (hdrawn : r'.drawn = r.drawn + es.length) (hl : Logs [] (es.map .output) r r') :
    OutputAccount r e r'
  /-- One error is recorded. -/
  | degraded {text : String} {id : Uuid} {now : Timestamp} {es : List Entry}
    (hes : Entry.Degrades id now e es) (hl : Logs [text] es r r') : OutputAccount r e r'

/-- The handler of an output fails with an error that carries an entry, but not that output. What
stands in for the entry is committed, if anything does. -/
structure Strays (r : Run) (e : Entry.Output) (err : RunError) (r' : Run) : Prop where
  handler : ∃ h data, r.ledger.outputs.find? (·.type == e.type) = some h ∧
    h.validated r.setup.config.tagNames e = .ok data ∧
    h.handle data ⟨r.setup.context, r.ledger.memory, { e with data := some data }⟩ = .error err
  recoverable : err.isRecoverable = true
  notAbout : ¬ err.IsAbout e
  logs : Logs [err.message] (Entry.ofError r.nextId r.time err) r r'

theorem drawn_commitAll_outputs (es : List Entry.Output) (r : Run) :
    (r.commitAll (es.map .output)).drawn = r.drawn := by
  induction es generalizing r with
  | nil => rfl
  | cons e es ih => exact ih (r.commit (.output e))

/-- Every output that is routed is accounted for, unless its handler fails with an error about some
other entry. -/
theorem route_output_accounted (e : Entry.Output) (r : Run) :
    OutputAccount r e (r.route (.output e)) ∨ ∃ err, Strays r e err (r.route (.output e)) := by
  have hrecovers (err : RunError) : Logs [err.message] (Entry.ofError r.nextId r.time err) r
      ((r.recordError err).commitSubstitutes err) := by
    have hlogs := (r.recordError_logs err).trans (commitSubstitutes_logs err _)
    rwa [List.nil_append] at hlogs
  have hend := OutputHandler.handleOutput_outcome r.ledger.outputs r.setup.config.tagNames
    r.freshIds r.setup.context r.ledger.memory e
  rw [route, routeOutput]
  generalize OutputHandler.handleOutput r.ledger.outputs r.setup.config.tagNames r.freshIds
    r.setup.context r.ledger.memory e = outcome at hend ⊢
  cases hend with
  | unknown _ =>
    exact .inl (.degraded (Entry.degrades_ofError ⟨e, rfl, rfl, rfl⟩) (hrecovers _))
  | @malformed _ recovered _ _ _ =>
    exact .inl (.degraded (Entry.degrades_ofError ⟨{ e with data := recovered }, rfl, rfl, rfl⟩)
      (hrecovers _))
  | @failed h data err hfind hv hh =>
    dsimp only
    split
    · rename_i hrecoverable
      by_cases habout : err.IsAbout e
      · exact .inl (.degraded (Entry.degrades_ofError habout) (hrecovers err))
      · exact .inr ⟨err, ⟨h, data, hfind, hv, hh⟩, hrecoverable, habout, hrecovers err⟩
    · exact .inl (.degraded (Entry.degrades_ofFailedHandler e err)
        (((r.recordError_logs err).trans (draw_logs 1 _)).trans (commitAll_logs _ _)))
  | @replied h data reply hfind hv hh =>
    exact .inl (.handled hfind hv hh (h.replies_replyEntries r.freshIds _ data reply)
      (drawn_commitAll_outputs _ _) ((r.draw_logs _).trans (commitAll_logs _ _)))

end Run

namespace Sample

def strayInput : Entry.Input :=
  { toHeader := Header.final ⟨7⟩ noteSetup.epoch
    type := "question", content := "", data := none, params := [], formatted := none }

def strayHandler : OutputHandler where
  type := "say"
  schema := none
  enabled := fun _ _ => true
  handle := fun _ _ => .error (.unknown (.input strayInput))
  format := fun _ => none

def strayRun : Run :=
  (Run.new { noteSetup with catalog := ⟨[], [strayHandler], []⟩ } Store.empty Archive.empty
    Subscribers.empty).apply .start

def sayOutput : Entry.Output :=
  { toHeader := Header.final ⟨8⟩ noteSetup.epoch
    type := "say", content := "hello", data := none, params := [], formatted := none }

end Sample

open Sample in
/-- The output is lost: an error is recorded, and the chain is as before. -/
theorem Run.outputAccount_fails :
    let r' := strayRun.route (.output sayOutput)
    r'.ledger.chain = strayRun.ledger.chain ∧
      r'.ledger.errors = strayRun.ledger.errors ++ ["input not found: question"] ∧
      ¬ OutputAccount strayRun sayOutput r' := by
  intro r'
  have hchain : r'.ledger.chain = strayRun.ledger.chain := by decide +kernel
  refine ⟨hchain, by decide +kernel, fun haccount => ?_⟩
  cases haccount with
  | handled hfind hv hh _ _ _ =>
    have hhandler : strayRun.ledger.outputs.find? (·.type == sayOutput.type) =
        some strayHandler := rfl
    obtain rfl := Option.some.inj (hhandler.symm.trans hfind)
    cases hh
  | degraded hes hl =>
    have hmore := hl.chain
    rw [hchain] at hmore
    cases hes
    simp at hmore

end TagLedger
