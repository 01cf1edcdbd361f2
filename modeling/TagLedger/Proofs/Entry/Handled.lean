import Mathlib.Data.List.Forall2
import Mathlib.Tactic.Common
import TagLedger.Input.Handler
import TagLedger.Output.Handler
import TagLedger.Proofs.Entry.Alike

/-!
Handlers that see the data of an entry alone. What they make of an entry does not depend on its
identifier and time, nor on the working memory of the run.
-/

namespace TagLedger

variable {id : Uuid} {now : Timestamp} {context : ContextState} {memory memory' : WorkingMemory}

/-- What the handler answers depends on the data, and how it formats an entry on all but its
identifier and time. -/
structure InputHandler.OnData (h : InputHandler) : Prop where
  handle : ∀ data view view', h.handle data view = h.handle data view'
  format : ∀ (e : Entry.Input) id now, h.format { e with id, timestamp := now } = h.format e

def OutputHandler.OnData (h : OutputHandler) : Prop :=
  ∀ data view view', h.handle data view = h.handle data view'

/-- The archives fail alike for a context, however much was asked and kept before. -/
def Archive.QueriesAlike (context : String) (a a' : Archive) : Prop :=
  ∀ n n', a.queryFault n context = a'.queryFault n' context

namespace InputHandler

theorem contentValue_reissued (s : Schema) (e : Entry.Input) (id : Uuid) (now : Timestamp) :
    contentValue s { e with id, timestamp := now } =
      (contentValue s e).mapError (RunError.reissued id now) := by
  unfold contentValue
  split
  · rfl
  · dsimp only
    cases Json.parseFenced e.content.toList <;> rfl

theorem validated_reissued (h : InputHandler) (e : Entry.Input) (id : Uuid) (now : Timestamp) :
    h.validated { e with id, timestamp := now } =
      (h.validated e).mapError (RunError.reissued id now) := by
  simp only [validated, contentValue_reissued]
  cases contentValue (h.schema.getD .string) e with
  | error err => rfl
  | ok raw =>
    simp only [Except.mapError, bind, Except.bind]
    cases (h.schema.getD .string).validate raw <;> rfl

theorem respond_reissued {h : InputHandler} (hdata : h.OnData) (e : Entry.Input) (data : Json)
    (response : Option InputResponse) :
    h.respond { e with id, timestamp := now } data response =
      { h.respond e data response with id, timestamp := now } := by
  unfold respond
  cases response with
  | none => simp only [hdata.format { e with data := some data } id now]
  | some r =>
    simp only [hdata.format
      { e with data := some r.data, params := e.params.extend r.params } id now]

/-- The same inputs are accepted, whatever identifiers and times they have. -/
theorem outcome_reissued {handlers : List InputHandler} (hdata : ∀ h ∈ handlers, h.OnData)
    {archive archive' : Archive} (hqueries : Archive.QueriesAlike context.id archive archive')
    (e : Entry.Input) :
    (handleInput handlers context memory' archive'
        { e with id, timestamp := now }).outcome.toOption =
      (handleInput handlers context memory archive e).outcome.toOption.map fun o =>
        { o with id, timestamp := now } := by
  unfold handleInput
  dsimp only
  cases hfind : handlers.find? (·.type == e.type) with
  | none => rfl
  | some h =>
    have hon := hdata h (List.mem_of_find?_eq_some hfind)
    dsimp only
    rw [validated_reissued]
    cases h.validated e with
    | error err => rfl
    | ok data =>
      simp only [Except.mapError, Archive.query]
      rw [← hqueries archive.operations archive'.operations]
      cases archive.queryFault archive.operations context.id with
      | some err => rfl
      | none =>
        dsimp only
        obtain ⟨answer, hanswer⟩ : ∃ answer, ∀ view, h.handle data view = answer :=
          ⟨h.handle data ⟨context, memory⟩, fun view => hon.handle data view _⟩
        rw [hanswer, hanswer]
        cases answer with
        | error err => rfl
        | ok response => exact congrArg some (respond_reissued hon e data response)

end InputHandler

namespace OutputHandler

def Reissue (o o' : Entry.Output) : Prop := ∃ id now, o' = { o with id, timestamp := now }

inductive HandledAlike : Except RunError (List Entry.Output) →
    Except RunError (List Entry.Output) → Prop where
  | ok {os os' : List Entry.Output} (h : List.Forall₂ Reissue os os') :
    HandledAlike (.ok os) (.ok os')
  | error {err : RunError} {id : Uuid} {now : Timestamp}
    (hcall : ∀ c, err.entry? = some (.call c) → c.id = id) :
    HandledAlike (.error err) (.error (err.reissued id now))

theorem HandledAlike.same (err : RunError) : HandledAlike (.error err) (.error err) := by
  obtain ⟨id, now, hself, hid⟩ := err.exists_reissued_eq
  have h : HandledAlike (.error err) (.error (err.reissued id now)) := .error fun c hc => hid _ hc
  rwa [hself] at h

theorem replyEntries_reissued (h : OutputHandler) (ids ids' : Nat → Uuid) (e : Entry.Output)
    (data : Json) (reply : OutputReply) :
    List.Forall₂ Reissue (h.replyEntries ids e data reply)
      (h.replyEntries ids' { e with id, timestamp := now } data reply) := by
  cases reply with
  | unchanged => exact .cons ⟨id, now, rfl⟩ .nil
  | single r => exact .cons ⟨id, now, rfl⟩ .nil
  | fanOut rs =>
    simp only [replyEntries]
    rw [List.forall₂_map_left_iff, List.forall₂_map_right_iff]
    exact List.forall₂_same.mpr fun r _ => ⟨ids' r.2, now, rfl⟩

/-- Outputs are handled alike, whatever identifiers and times they have. -/
theorem handleOutput_reissued {handlers : List OutputHandler} (hdata : ∀ h ∈ handlers, h.OnData)
    (tags : List String) (ids ids' : Nat → Uuid) (e : Entry.Output) :
    HandledAlike (handleOutput handlers tags ids context memory e)
      (handleOutput handlers tags ids' context memory' { e with id, timestamp := now }) := by
  unfold handleOutput
  dsimp only
  cases hfind : handlers.find? (·.type == e.type) with
  | none => exact .error fun c hc => by cases hc
  | some h =>
    have hon := hdata h (List.mem_of_find?_eq_some hfind)
    -- What follows once the data is there.
    have hanswer (data : Json) (view view' : OutputView) : HandledAlike
        (do let reply ← h.handle data view
            return h.replyEntries ids { e with data := some data } data reply)
        (do let reply ← h.handle data view'
            return h.replyEntries ids' { e with id, timestamp := now, data := some data } data
              reply) := by
      rw [hon data view' view]
      cases h.handle data view with
      | error err => exact .same err
      | ok reply =>
        exact .ok (replyEntries_reissued h ids ids' { e with data := some data } data reply)
    simp only [validated]
    cases h.schema with
    | none => exact hanswer _ _ _
    | some s =>
      dsimp only
      cases s.validate (OutputContent.recover s tags e.content) with
      | error f => exact .error fun c hc => by cases hc
      | ok data => exact hanswer _ _ _

end OutputHandler

end TagLedger
