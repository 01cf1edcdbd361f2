import Mathlib.Tactic.Common
import TagLedger.Entry.Degraded
import TagLedger.Input.Handler
import TagLedger.Output.Handler

/-!
How the handling of an input or an output ends. Each step on the way may be the last: the search for
a handler, the check of the content, the recall of episodes for an input, and the handler itself.
Whatever entries come out of it are final if the entry was.
-/

namespace TagLedger

variable {context : ContextState} {memory : WorkingMemory} {archive : Archive}

namespace InputHandler

variable {handlers : List InputHandler} {e : Entry.Input}

theorem malformed_of_validated {h : InputHandler} {err : RunError}
    (hv : h.validated e = .error err) : ∃ text, err = .malformed (.input e) text := by
  unfold validated contentValue at hv
  simp only [bind, Except.bind] at hv
  split at hv
  · rename_i hraw
    split at hraw
    · cases hraw
    · split at hraw
      · cases hraw
      · cases hraw
        cases hv
        exact ⟨_, rfl⟩
  · split at hv
    · cases hv
    · cases hv
      exact ⟨_, rfl⟩

inductive Outcome (handlers : List InputHandler) (context : ContextState) (memory : WorkingMemory)
    (archive : Archive) (e : Entry.Input) : Handled → Prop where
  /-- No handler is registered for its type. -/
  | unknown (hfind : handlers.find? (·.type == e.type) = none) :
    Outcome handlers context memory archive e ⟨.error (.unknown (.input e)), memory, archive⟩
  | malformed {h : InputHandler} {text : String}
    (hfind : handlers.find? (·.type == e.type) = some h)
    (hv : h.validated e = .error (.malformed (.input e) text)) :
    Outcome handlers context memory archive e
      ⟨.error (.malformed (.input e) text), memory, archive⟩
  /-- The archive gives no episodes. -/
  | unanswered {h : InputHandler} {data : Json} {err : RunError} {asked : Archive}
    (hfind : handlers.find? (·.type == e.type) = some h) (hv : h.validated e = .ok data)
    (hquery : archive.query context.id data.toText = (.error err, asked)) :
    Outcome handlers context memory archive e ⟨.error err, memory, asked⟩
  /-- The handler runs, with the episodes in working memory, and accepts or fails. -/
  | recalled {h : InputHandler} {data : Json} {episodes : List Json} {asked : Archive}
    (hfind : handlers.find? (·.type == e.type) = some h) (hv : h.validated e = .ok data)
    (hquery : archive.query context.id data.toText = (.ok episodes, asked)) :
    Outcome handlers context memory archive e
      ⟨(h.handle data ⟨context, { memory with episodes := some episodes }⟩).map (h.respond e data),
        { memory with episodes := some episodes }, asked⟩

theorem handleInput_outcome (handlers : List InputHandler) (context : ContextState)
    (memory : WorkingMemory) (archive : Archive) (e : Entry.Input) :
    Outcome handlers context memory archive e (handleInput handlers context memory archive e) := by
  unfold handleInput
  cases hfind : handlers.find? (·.type == e.type) with
  | none => exact .unknown hfind
  | some h =>
    dsimp only
    cases hv : h.validated e with
    | error err =>
      obtain ⟨text, rfl⟩ := malformed_of_validated hv
      exact .malformed hfind hv
    | ok data =>
      dsimp only
      split
      · rename_i hquery
        exact .unanswered hfind hv hquery
      · rename_i hquery
        exact .recalled hfind hv hquery

@[simp] theorem header_respond (h : InputHandler) (e : Entry.Input) (data : Json)
    (response : Option InputResponse) :
    (h.respond e data response).toHeader = { e.toHeader with processed := true } := by
  cases response <;> rfl

/-- An input that is accepted is final if the entry was. -/
theorem done_of_outcome {o : Entry.Input} (he : e.done = true)
    (ho : (handleInput handlers context memory archive e).outcome = .ok o) : o.done = true := by
  have hend := handleInput_outcome handlers context memory archive e
  generalize handleInput handlers context memory archive e = handled at hend ho
  cases hend with
  | unknown _ => cases ho
  | malformed _ _ => cases ho
  | unanswered _ _ _ => cases ho
  | @recalled h data episodes _ _ _ _ =>
    dsimp only at ho
    cases hh : h.handle data ⟨context, { memory with episodes := some episodes }⟩ with
    | error err =>
      rw [hh] at ho
      cases ho
    | ok response =>
      rw [hh] at ho
      cases ho
      simp [he]

end InputHandler

namespace OutputHandler

variable {handlers : List OutputHandler} {tags : List String} {ids : Nat → Uuid}
  {e : Entry.Output}

inductive Outcome (handlers : List OutputHandler) (tags : List String) (ids : Nat → Uuid)
    (context : ContextState) (memory : WorkingMemory) (e : Entry.Output) :
    Except RunError (List Entry.Output) → Prop where
  /-- No handler is registered for its type. -/
  | unknown (hfind : handlers.find? (·.type == e.type) = none) :
    Outcome handlers tags ids context memory e (.error (.unknown (.output e)))
  | malformed {h : OutputHandler} {recovered : Json} {text : String}
    (hfind : handlers.find? (·.type == e.type) = some h)
    (hv : h.validated tags e =
      .error (.malformed (.output { e with data := some recovered }) text)) :
    Outcome handlers tags ids context memory e
      (.error (.malformed (.output { e with data := some recovered }) text))
  | failed {h : OutputHandler} {data : Json} {err : RunError}
    (hfind : handlers.find? (·.type == e.type) = some h) (hv : h.validated tags e = .ok data)
    (hh : h.handle data ⟨context, memory, { e with data := some data }⟩ = .error err) :
    Outcome handlers tags ids context memory e (.error err)
  | replied {h : OutputHandler} {data : Json} {reply : OutputReply}
    (hfind : handlers.find? (·.type == e.type) = some h) (hv : h.validated tags e = .ok data)
    (hh : h.handle data ⟨context, memory, { e with data := some data }⟩ = .ok reply) :
    Outcome handlers tags ids context memory e
      (.ok (h.replyEntries ids { e with data := some data } data reply))

theorem malformed_of_validated {h : OutputHandler} {err : RunError}
    (hv : h.validated tags e = .error err) :
    ∃ recovered text, err = .malformed (.output { e with data := some recovered }) text := by
  unfold validated at hv
  cases hs : h.schema with
  | none =>
    rw [hs] at hv
    cases hv
  | some s =>
    rw [hs] at hv
    dsimp only at hv
    split at hv
    · cases hv
    · cases hv
      exact ⟨_, _, rfl⟩

theorem handleOutput_outcome (handlers : List OutputHandler) (tags : List String)
    (ids : Nat → Uuid) (context : ContextState) (memory : WorkingMemory) (e : Entry.Output) :
    Outcome handlers tags ids context memory e
      (handleOutput handlers tags ids context memory e) := by
  unfold handleOutput
  cases hfind : handlers.find? (·.type == e.type) with
  | none => exact .unknown hfind
  | some h =>
    dsimp only [bind, Except.bind]
    cases hv : h.validated tags e with
    | error err =>
      obtain ⟨recovered, text, rfl⟩ := malformed_of_validated hv
      exact .malformed hfind hv
    | ok data =>
      dsimp only
      cases hh : h.handle data ⟨context, memory, { e with data := some data }⟩ with
      | error err => exact .failed hfind hv hh
      | ok reply => exact .replied hfind hv hh

theorem done_of_mem_replyEntries {h : OutputHandler} {data : Json} {reply : OutputReply}
    {o : Entry.Output} (he : e.done = true) (ho : o ∈ h.replyEntries ids e data reply) :
    o.done = true := by
  cases reply with
  | unchanged =>
    obtain rfl := List.mem_singleton.mp ho
    exact he
  | single response =>
    obtain rfl := List.mem_singleton.mp ho
    exact he
  | fanOut responses =>
    obtain ⟨_, _, rfl⟩ := List.mem_map.mp ho
    exact he

/-- The entries of an output that is handled are final if the output was. -/
theorem done_of_mem_handleOutput {es : List Entry.Output} {o : Entry.Output} (he : e.done = true)
    (hes : handleOutput handlers tags ids context memory e = .ok es) (ho : o ∈ es) :
    o.done = true := by
  have hend := handleOutput_outcome handlers tags ids context memory e
  rw [hes] at hend
  cases hend with
  | @replied h data reply _ _ _ => exact done_of_mem_replyEntries (e := { e with data }) he ho

end OutputHandler

namespace Entry

variable {id : Uuid} {now : Timestamp}

theorem isDone_of_mem_degradedOutput {o : Output} {reason event : String} {data : Json} {e : Entry}
    (h : e ∈ degradedOutput id now o reason event data) : e.isDone = true := by
  rcases List.mem_cons.mp h with rfl | h
  · rfl
  · obtain rfl := List.mem_singleton.mp h
    rfl

/-- What stands in for an entry is final. -/
theorem isDone_of_mem_ofError {err : RunError} {e : Entry} (h : e ∈ ofError id now err) :
    e.isDone = true := by
  unfold ofError at h
  split at h
  · exact isDone_of_mem_degradedOutput h
  · obtain rfl := List.mem_singleton.mp h
    rfl
  · exact isDone_of_mem_degradedOutput h
  · obtain rfl := List.mem_singleton.mp h
    rfl
  · cases h

end Entry

end TagLedger
