import Mathlib.Tactic.Common
import TagLedger.Call.Payload
import TagLedger.Proofs.Run.Growth

/-!
The verdict on a prepared call: what its templates and its schema make of the payload, as far as the
sources can tell. It is either not there yet, an error, or the data of the call, and once it is
there it stays.
-/

namespace TagLedger

namespace Sources

variable {s s' s'' : Sources}

theorem Grows.trans (h : s.Grows s') (h' : s'.Grows s'') : s.Grows s'' where
  slots := fun i => by
    have hrel := h.slots i
    have hrel' := h'.slots i
    generalize s.slots[i]? = x at hrel
    generalize s'.slots[i]? = y at hrel hrel'
    generalize s''.slots[i]? = z at hrel'
    cases hrel with
    | none =>
      cases hrel'
      exact .none
    | some hf =>
      cases hrel' with
      | some hf' => exact .some (hf.trans hf')
  contexts := h'.contexts.trans h.contexts
  memoryContext := h'.memoryContext.trans h.memoryContext
  external := h'.external.trans h.external

/-- The payload of a call of that name with its templates replaced, or why it cannot be; nothing as
long as a call that is asked about has not ended. -/
def complete (s : Sources) (name : String) (payload : Json) :
    List Template → Option (Except RunError Json)
  | [] => some (.ok payload)
  | t :: ts =>
    match t.request? with
    | none => some (.error t.noKey.toError)
    | some (key, path) =>
      match s.ask key path with
      | none => none
      | some .crashed =>
        some (.error (.failure .template ("resolver panicked while preparing " ++ name)))
      | some (.answer a) =>
        match t.fill payload a with
        | (_, some fault) => some (.error fault.toError)
        | (payload', none) => s.complete name payload' ts

def answer (s : Sources) (key path : String) : Template.Answer :=
  match s.ask key path with
  | some (.answer a) => a
  | _ => .ok none

variable {name : String} {payload data : Json} {todo rest : List Template} {template : Template}

theorem complete_grows (h : s.Grows s') {x : Except RunError Json}
    (hx : s.complete name payload todo = some x) : s'.complete name payload todo = some x := by
  induction todo generalizing payload with
  | nil => exact hx
  | cons t ts ih =>
    unfold complete at hx ⊢
    split at hx
    · exact hx
    · rename_i key path _
      split at hx
      · cases hx
      · rename_i hask
        rw [ask_grows h hask]
        exact hx
      · rename_i a hask
        rw [ask_grows h hask]
        dsimp only
        split at hx
        · exact hx
        · exact ih hx

/-- A template with an answer that fits is replaced, and the others follow. -/
theorem complete_cons {key path : String} {value payload' : Json}
    (hkey : template.request? = some (key, path))
    (hask : s.ask key path = some (.answer (.ok (some value))))
    (hfill : template.substitute payload value = (payload', none)) :
    s.complete name payload (template :: rest) = s.complete name payload' rest := by
  rw [complete, hkey]
  dsimp only
  rw [hask]
  dsimp only
  rw [Template.fill, hfill]

/-- A payload that is complete has got values for all its templates, and they stand in it. -/
theorem values_of_complete (h : s.complete name payload todo = some (.ok data)) :
    (∀ t ∈ todo, ∃ key path value, t.request? = some (key, path) ∧
      s.ask key path = some (.answer (.ok (some value)))) ∧
    (Template.resolve s.answer payload todo).fault = none ∧
    (Template.resolve s.answer payload todo).payload = data := by
  induction todo generalizing payload with
  | nil =>
    cases h
    exact ⟨by simp, rfl, rfl⟩
  | cons t ts ih =>
    unfold complete at h
    split at h
    · cases h
    · rename_i key path hkey
      split at h
      · cases h
      · cases h
      · rename_i a hask
        have hanswer : s.answer key path = a := by rw [answer, hask]
        split at h
        · cases h
        · rename_i payload' hfill
          obtain ⟨hvalues, hfault, hdata⟩ := ih h
          have hvalue : ∃ value, a = .ok (some value) := by
            unfold Template.fill at hfill
            split at hfill
            · exact ⟨_, rfl⟩
            · cases hfill
          obtain ⟨value, rfl⟩ := hvalue
          refine ⟨fun t' ht' => ?_, ?_, ?_⟩
          · rcases List.mem_cons.mp ht' with rfl | ht'
            · exact ⟨key, path, value, hkey, hask⟩
            · exact hvalues t' ht'
          · rw [Template.resolve_cons, hkey]
            dsimp only
            rw [hanswer, hfill]
            exact hfault
          · rw [Template.resolve_cons, hkey]
            dsimp only
            rw [hanswer, hfill]
            exact hdata

end Sources

namespace PreparedCall

/-- What becomes of a prepared call before its action runs: its data, or why it is rejected. Nothing
as long as a call that is asked about has not ended. -/
def verdict (p : PreparedCall) (call : Entry.Call) (s : Sources) : Option (Except RunError Json) :=
  (s.complete call.name p.payload p.templates).map fun x =>
    x.bind (validated p.action.action call)

variable {p : PreparedCall} {call : Entry.Call} {s s' : Sources}

theorem verdict_grows (h : s.Grows s') {x : Except RunError Json} (hx : p.verdict call s = some x) :
    p.verdict call s' = some x := by
  obtain ⟨y, hy, rfl⟩ := Option.map_eq_some_iff.mp hx
  rw [verdict, Sources.complete_grows h hy, Option.map_some]

/-- Data that a verdict gives has passed all there is to pass. -/
theorem passes_of_verdict {data : Json} (h : p.verdict call s = some (.ok data)) :
    (∀ t ∈ p.templates, ∃ key path value, t.request? = some (key, path) ∧
      s.ask key path = some (.answer (.ok (some value)))) ∧
    (Template.resolve s.answer p.payload p.templates).fault = none ∧
    validated p.action.action call (Template.resolve s.answer p.payload p.templates).payload =
      .ok data := by
  obtain ⟨x, hx, hbind⟩ := Option.map_eq_some_iff.mp h
  cases x with
  | error err => cases hbind
  | ok payload =>
    obtain ⟨hvalues, hfault, hpayload⟩ := Sources.values_of_complete hx
    exact ⟨hvalues, hfault, hpayload ▸ hbind⟩

end PreparedCall

namespace Run

/-- A task that is rejected has a verdict. -/
theorem Rejects.complete {t : CallTask} {s : Sources} {payload : Json} {todo : List Template}
    {err : RunError} (h : Rejects t s payload todo err) :
    ((s.complete t.call.name payload todo).map fun x =>
      x.bind (PreparedCall.validated t.action.action t.call)) = some (.error err) := by
  cases h with
  | noKey hkey =>
    rw [Sources.complete, hkey]
    rfl
  | crashed hkey hask =>
    rw [Sources.complete, hkey]
    dsimp only
    rw [hask]
    rfl
  | @unfilled template rest key path a fault hkey hask hfill =>
    rw [Sources.complete, hkey]
    dsimp only
    rw [hask]
    dsimp only
    cases h : template.fill payload a with
    | mk payload' f =>
      rw [h] at hfill
      obtain rfl : f = some fault := hfill
      rfl
  | invalid h =>
    rw [Sources.complete, Option.map_some]
    exact congrArg some h

end Run

end TagLedger
