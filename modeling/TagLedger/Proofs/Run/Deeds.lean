import Mathlib.Logic.Relation
import Mathlib.Tactic.Common
import TagLedger.Run.Move

/-!
The deeds of the dispatcher. Routing an output or a call, taking the end of a call, and opening a
run or a step come down to a few kinds of changes; a relation that holds for each of them, and for
one after another, holds for all of these.
-/

namespace TagLedger.Run

inductive Deed : Run → Run → Prop where
  | draws (count : Nat) (r : Run) : Deed r (r.draw count)
  | records (err : RunError) (r : Run) : Deed r (r.recordError err)
  | commits (e : Entry) (r : Run) : Deed r (r.commit e)
  | opensSlot (c : Entry.Call) (r : Run) : Deed r (r.openSlot c)
  | spawns (c : Entry.Call) (p : PreparedCall) (slot : Nat) (r : Run) : Deed r (r.spawn c p slot)
  | resolves (id : Uuid) (state : CallState) (r : Run) : Deed r (r.resolveSlot id state)
  | counts (r : Run) : Deed r { r with ledger := { r.ledger with step := r.ledger.step + 1 } }
  | names (id : Uuid) (r : Run) : Deed r { r with ledger := { r.ledger with runId := id } }

abbrev Deeds : Run → Run → Prop := Relation.ReflTransGen Deed

namespace Deeds

variable {r r' r'' : Run}

theorem one (h : Deed r r') : Deeds r r' := .single h

/-- What each deed keeps, all keep. -/
theorem keep {P : Run → Run → Prop} (hrefl : ∀ r, P r r)
    (htrans : ∀ r r' r'', P r r' → P r' r'' → P r r'') (hone : ∀ r r', Deed r r' → P r r')
    (h : Deeds r r') : P r r' := by
  induction h with
  | refl => exact hrefl r
  | tail _ hlast ih => exact htrans _ _ _ ih (hone _ _ hlast)

theorem commitAll (es : List Entry) (r : Run) : Deeds r (r.commitAll es) := by
  induction es generalizing r with
  | nil => exact .refl
  | cons e es ih => exact (one (.commits e r)).trans (ih (r.commit e))

theorem commitSubstitutes (err : RunError) (r : Run) : Deeds r (r.commitSubstitutes err) :=
  (one (.draws 1 r)).trans (commitAll _ _)

theorem routeOutput (e : Entry.Output) (r : Run) : Deeds r (r.routeOutput e) := by
  unfold Run.routeOutput
  split
  · exact (one (.draws _ r)).trans (commitAll _ _)
  · rename_i err _
    have herror := one (.records err r)
    dsimp only
    split
    · exact herror.trans (commitSubstitutes err _)
    · exact herror.trans ((one (.draws 1 _)).trans (commitAll _ _))

theorem dispatch (c : Entry.Call) (r : Run) : Deeds r (r.dispatch c) := by
  unfold Run.dispatch
  split
  · rename_i err _
    have hrefused := (one (.records err r)).trans (one (.commits (.call c) _))
    exact hrefused.trans (commitSubstitutes err _)
  · rename_i p _
    have hadmitted := (one (.opensSlot c r)).trans (one (.commits (.call c) _))
    exact hadmitted.trans (one (.spawns c p r.ledger.slots.length _))

/-- Routing anything but an input. -/
theorem route {e : Entry} (h : e.kind ≠ .input) (r : Run) : Deeds r (r.route e) := by
  cases e with
  | input e => exact absurd rfl h
  | output e => exact routeOutput e r
  | call c => exact dispatch c r
  | _ => exact one (.commits _ r)

theorem failed (id : Uuid) (err : RunError) (r : Run) : Deeds r (receive (.failed id err) r) := by
  have hrecorded := (one (.resolves id (.failed err.message) r)).trans (one (.records err _))
  exact hrecorded.trans (commitSubstitutes err _)

theorem completed (res : Entry.Result) (r : Run) : Deeds r (receive (.completed res) r) :=
  (one (.resolves res.callId (.completed res) r)).trans (one (.commits (.result res) _))

theorem openRun (r : Run) : Deeds r r.openRun := by
  have hnamed := (one (.names r.nextId r)).trans (one (.draws 1 _))
  exact hnamed.trans (one (.commits _ _))

theorem nextStep (r : Run) : Deeds r r.nextStep := by
  have hcounted := (one (.counts r)).trans (one (.draws 1 _))
  exact hcounted.trans (one (.commits _ _))

end Deeds

/-- What the handlers make of an input. -/
def handled (e : Entry.Input) (r : Run) : InputHandler.Handled :=
  InputHandler.handleInput r.setup.catalog.inputs r.setup.context r.ledger.memory r.ledger.archive e

/-- A run after the archive was asked about an input, with the episodes that came of it. -/
def recalled (e : Entry.Input) (r : Run) : Run :=
  { r with
    ledger := { r.ledger with
      memory := (r.handled e).memory
      archive := (r.handled e).archive } }

theorem routeInput_of_ok {e o : Entry.Input} {r : Run} (h : (r.handled e).outcome = .ok o) :
    r.routeInput e = (r.recalled e).commit (.input o) := by
  have hhandled : (InputHandler.handleInput r.setup.catalog.inputs r.setup.context
      r.ledger.memory r.ledger.archive e).outcome = .ok o := h
  simp only [routeInput, hhandled]
  rfl

theorem routeInput_of_error {e : Entry.Input} {err : RunError} {r : Run}
    (h : (r.handled e).outcome = .error err) :
    r.routeInput e =
      if err.isRecoverable then r.recalled e else (r.recalled e).recordError err := by
  have hhandled : (InputHandler.handleInput r.setup.catalog.inputs r.setup.context
      r.ledger.memory r.ledger.archive e).outcome = .error err := h
  simp only [routeInput, hhandled]
  rfl

/-- Routing an input: the recall, and then one deed or none. -/
theorem routeInput_deeds (e : Entry.Input) (r : Run) : Deeds (r.recalled e) (r.routeInput e) := by
  cases h : (r.handled e).outcome with
  | ok o =>
    rw [routeInput_of_ok h]
    exact .one (.commits _ _)
  | error err =>
    rw [routeInput_of_error h]
    split
    · exact .refl
    · exact .one (.records err _)

end TagLedger.Run
