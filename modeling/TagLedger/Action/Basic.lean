import TagLedger.Action.Script
import TagLedger.Error
import TagLedger.Memory.Slice
import TagLedger.Memory.Working
import TagLedger.Schema.Basic

/-!
Actions and their binding to contexts. An action that asks for a type of context is bound to the
first context of that type, any other to the context of the run; actions that find no context or are
not enabled there are left out.
-/

namespace TagLedger

/-- The memory that an action keeps from call to call, and its value before the first. -/
structure ActionMemory where
  key : String
  initial : Json
deriving DecidableEq, Repr

/-- What an action can look at while it runs. -/
structure CallView where
  context : ContextState
  call : Entry.Call
  /-- Working memory as it was when the call was dispatched. -/
  memory : WorkingMemory
  memoryKey : Option String

structure Action where
  name : String
  schema : Option Schema
  /-- How often a failed execution is repeated, if the action says so. -/
  retry : Option Nat
  memory : Option ActionMemory
  contextType : Option String
  enabled : ContextState → WorkingMemory → Bool
  /-- An execution: how many there were of the action before, which attempt of its call it is, the
  data and the view of the call. -/
  execute : (executions attempt : Nat) → Json → CallView → Script (Except RunError Json)
  /-- Makes up for an error, or fails in turn. -/
  onError : RunError → CallView → Script (Except RunError Json)
  format : Entry.Result → Option String
  onSuccess : Entry.Result → CallView → Script (Except RunError Unit)

/-- An action and the identifier of the context it may be called in. -/
structure BoundAction where
  action : Action
  contextId : String

namespace BoundAction

def name (b : BoundAction) : String := b.action.name

end BoundAction

namespace Action

/-- The context that an action is bound to. -/
def target? (a : Action) (context : ContextState) (subContexts : List ContextState) :
    Option ContextState :=
  match a.contextType with
  | none => some context
  | some t => (context :: subContexts).find? (·.type == t)

def bind? (context : ContextState) (subContexts : List ContextState) (memory : WorkingMemory)
    (a : Action) : Option BoundAction :=
  (a.target? context subContexts).bind fun c =>
    if a.enabled c memory then some ⟨a, c.id⟩ else none

/-- Binds every action that can be bound. -/
def prepare (actions : List Action) (context : ContextState) (subContexts : List ContextState)
    (memory : WorkingMemory) : List BoundAction :=
  actions.filterMap (bind? context subContexts memory)

end Action

end TagLedger
