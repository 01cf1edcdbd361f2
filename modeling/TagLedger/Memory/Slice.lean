import TagLedger.Json.Basic

/-!
What an action works on besides its payload: its own memory and the context that it takes place in.
-/

namespace TagLedger

/-- The memory of one action. A slice without a key is not kept anywhere. -/
structure Slice where
  key : Option String
  value : Json
deriving DecidableEq, Repr

namespace Slice

def keyed (key : String) (value : Json) : Slice := ⟨some key, value⟩

def detached : Slice := ⟨none, .null⟩

def set (s : Slice) (value : Json) : Slice := { s with value }

end Slice

/-- An array with one more item; any other value is replaced by the item. -/
def Json.appended : Json → Json → Json
  | .arr xs, v => .arr (xs ++ [v])
  | _, v => v

/-- Where a run takes place, or what it may look into: a context has a type and a memory of its
own. -/
structure ContextState where
  id : String
  type : String
  memory : Json
deriving DecidableEq, Repr

def ContextState.toJson (c : ContextState) : Json :=
  .obj [("id", .str c.id), ("type", .str c.type), ("memory", c.memory)]

end TagLedger
