import TagLedger.Action.Basic
import TagLedger.Input.Handler
import TagLedger.Output.Handler
import TagLedger.Text.Printable

/-!
The catalog of a run: its actions, outputs and inputs in the order of registration, each under a
name of its own.
-/

namespace TagLedger

structure Catalog where
  actions : List Action
  outputs : List OutputHandler
  inputs : List InputHandler

namespace Catalog

def empty : Catalog := ⟨[], [], []⟩

/-- What is wrong with a catalog. -/
inductive Fault where
  | duplicateAction (name : String)
  | duplicateOutput (type : String)
  | duplicateInput (type : String)
  | badName (name : String)
  | sharedMemory (key owner other : String)
deriving DecidableEq, Repr

def Fault.message : Fault → String
  | .duplicateAction n => "duplicate action: " ++ n
  | .duplicateOutput t => "duplicate output: " ++ t
  | .duplicateInput t => "duplicate input: " ++ t
  | .badName n => "invalid handler name: " ++ String.ofList (Text.quoted n.toList)
  | .sharedMemory k a b => "memory key " ++ k ++ " is shared by " ++ a ++ " and " ++ b

def Fault.toError (f : Fault) : RunError := .failure .registry f.message

def addAction (c : Catalog) (a : Action) : Except Fault Catalog :=
  if c.actions.any (·.name == a.name) then .error (.duplicateAction a.name)
  else .ok { c with actions := c.actions ++ [a] }

def addOutput (c : Catalog) (h : OutputHandler) : Except Fault Catalog :=
  if c.outputs.any (·.type == h.type) then .error (.duplicateOutput h.type)
  else .ok { c with outputs := c.outputs ++ [h] }

def addInput (c : Catalog) (h : InputHandler) : Except Fault Catalog :=
  if c.inputs.any (·.type == h.type) then .error (.duplicateInput h.type)
  else .ok { c with inputs := c.inputs ++ [h] }

/-- A catalog of the given handlers, registered in order. -/
def ofLists (actions : List Action) (outputs : List OutputHandler) (inputs : List InputHandler) :
    Except Fault Catalog := do
  let c ← actions.foldlM addAction empty
  let c ← outputs.foldlM addOutput c
  inputs.foldlM addInput c

def action? (c : Catalog) (name : String) : Option Action := c.actions.find? (·.name == name)

def output? (c : Catalog) (type : String) : Option OutputHandler :=
  c.outputs.find? (·.type == type)

def input? (c : Catalog) (type : String) : Option InputHandler := c.inputs.find? (·.type == type)

/-- All names, those of actions first. -/
def names (c : Catalog) : List String :=
  c.actions.map (·.name) ++ c.outputs.map (·.type) ++ c.inputs.map (·.type)

/-- A name has at least one character and no blanks. -/
def isGoodName (n : String) : Bool := !n.isEmpty && !n.toList.any Text.isBlank

/-- Looks for a memory key with two owners; the owners found so far are known. -/
def checkOwners : (owners : List (String × String)) → List Action → Except Fault Unit
  | _, [] => .ok ()
  | owners, a :: as =>
    match a.memory with
    | none => checkOwners owners as
    | some m =>
      match owners.lookup m.key with
      | some owner => .error (.sharedMemory m.key owner a.name)
      | none => checkOwners ((m.key, a.name) :: owners) as

/-- Checks the names and that every memory key has one owner. -/
def validate (c : Catalog) : Except Fault Unit :=
  match c.names.find? fun n => !isGoodName n with
  | some n => .error (.badName n)
  | none => checkOwners [] c.actions

end Catalog

end TagLedger
