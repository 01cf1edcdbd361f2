import TagLedger.Error
import TagLedger.Memory.Retention

/-!
Stored values by key, and the snapshots of working memory among them. A store may fail: the number
of an operation and its key tell whether it does. An operation that fails changes no value. Memory
is trimmed before it is written.
-/

namespace TagLedger

/-- The error, if any, of the operation with that number on that key. -/
abbrev FaultPlan := Nat → String → Option RunError

def FaultPlan.none : FaultPlan := fun _ _ => Option.none

structure Store where
  cells : Json.Members
  operations : Nat
  readFault : FaultPlan
  writeFault : FaultPlan

namespace Store

/-- A store that never fails. -/
def ofCells (cells : Json.Members) : Store := ⟨cells, 0, FaultPlan.none, FaultPlan.none⟩

def empty : Store := ofCells []

/-- The value under a key, without an operation. -/
def value? (s : Store) (key : String) : Option Json := s.cells.get? key

def counted (s : Store) : Store := { s with operations := s.operations + 1 }

def read (s : Store) (key : String) : Except RunError (Option Json) × Store :=
  match s.readFault s.operations key with
  | some e => (.error e, s.counted)
  | none => (.ok (s.value? key), s.counted)

/-- Writes a value; the error, if it failed, and the store after it. -/
def write (s : Store) (key : String) (value : Json) : Option RunError × Store :=
  match s.writeFault s.operations key with
  | some e => (some e, s.counted)
  | none => (none, { s.counted with cells := s.cells.insert key value })

def erase (s : Store) (key : String) : Store :=
  { s with cells := s.cells.filter fun c => c.1 != key }

/-- The keys in the order of their characters. -/
def keys (s : Store) : List String := (s.cells.map (·.1)).mergeSort fun a b => decide (a ≤ b)

end Store

namespace WorkingMemory

/-- A written memory, and what went wrong with the writing. -/
structure Saved where
  memory : WorkingMemory
  store : Store
  fault : Option RunError

def save (r : Retention) (key : String) (m : WorkingMemory) (s : Store) : Saved :=
  let kept := r.trim m
  let written := s.write key kept.toJson
  ⟨kept, written.2, written.1⟩

/-- Reads the memory under a key; empty if there is none. -/
def load (key : String) (s : Store) : Except RunError WorkingMemory × Store :=
  match s.read key with
  | (.error e, s') => (.error e, s')
  | (.ok none, s') => (.ok empty, s')
  | (.ok (some j), s') =>
    match decode j with
    | .ok m => (.ok m, s')
    | .error e => (.error (.failure .serialization e.message), s')

end WorkingMemory

end TagLedger
