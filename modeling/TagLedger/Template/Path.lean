import TagLedger.Json.Basic
import TagLedger.Text.Basic

/-!
Paths into JSON values. A typed path is a list of steps, each a key of an object or an index of an
array. A dotted path such as `a.b[0]` is cut at points and brackets; which of its segments are
indices depends on the value it is followed in.
-/

namespace TagLedger

inductive PathStep where
  | key (name : String)
  | index (position : Nat)
deriving DecidableEq, Repr

abbrev Path := List PathStep

namespace PathStep

def toString : PathStep → String
  | .key k => k
  | .index i => ToString.toString i

/-- The empty container that has such steps. -/
def emptyContainer : PathStep → Json
  | .key _ => .obj []
  | .index _ => .arr []

end PathStep

namespace Path

/-- The steps with points between them. -/
def dotted (p : Path) : String := ".".intercalate (p.map PathStep.toString)

def isSeparator (c : Char) : Bool := c == '.' || c == '[' || c == ']'

/-- The segments of a dotted path. -/
def segments (s : String) : List String :=
  ((Text.splitBy isSeparator s.toList).filter fun t => !t.isEmpty).map String.ofList

/-- Largest index. -/
def maxIndex : Nat := Nat.pow 2 64 - 1

/-- The index that a segment writes. -/
def index? (segment : String) : Option Nat :=
  (Text.decimal? segment.toList).bind fun n => if n ≤ maxIndex then some n else none

end Path

namespace Json

/-- One step down. -/
def child? : Json → PathStep → Option Json
  | .obj ms, .key k => Members.get? ms k
  | .arr xs, .index i => xs[i]?
  | _, _ => none

/-- The value at a typed path. -/
def at? : Json → Path → Option Json
  | j, [] => some j
  | j, s :: p => (j.child? s).bind fun c => c.at? p

/-- The step that a segment is in a given value. -/
def stepFor? : Json → String → Option PathStep
  | .obj _, s => some (.key s)
  | .arr _, s => (Path.index? s).map .index
  | _, _ => none

/-- The value reached by segments. -/
def follow? : Json → List String → Option Json
  | j, [] => some j
  | j, s :: ss => ((j.stepFor? s).bind j.child?).bind fun c => c.follow? ss

/-- The value at a dotted path. -/
def lookup? (j : Json) (path : String) : Option Json := j.follow? (Path.segments path)

/-- Replaces the item at a position; a list that is too short is filled up with nulls. -/
def setItem (xs : List Json) (i : Nat) (v : Json) : List Json :=
  (xs ++ List.replicate (i + 1 - xs.length) Json.null).set i v

/-- Replaces a child, which need not exist yet; none if the value has no such children. -/
def setChild? : Json → PathStep → Json → Option Json
  | .obj ms, .key k, v => some (.obj (Members.insert ms k v))
  | .arr xs, .index i, v => some (.arr (setItem xs i v))
  | _, _, _ => none

/-- Whether the value can have children under such a step. -/
def accepts : Json → PathStep → Bool
  | .obj _, .key _ => true
  | .arr _, .index _ => true
  | _, _ => false

/-- What is written at a path, and the path along which the write failed, if it did. -/
structure Write where
  target : Json
  blocked : Bool

/-- A missing or null child becomes the container that the next step needs. -/
def prepared (child : Option Json) : Path → Json
  | [] => child.getD .null
  | next :: _ => if child.getD .null = .null then next.emptyContainer else child.getD .null

/-- Writes a value at a path. -/
def write (value : Json) : Json → Path → Write
  | _, [] => ⟨value, false⟩
  | j, s :: p =>
    if j.accepts s then
      let below := write value (prepared (j.child? s) p) p
      ⟨(j.setChild? s below.target).getD j, below.blocked⟩
    else ⟨j, true⟩

end Json

end TagLedger
