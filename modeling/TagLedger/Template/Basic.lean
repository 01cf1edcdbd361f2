import TagLedger.Error
import TagLedger.Json.Printer
import TagLedger.Template.Path
import TagLedger.Text.Blank

/-!
Templates in payloads. A string that is exactly `{{expr}}`, without a line feed in the
expression, stands for a value. The leading identifier of the expression says where the value comes
from, the rest is a path in that source. Templates are found depth first in document order and
replaced in that order; the first that cannot be replaced fails the payload.
-/

namespace TagLedger

/-- A template and where it stands. -/
structure Template where
  path : Path
  text : String
  expression : Text
  primaryKey : Option Text
deriving DecidableEq, Repr

namespace Template

def isIdentifierStart (c : Char) : Bool := c.isAlpha || c == '_'

def isIdentifierRest (c : Char) : Bool := c.isAlphanum || c == '_'

/-- The text between double braces. -/
def inside? (s : String) : Option Text :=
  match s.toList with
  | '\x7b' :: '\x7b' :: rest =>
    match rest.reverse with
    | '\x7d' :: '\x7d' :: inner => if inner.contains '\n' then none else some inner.reverse
    | _ => none
  | _ => none

/-- The identifier that a text begins with. -/
def leadingIdentifier? : Text → Option Text
  | [] => none
  | c :: t => if isIdentifierStart c then some (c :: t.takeWhile isIdentifierRest) else none

/-- The template that a string at a path is, if it is one. -/
def ofString? (path : Path) (s : String) : Option Template :=
  (inside? s).map fun t =>
    let expression := Text.trim t
    ⟨path, s, expression, leadingIdentifier? expression⟩

/-- The expression without its identifier and one point after it. -/
def valuePath? (t : Template) : Option Text :=
  t.primaryKey.map fun k =>
    match t.expression.drop k.length with
    | '.' :: rest => rest
    | rest => rest

mutual

/-- The templates below a path. -/
def detectAt (path : Path) : Json → List Template
  | .str s => (ofString? path s).toList
  | .arr xs => detectItems path 0 xs
  | .obj ms => detectMembers path ms
  | .null => []
  | .bool _ => []
  | .num _ => []

def detectItems (path : Path) (i : Nat) : List Json → List Template
  | [] => []
  | x :: xs => detectAt (path ++ [.index i]) x ++ detectItems path (i + 1) xs

def detectMembers (path : Path) : Json.Members → List Template
  | [] => []
  | (k, v) :: ms => detectAt (path ++ [.key k]) v ++ detectMembers path ms

end

/-- The templates of a payload in document order. -/
def detect (payload : Json) : List Template := detectAt [] payload

/-- Why a payload could not be completed. -/
inductive Fault where
  | noPrimaryKey (template location : String)
  | unresolved (template location : String)
  | blocked (path : Path)
deriving DecidableEq, Repr

def Fault.message : Fault → String
  | .noPrimaryKey t l => "template " ++ t ++ " at " ++ l ++ " has no primary key"
  | .unresolved t l => "could not resolve template " ++ t ++ " at " ++ l
  | .blocked p => "cannot set " ++ Path.dotted p ++ " beyond a non-container value"

def Fault.toError (f : Fault) : RunError := .failure .template f.message

/-- What a template asks for: the identifier and the path. -/
def request? (t : Template) : Option (String × String) :=
  match t.primaryKey, t.valuePath? with
  | some k, some p => some (String.ofList k, String.ofList p)
  | _, _ => none

/-- The fault of a template without an identifier. -/
def noKey (t : Template) : Fault := .noPrimaryKey t.text (Path.dotted t.path)

/-- Puts a value in the place of a template. -/
def substitute (t : Template) (payload value : Json) : Json × Option Fault :=
  let w := Json.write value payload t.path
  (w.target, if w.blocked then some (.blocked t.path) else none)

/-- What a source says about a key and a path: a value, nothing, or an error. -/
abbrev Answer := Except RunError (Option Json)

/-- Puts an answer in the place of a template. An error counts as no value. -/
def fill (t : Template) (payload : Json) : Answer → Json × Option Fault
  | .ok (some value) => t.substitute payload value
  | _ => (payload, some (.unresolved t.text (Path.dotted t.path)))

/-- An answer that is no value leaves the payload as it is. -/
theorem fill_of_lacks (t : Template) (payload : Json) {a : Answer}
    (ha : ∀ v, a ≠ .ok (some v)) :
    t.fill payload a = (payload, some (.unresolved t.text (Path.dotted t.path))) := by
  unfold fill
  split
  · rename_i v
    exact absurd rfl (ha v)
  · rfl

/-- A payload after templates were replaced: what was asked for, and why it stopped, if it did. -/
structure Outcome where
  payload : Json
  asked : List (String × String)
  fault : Option Fault

/-- Replaces templates in order by what the source answers. A source may change its mind: `source n`
is what it answers to the question of number `n`. -/
def resolveBy (source : Nat → String → String → Answer) (payload : Json) : List Template → Outcome
  | [] => ⟨payload, [], none⟩
  | t :: ts =>
    match t.request? with
    | none => ⟨payload, [], some t.noKey⟩
    | some (key, path) =>
      match t.fill payload (source 0 key path) with
      | (payload', some fault) => ⟨payload', [(key, path)], some fault⟩
      | (payload', none) =>
        let later := resolveBy (fun n => source (n + 1)) payload' ts
        { later with asked := (key, path) :: later.asked }

/-- Replaces templates in order by what a source answers that never changes its mind. -/
def resolve (source : String → String → Answer) (payload : Json) (ts : List Template) : Outcome :=
  resolveBy (fun _ => source) payload ts

theorem resolve_cons (source : String → String → Answer) (payload : Json) (t : Template)
    (ts : List Template) :
    resolve source payload (t :: ts) =
      match t.request? with
      | none => ⟨payload, [], some t.noKey⟩
      | some (key, path) =>
        match t.fill payload (source key path) with
        | (payload', some fault) => ⟨payload', [(key, path)], some fault⟩
        | (payload', none) =>
          let later := resolve source payload' ts
          { later with asked := (key, path) :: later.asked } := rfl

end Template

end TagLedger
