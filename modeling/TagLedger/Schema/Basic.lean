import TagLedger.Error
import TagLedger.Json.Printer

/-!
Schemas: closed descriptions of JSON shapes. Validation gives the payload in normal form, with
defaults filled in and unknown members left out.
-/

namespace TagLedger

inductive Schema where
  | any
  | string
  | number
  | integer
  | boolean
  | enumeration (variants : List String)
  | array (items : Schema)
  | object (fields : List (String × Schema))
  | optional (inner : Schema)
  | default (inner : Schema) (value : Json)
deriving Repr, Inhabited

namespace Schema

/-- How a value differs from a schema, and where. -/
inductive Fault where
  | wrongKind (path expected found : String)
  | notOneOf (path : String) (variants : List String) (found : Json)
  | required (path : String)
deriving DecidableEq

def Fault.message : Fault → String
  | .wrongKind path expected found => path ++ ": expected " ++ expected ++ ", got " ++ found
  | .notOneOf path variants found =>
    path ++ ": expected one of [" ++ ", ".intercalate variants ++ "], got " ++ found.compact
  | .required path => path ++ ": required"

def Fault.toError (f : Fault) : RunError := .failure .schema f.message

/-- The kind of a value in words. -/
def kindName : Json → String
  | .null => "null"
  | .bool _ => "boolean"
  | .num _ => "number"
  | .str _ => "string"
  | .arr _ => "array"
  | .obj _ => "object"

def wrongKind (path expected : String) (j : Json) : Except Fault Json :=
  .error (.wrongKind path expected (kindName j))

/-- Texts for such a schema are taken as they are and not read as JSON. -/
def isString : Schema → Bool
  | .string => true
  | .optional s => s.isString
  | .default s _ => s.isString
  | _ => false

/-- What stands for a field that is missing: nothing for optional fields, a default, or a fault. -/
def missingValue (path : String) : Schema → Except Fault (Option Json)
  | .optional _ => .ok none
  | .any => .ok none
  | .default _ value => .ok (some value)
  | _ => .error (.required path)

mutual

/-- The normal form of a value at a path. -/
def validateAt (path : String) : Schema → Json → Except Fault Json
  | .any, j => .ok j
  | .string, j =>
    match j with
    | .str _ => .ok j
    | _ => wrongKind path "string" j
  | .number, j =>
    match j with
    | .num _ => .ok j
    | _ => wrongKind path "number" j
  | .integer, j =>
    match j with
    | .num (.whole _) => .ok j
    | _ => wrongKind path "integer" j
  | .boolean, j =>
    match j with
    | .bool _ => .ok j
    | _ => wrongKind path "boolean" j
  | .enumeration variants, j =>
    match j with
    | .str s => if variants.contains s then .ok j else .error (.notOneOf path variants j)
    | _ => .error (.notOneOf path variants j)
  | .array items, j =>
    match j with
    | .arr xs => do
      let ys ← (xs.zipIdx).mapM fun x =>
        validateAt (path ++ "[" ++ toString x.2 ++ "]") items x.1
      return .arr ys
    | _ => wrongKind path "array" j
  | .object fields, j =>
    match j with
    | .obj ms => do
      let out ← validateFields path fields ms []
      return .obj out
    | _ => wrongKind path "object" j
  | .optional s, j =>
    match j with
    | .null => .ok .null
    | _ => validateAt path s j
  | .default s value, j =>
    match j with
    | .null => .ok value
    | _ => validateAt path s j

/-- The normal form of the members that the fields name, added to `out`. -/
def validateFields (path : String) : List (String × Schema) → Json.Members → Json.Members →
    Except Fault Json.Members
  | [], _, out => .ok out
  | (key, s) :: fields, ms, out => do
    let fieldPath := path ++ "." ++ key
    match Json.Members.get? ms key with
    | some v =>
      let w ← validateAt fieldPath s v
      validateFields path fields ms (Json.Members.insert out key w)
    | none =>
      match ← missingValue fieldPath s with
      | some v => validateFields path fields ms (Json.Members.insert out key v)
      | none => validateFields path fields ms out

end

/-- The normal form of a value. -/
def validate (s : Schema) (j : Json) : Except Fault Json := validateAt "$" s j

def isOptionalField : Schema → Bool
  | .optional _ => true
  | .any => true
  | _ => false

mutual

/-- The smallest value of a shape: empty texts and lists, zeros, and only the required fields. -/
def emptyValue : Schema → Json
  | .any => .null
  | .optional _ => .null
  | .string => .str ""
  | .number => Json.ofNat 0
  | .integer => Json.ofNat 0
  | .boolean => .bool false
  | .enumeration variants => (variants.head?.map Json.str).getD .null
  | .array _ => .arr []
  | .object fields => .obj (emptyFields fields [])
  | .default _ value => value

/-- Adds the empty values of the required fields to `out`. -/
def emptyFields : List (String × Schema) → Json.Members → Json.Members
  | [], out => out
  | (key, s) :: fields, out =>
    if isOptionalField s then emptyFields fields out
    else emptyFields fields (Json.Members.insert out key (emptyValue s))

end

end Schema

end TagLedger
