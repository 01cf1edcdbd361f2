import TagLedger.Number.Binary64

/-!
JSON values. Objects keep their members in order; whole numbers and doubles are kept apart, so that
`1` and `1.0` are different values.
-/

namespace TagLedger

namespace Json

/-- A number: a whole number of at most 64 bits, or a double. -/
inductive Number where
  | whole (value : Int)
  | real (value : Binary64)
deriving DecidableEq, Repr, Inhabited

/-- Equal as numbers of the same sort. -/
def Number.sameValue : Number → Number → Bool
  | .whole a, .whole b => a == b
  | .real a, .real b => a.sameValue b
  | _, _ => false

end Json

inductive Json where
  | null
  | bool (value : Bool)
  | num (value : Json.Number)
  | str (value : String)
  | arr (items : List Json)
  | obj (members : List (String × Json))
deriving Repr, Inhabited

namespace Json

/-- The members of an object in document order. -/
abbrev Members := List (String × Json)

def ofNat (n : Nat) : Json := .num (.whole n)

mutual

def beq : Json → Json → Bool
  | .null, .null => true
  | .bool a, .bool b => a == b
  | .num a, .num b => a == b
  | .str a, .str b => a == b
  | .arr xs, .arr ys => beqItems xs ys
  | .obj xs, .obj ys => beqMembers xs ys
  | _, _ => false

def beqItems : List Json → List Json → Bool
  | [], [] => true
  | x :: xs, y :: ys => beq x y && beqItems xs ys
  | _, _ => false

def beqMembers : Members → Members → Bool
  | [], [] => true
  | (k, x) :: xs, (l, y) :: ys => k == l && beq x y && beqMembers xs ys
  | _, _ => false

end

mutual

theorem beq_iff : (a b : Json) → (beq a b = true ↔ a = b)
  | .null, b => by cases b <;> simp [beq]
  | .bool _, b => by cases b <;> simp [beq]
  | .num _, b => by cases b <;> simp [beq]
  | .str _, b => by cases b <;> simp [beq]
  | .arr xs, b => by
    cases b with
    | arr ys => simpa [beq] using beqItems_iff xs ys
    | _ => simp [beq]
  | .obj xs, b => by
    cases b with
    | obj ys => simpa [beq] using beqMembers_iff xs ys
    | _ => simp [beq]

theorem beqItems_iff : (xs ys : List Json) → (beqItems xs ys = true ↔ xs = ys)
  | [], ys => by cases ys <;> simp [beqItems]
  | _ :: _, [] => by simp [beqItems]
  | x :: xs, y :: ys => by simp [beqItems, beq_iff x y, beqItems_iff xs ys]

theorem beqMembers_iff : (xs ys : Members) → (beqMembers xs ys = true ↔ xs = ys)
  | [], ys => by cases ys <;> simp [beqMembers]
  | (_, _) :: _, [] => by simp [beqMembers]
  | (k, x) :: xs, (l, y) :: ys => by
    simp [beqMembers, beq_iff x y, beqMembers_iff xs ys, and_assoc]

end

instance : DecidableEq Json := fun a b => decidable_of_iff _ (beq_iff a b)

namespace Members

/-- The value of the first member of that name. -/
def get? (ms : Members) (key : String) : Option Json := ms.lookup key

/-- Replaces the member of that name where it stands, or adds it at the end. -/
def insert : Members → String → Json → Members
  | [], key, value => [(key, value)]
  | (k, v) :: ms, key, value =>
    if k = key then (k, value) :: ms else (k, v) :: insert ms key value

def extend (ms more : Members) : Members := more.foldl (fun acc m => acc.insert m.1 m.2) ms

/-- One member for each name: the place of its first mention with the value of its last. -/
def ofPairs (pairs : List (String × Json)) : Members := extend [] pairs

@[simp] theorem get?_nil (key : String) : get? [] key = none := rfl

theorem get?_cons (k : String) (v : Json) (ms : Members) (key : String) :
    get? ((k, v) :: ms) key = if k = key then some v else get? ms key := by
  by_cases h : k = key
  · simp [get?, h]
  · have h' : (key == k) = false := by simpa using Ne.symm h
    simp [get?, h, List.lookup_cons, h']

@[simp] theorem get?_insert_self (ms : Members) (key : String) (value : Json) :
    (insert ms key value).get? key = some value := by
  induction ms with
  | nil => simp [insert, get?_cons]
  | cons m ms ih =>
    obtain ⟨k, v⟩ := m
    by_cases h : k = key
    · simp [insert, get?_cons, h]
    · simp [insert, get?_cons, h, ih]

theorem get?_insert_of_ne {ms : Members} {key other : String} {value : Json} (h : other ≠ key) :
    (insert ms key value).get? other = ms.get? other := by
  induction ms with
  | nil => simp [insert, get?_cons, Ne.symm h]
  | cons m ms ih =>
    obtain ⟨k, v⟩ := m
    by_cases hk : k = key
    · subst hk
      simp [insert, get?_cons, Ne.symm h]
    · simp [insert, get?_cons, hk, ih]

end Members

/-- The member of an object; no other value has members. -/
def get? : Json → String → Option Json
  | .obj ms, key => Members.get? ms key
  | _, _ => none

def str? : Json → Option String
  | .str s => some s
  | _ => none

mutual

/-- Equal as values: the order of members and the sign of zero do not count. -/
def sameValue : Json → Json → Bool
  | .null, .null => true
  | .bool a, .bool b => a == b
  | .num a, .num b => a.sameValue b
  | .str a, .str b => a == b
  | .arr xs, .arr ys => sameItems xs ys
  | .obj xs, .obj ys => xs.length == ys.length && subMembers xs ys
  | _, _ => false

def sameItems : List Json → List Json → Bool
  | [], [] => true
  | x :: xs, y :: ys => sameValue x y && sameItems xs ys
  | _, _ => false

/-- Every member of the first object has its equal among the members of the second. -/
def subMembers : Members → Members → Bool
  | [], _ => true
  | (k, x) :: xs, ys =>
    (match Members.get? ys k with
      | some y => sameValue x y
      | none => false) && subMembers xs ys

end

end Json

end TagLedger
