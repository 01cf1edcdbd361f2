import Mathlib.Tactic.Common
import TagLedger.Call.Source

/-!
Templates that refer to calls. A path begins with the number of a call and leads on in the result of
that call; it stands for a value only in calls after that one, and once that one has completed.
-/

namespace TagLedger

namespace CallSlot

/-- The value that a path stands for in the call of slot `k`: the path begins with the number of a
call before that one, which has completed, and leads on in the JSON of its result. -/
def value? (slots : List CallSlot) (k : Nat) (path : String) : Option Json :=
  match Path.segments path with
  | [] => none
  | first :: rest =>
    (Path.index? first).bind fun i =>
      if i < k then
        slots[i]?.bind fun s =>
          match s.state with
          | .completed res => (Json.obj res.members).follow? rest
          | _ => none
      else none

/-- The path begins with the number of a call before slot `k`, which has not ended. -/
def Waits (slots : List CallSlot) (k : Nat) (path : String) : Prop :=
  ∃ first rest i s, Path.segments path = first :: rest ∧ Path.index? first = some i ∧ i < k ∧
    slots[i]? = some s ∧ s.state = .waiting

/-- What the call of slot `k` learns about a path: nothing as long as it waits, then the value that
the path stands for, or that there is none. -/
inductive Replies (slots : List CallSlot) (k : Nat) (path : String) :
    Option Template.Answer → Prop where
  | waits (h : Waits slots k path) (hv : value? slots k path = none) : Replies slots k path none
  | stands {v : Json} (hw : ¬ Waits slots k path) (hv : value? slots k path = some v) :
    Replies slots k path (some (.ok (some v)))
  | lacks {a : Template.Answer} (hw : ¬ Waits slots k path) (hv : value? slots k path = none)
    (ha : ∀ v, a ≠ .ok (some v)) : Replies slots k path (some a)

variable {slots : List CallSlot} {k : Nat} {path first : String} {rest : List String}

/-- A path that names no call before slot `k` stands for nothing, and nothing is waited for. -/
theorem lacks_of_unplaced (hpath : Path.segments path = first :: rest)
    (h : ∀ i, Path.index? first = some i → i < k → slots[i]? = none) :
    ¬ Waits slots k path ∧ value? slots k path = none := by
  constructor
  · rintro ⟨first', rest', i, s, hpath', hindex, hlt, hs, _⟩
    obtain ⟨rfl, rfl⟩ := List.cons.inj (hpath.symm.trans hpath')
    rw [h i hindex hlt] at hs
    cases hs
  · rw [value?, hpath]
    dsimp only
    cases hindex : Path.index? first with
    | none => rfl
    | some i =>
      rw [Option.bind_some]
      split
      · rename_i hlt
        rw [h i hindex hlt]
        rfl
      · rfl

/-- A path that names the call of slot `i`, before slot `k`. -/
theorem replies_of_placed {i : Nat} {s : CallSlot} (hpath : Path.segments path = first :: rest)
    (hindex : Path.index? first = some i) (hlt : i < k) (hs : slots[i]? = some s) :
    Replies slots k path
      (s.report?.map fun report => report.map fun r => (Json.obj r.members).follow? rest) := by
  have hwaits : Waits slots k path → s.state = .waiting := by
    rintro ⟨first', rest', j, s', hpath', hindex', _, hs', hw⟩
    obtain ⟨rfl, rfl⟩ := List.cons.inj (hpath.symm.trans hpath')
    obtain rfl := Option.some.inj (hindex.symm.trans hindex')
    obtain rfl := Option.some.inj (hs.symm.trans hs')
    exact hw
  have hvalue : value? slots k path =
      match s.state with
      | .completed res => (Json.obj res.members).follow? rest
      | _ => none := by
    rw [value?, hpath]
    dsimp only
    rw [hindex, Option.bind_some, if_pos hlt, hs, Option.bind_some]
  cases hstate : s.state with
  | waiting =>
    rw [hstate] at hvalue
    rw [report?, hstate]
    exact .waits ⟨first, rest, i, s, hpath, hindex, hlt, hs, hstate⟩ hvalue
  | completed res =>
    have hw : ¬ Waits slots k path := fun h => by cases hstate.symm.trans (hwaits h)
    rw [hstate] at hvalue
    simp only [report?, hstate, Option.map_some]
    cases hfollow : (Json.obj res.members).follow? rest with
    | none => exact .lacks hw (hvalue.trans hfollow) (by simp [Except.map, hfollow])
    | some v =>
      simp only [Except.map, hfollow]
      exact .stands hw (hvalue.trans hfollow)
  | failed reason =>
    have hw : ¬ Waits slots k path := fun h => by cases hstate.symm.trans (hwaits h)
    rw [hstate] at hvalue
    simp only [report?, hstate, Option.map_some]
    exact .lacks hw hvalue nofun
  | dropped =>
    have hw : ¬ Waits slots k path := fun h => by cases hstate.symm.trans (hwaits h)
    rw [hstate] at hvalue
    simp only [report?, hstate, Option.map_some]
    exact .lacks hw hvalue nofun

end CallSlot

namespace Sources

open CallSlot (Replies)

/-- Sources that show the slots before `k` answer as the path stands there. -/
theorem askCall_replies {s : Sources} {slots : List CallSlot} {k : Nat}
    (hslots : s.slots = slots.take k) (path : String) :
    Replies slots k path (s.askCall path) := by
  unfold askCall
  split
  · rename_i hpath
    refine .lacks ?_ (by rw [CallSlot.value?, hpath]) nofun
    rintro ⟨first, rest, _, _, hpath', _⟩
    cases hpath.symm.trans hpath'
  · rename_i first rest hpath
    split
    · rename_i hnone
      have hunplaced (i : Nat) (hindex : Path.index? first = some i) (hlt : i < k) :
          slots[i]? = none := by
        rwa [hindex, Option.bind_some, hslots, List.getElem?_take_of_lt hlt] at hnone
      obtain ⟨hw, hv⟩ := CallSlot.lacks_of_unplaced hpath hunplaced
      exact .lacks hw hv nofun
    · rename_i slot hplaced
      obtain ⟨i, hindex, hs⟩ := Option.bind_eq_some_iff.mp hplaced
      rw [hslots] at hs
      obtain ⟨hlen, _⟩ := List.getElem?_eq_some_iff.mp hs
      have hlt : i < k := Nat.lt_of_lt_of_le hlen (List.length_take_le _ _)
      rw [List.getElem?_take_of_lt hlt] at hs
      exact CallSlot.replies_of_placed hpath hindex hlt hs

end Sources

end TagLedger
