import Mathlib.Logic.Function.Basic
import TagLedger.Proofs.Json.Children

/-!
Simultaneous substitution: new values at several positions of a value at once, with everything else
as it was. Writes one after the other, at positions of which none leads through another, amount to
one substitution.
-/

namespace TagLedger.Json

mutual

/-- Puts values in the places where `f` has them. What stood there is not looked into, and neither
are the new values; all other places stay, in their order. -/
def substitute (f : Path → Option Json) : Json → Json
  | .arr xs => (f []).getD (.arr (substituteItems f 0 xs))
  | .obj ms => (f []).getD (.obj (substituteMembers f ms))
  | j => (f []).getD j

def substituteItems (f : Path → Option Json) (i : Nat) : List Json → List Json
  | [] => []
  | x :: xs => substitute (fun p => f (.index i :: p)) x :: substituteItems f (i + 1) xs

def substituteMembers (f : Path → Option Json) : Members → Members
  | [] => []
  | (k, v) :: ms => (k, substitute (fun p => f (.key k :: p)) v) :: substituteMembers f ms

end

variable {f : Path → Option Json} {j c v old : Json} {s : PathStep} {p : Path}

theorem substitute_of_some (h : f [] = some v) (j : Json) : substitute f j = v := by
  cases j <;> simp [substitute, h]

theorem substituteItems_eq (f : Path → Option Json) (i : Nat) (xs : List Json) :
    substituteItems f i xs =
      xs.mapIdx fun k x => substitute (fun p => f (.index (i + k) :: p)) x := by
  induction xs generalizing i with
  | nil => rfl
  | cons x xs ih => simp [substituteItems, ih, List.mapIdx_cons, Nat.add_assoc, Nat.add_comm 1]

theorem substituteMembers_eq (f : Path → Option Json) (ms : Members) :
    substituteMembers f ms =
      ms.map fun m => (m.1, substitute (fun p => f (.key m.1 :: p)) m.2) := by
  induction ms with
  | nil => rfl
  | cons m ms ih => simp [substituteMembers, ih]

/-- Where nothing is put in the place of a value, the substitution goes on in its children. -/
theorem substitute_of_none (h : f [] = none) (j : Json) :
    substitute f j = j.mapChildren fun s c => substitute (fun p => f (s :: p)) c := by
  cases j with
  | arr xs => simp [substitute, h, mapChildren, substituteItems_eq]
  | obj ms => simp [substitute, h, mapChildren, substituteMembers_eq]
  | _ => simp [substitute, h, mapChildren]

theorem substitute_none (hj : j.Tidy) : substitute (fun _ => none) j = j := by
  refine hj.induct (P := fun j => substitute (fun _ => none) j = j) fun j _ ih => ?_
  rw [substitute_of_none rfl]
  exact (mapChildren_congr ih).trans (mapChildren_self j)

theorem mapChildren_ne_null (hc : j.child? s = some c) (g : PathStep → Json → Json) :
    j.mapChildren g ≠ .null := by
  cases j <;> simp [child?, mapChildren] at hc ⊢

/-- What a substitution leaves on the way to a value is still a way. -/
theorem prepared_substitute (hat : c.at? p = some old) (hroot : f [] = none) :
    prepared (some (substitute f c)) p = substitute f c := by
  cases p with
  | nil => rfl
  | cons s p =>
    obtain ⟨d, hd, _⟩ := Option.bind_eq_some_iff.mp hat
    refine prepared_of_ne_null ?_ _
    rw [substitute_of_none hroot]
    exact mapChildren_ne_null hd _

theorem update_cons (f : Path → Option Json) (s : PathStep) (p : Path) (v : Json) :
    (fun q => Function.update f (s :: p) (some v) (s :: q)) =
      Function.update (fun q => f (s :: q)) p (some v) := by
  funext q
  by_cases hq : q = p
  · simp [hq]
  · simp [Function.update_of_ne, hq]

theorem update_cons_of_ne {s' : PathStep} (hs : s' ≠ s) (f : Path → Option Json) (p : Path)
    (v : Json) :
    (fun q => Function.update f (s :: p) (some v) (s' :: q)) = fun q => f (s' :: q) := by
  funext q
  simp [Function.update_of_ne, hs]

/-- To write at one more place is to substitute at one more place, if nothing was put on the way
there. -/
theorem write_substitute (hj : j.Tidy) (hat : j.at? p = some old)
    (hfree : ∀ q, q <+: p → f q = none) (v : Json) :
    write v (substitute f j) p = ⟨substitute (Function.update f p (some v)) j, false⟩ := by
  induction p generalizing j f with
  | nil => rw [write, substitute_of_some (Function.update_self _ _ _)]
  | cons s p ih =>
    obtain ⟨c, hc, hat⟩ := Option.bind_eq_some_iff.mp hat
    have hsteps := hj.nodup_steps
    have hroot : f [] = none := hfree [] List.nil_prefix
    have hfree' : ∀ q, q <+: p → f (s :: q) = none := fun q hq =>
      hfree (s :: q) ((List.prefix_cons_inj s).mpr hq)
    have hroot' : Function.update f (s :: p) (some v) [] = none := by simpa using hroot
    have hchild : (substitute f j).child? s = some (substitute (fun q => f (s :: q)) c) := by
      rw [substitute_of_none hroot, child?_mapChildren hsteps hc]
    have hbelow : write v (prepared ((substitute f j).child? s) p) p =
        ⟨substitute (Function.update (fun q => f (s :: q)) p (some v)) c, false⟩ := by
      rw [hchild, prepared_substitute hat (hfree' [] List.nil_prefix)]
      exact ih (hj.child hc) hat hfree'
    have hset : (substitute f j).setChild? s
          (substitute (Function.update (fun q => f (s :: q)) p (some v)) c) =
        some (substitute (Function.update f (s :: p) (some v)) j) := by
      have hsteps' : (substitute f j).steps.Nodup := by
        rwa [substitute_of_none hroot, steps_mapChildren]
      rw [setChild?_eq_mapChildren hsteps' hchild, substitute_of_none hroot,
        substitute_of_none hroot', mapChildren_mapChildren]
      refine congrArg some (mapChildren_congr fun x hx => ?_)
      by_cases hs : x.1 = s
      · obtain rfl : c = x.2 := by
          have hx' := (mem_children_iff hsteps).mp hx
          rw [hs, hc] at hx'
          exact Option.some.inj hx'
        simp only [hs, if_true, update_cons]
      · simp only [hs, if_false, update_cons_of_ne hs]
    rw [write, if_pos (accepts_of_child? hchild)]
    simp only [hbelow, hset, Option.getD_some]

end TagLedger.Json
