import TagLedger.Proofs.Json.Tidy
import TagLedger.Proofs.Json.Write

/-!
The children of a value, each with the step that leads to it, in document order. What is proved for
a value from its children alone needs no case for arrays and another for objects.
-/

namespace TagLedger.Json

variable {j c w : Json} {s : PathStep}

/-- The children of a value with the steps to them, in document order. -/
def children : Json → List (PathStep × Json)
  | .arr xs => xs.mapIdx fun i x => (.index i, x)
  | .obj ms => ms.map fun m => (.key m.1, m.2)
  | _ => []

def steps (j : Json) : List PathStep := j.children.map Prod.fst

def mapChildren (g : PathStep → Json → Json) : Json → Json
  | .arr xs => .arr (xs.mapIdx fun i x => g (.index i) x)
  | .obj ms => .obj (ms.map fun m => (m.1, g (.key m.1) m.2))
  | j => j

attribute [local simp] children mapChildren

theorem steps_arr (xs : List Json) : (Json.arr xs).steps = (List.range xs.length).map .index := by
  refine List.ext_getElem (by simp [steps]) fun i _ _ => ?_
  simp [steps]

theorem steps_obj (ms : Members) : (Json.obj ms).steps = (ms.map Prod.fst).map .key := by
  simp [steps]

theorem Tidy.nodup_steps (h : j.Tidy) : j.steps.Nodup := by
  cases h with
  | arr _ =>
    rw [steps_arr]
    exact List.nodup_range.map fun _ _ => PathStep.index.inj
  | obj hkeys _ =>
    rw [steps_obj]
    exact hkeys.map fun _ _ => PathStep.key.inj
  | _ => simp [steps]

/-- The children are what one step leads to. -/
theorem mem_children_iff (h : j.steps.Nodup) : (s, c) ∈ j.children ↔ j.child? s = some c := by
  cases j with
  | arr xs =>
    simp only [children, List.mem_mapIdx, Prod.mk.injEq]
    constructor
    · rintro ⟨i, hi, rfl, rfl⟩
      exact List.getElem?_eq_getElem hi
    · intro hc
      cases s with
      | key k => simp [child?] at hc
      | index i =>
        obtain ⟨hi, rfl⟩ := List.getElem?_eq_some_iff.mp (show xs[i]? = some c from hc)
        exact ⟨i, hi, rfl, rfl⟩
  | obj ms =>
    have hkeys : (ms.map Prod.fst).Nodup := by
      rw [steps_obj] at h
      exact h.of_map _
    cases s with
    | key k => simp [child?, Members.get?_eq_some_iff hkeys]
    | index i => simp [child?]
  | _ => simp [child?]

/-- What holds of a value when it holds of its children, holds of every value that names no member
twice. -/
theorem Tidy.induct {P : Json → Prop} (h : j.Tidy)
    (step : ∀ j, j.Tidy → (∀ x ∈ j.children, P x.2) → P j) : P j := by
  induction h with
  | null => exact step _ .null (by simp)
  | bool b => exact step _ (.bool b) (by simp)
  | num n => exact step _ (.num n) (by simp)
  | str s => exact step _ (.str s) (by simp)
  | @arr xs h ih =>
    refine step _ (.arr h) fun x hx => ?_
    obtain ⟨i, hi, rfl⟩ := List.mem_mapIdx.mp hx
    exact ih _ (List.getElem_mem hi)
  | @obj ms hkeys h ih =>
    refine step _ (.obj hkeys h) fun x hx => ?_
    obtain ⟨m, hm, rfl⟩ := List.mem_map.mp hx
    exact ih m hm

theorem Tidy.child (h : j.Tidy) (hc : j.child? s = some c) : c.Tidy := by
  have hmem := (mem_children_iff h.nodup_steps).mpr hc
  cases h with
  | arr h =>
    obtain ⟨i, hi, heq⟩ := List.mem_mapIdx.mp hmem
    obtain ⟨-, rfl⟩ := Prod.mk.inj heq
    exact h _ (List.getElem_mem hi)
  | obj _ h =>
    obtain ⟨m, hm, heq⟩ := List.mem_map.mp hmem
    obtain ⟨-, rfl⟩ := Prod.mk.inj heq
    exact h m hm
  | _ => simp at hmem

section MapChildren

variable {g g' : PathStep → Json → Json}

theorem children_mapChildren (g : PathStep → Json → Json) (j : Json) :
    (j.mapChildren g).children = j.children.map fun x => (x.1, g x.1 x.2) := by
  cases j with
  | arr xs =>
    refine List.ext_getElem (by simp) fun i _ _ => ?_
    simp
  | obj ms => simp
  | _ => rfl

theorem steps_mapChildren (g : PathStep → Json → Json) (j : Json) :
    (j.mapChildren g).steps = j.steps := by
  rw [steps, children_mapChildren, List.map_map]
  rfl

theorem child?_mapChildren (h : j.steps.Nodup) (hc : j.child? s = some c) :
    (j.mapChildren g).child? s = some (g s c) := by
  have hsteps : (j.mapChildren g).steps.Nodup := by rwa [steps_mapChildren]
  rw [← mem_children_iff hsteps, children_mapChildren]
  exact List.mem_map_of_mem ((mem_children_iff h).mpr hc)

theorem mapChildren_congr (h : ∀ x ∈ j.children, g x.1 x.2 = g' x.1 x.2) :
    j.mapChildren g = j.mapChildren g' := by
  cases j with
  | arr xs =>
    refine congrArg Json.arr (List.ext_getElem (by simp) fun i hi _ => ?_)
    have hlt : i < xs.length := by simpa using hi
    have hmem : (PathStep.index i, xs[i]) ∈ (Json.arr xs).children :=
      List.mem_mapIdx.mpr ⟨i, hlt, rfl⟩
    simpa using h _ hmem
  | obj ms =>
    refine congrArg Json.obj (List.map_congr_left fun m hm => ?_)
    have hmem : (PathStep.key m.1, m.2) ∈ (Json.obj ms).children := List.mem_map_of_mem hm
    exact congrArg (Prod.mk m.1) (h _ hmem)
  | _ => rfl

theorem mapChildren_self (j : Json) : (j.mapChildren fun _ c => c) = j := by
  cases j with
  | arr xs => exact congrArg Json.arr (List.ext_getElem (by simp) fun i _ _ => by simp)
  | obj ms => simp
  | _ => rfl

theorem mapChildren_mapChildren (j : Json) :
    (j.mapChildren g).mapChildren g' = j.mapChildren fun s c => g' s (g s c) := by
  cases j with
  | arr xs => exact congrArg Json.arr (List.ext_getElem (by simp) fun i _ _ => by simp)
  | obj ms => simp
  | _ => rfl

/-- To replace one child is to leave all others as they are. -/
theorem setChild?_eq_mapChildren (h : j.steps.Nodup) (hc : j.child? s = some c) (w : Json) :
    j.setChild? s w = some (j.mapChildren fun s' c' => if s' = s then w else c') := by
  cases j with
  | arr xs =>
    cases s with
    | key k => simp [child?] at hc
    | index i =>
      obtain ⟨hi, _⟩ := List.getElem?_eq_some_iff.mp (show xs[i]? = some c from hc)
      have hnone : i + 1 - xs.length = 0 := by omega
      refine congrArg (some ∘ Json.arr)
        (List.ext_getElem (by simp [setItem]; omega) fun n _ _ => ?_)
      simp [setItem, hnone, List.getElem_set, eq_comm]
  | obj ms =>
    cases s with
    | key k =>
      have hkeys : (ms.map Prod.fst).Nodup := by
        rw [steps_obj] at h
        exact h.of_map _
      have hmem : k ∈ ms.map Prod.fst :=
        List.mem_map_of_mem ((Members.get?_eq_some_iff hkeys).mp hc)
      simp [setChild?, Members.insert_of_mem hkeys hmem]
    | index i => simp [child?] at hc
  | _ => simp [child?] at hc

end MapChildren

end TagLedger.Json
