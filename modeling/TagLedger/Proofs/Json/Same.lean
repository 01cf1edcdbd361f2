import Mathlib.Data.List.Forall2
import Mathlib.Data.List.Perm.Subperm
import Mathlib.Tactic.Common
import TagLedger.Proofs.Json.Tidy

/-!
Equality of values, for which neither the order of members nor the sign of zero counts. Among values
that name no member twice it is an equivalence.
-/

namespace TagLedger

namespace Binary64

variable {x y z : Binary64}

theorem sameValue_iff : x.sameValue y = true ↔ x.isZero = true ∧ y.isZero = true ∨ x = y := by
  simp [sameValue]

theorem sameValue_symm (h : x.sameValue y = true) : y.sameValue x = true := by
  rw [sameValue_iff] at h ⊢
  exact h.imp And.symm Eq.symm

theorem sameValue_trans (h : x.sameValue y = true) (h' : y.sameValue z = true) :
    x.sameValue z = true := by
  rcases sameValue_iff.mp h with ⟨hx, hy⟩ | rfl
  · rcases sameValue_iff.mp h' with ⟨_, hz⟩ | rfl
    · exact sameValue_iff.mpr (.inl ⟨hx, hz⟩)
    · exact h
  · exact h'

end Binary64

namespace Json

variable {x y z : Json} {xs ys : List Json} {ms ns : Members}

namespace Number

variable {a b c : Number}

theorem sameValue_refl (a : Number) : a.sameValue a = true := by
  cases a with
  | whole n => exact beq_self_eq_true n
  | real d => exact Binary64.sameValue_iff.mpr (.inr rfl)

theorem sameValue_symm (h : a.sameValue b = true) : b.sameValue a = true := by
  cases a <;> cases b
  · exact beq_iff_eq.mpr (beq_iff_eq.mp h).symm
  · cases h
  · cases h
  · exact Binary64.sameValue_symm h

theorem sameValue_trans (h : a.sameValue b = true) (h' : b.sameValue c = true) :
    a.sameValue c = true := by
  cases b <;> cases a <;> first | cases h | skip
  all_goals cases c <;> first | cases h' | skip
  · exact beq_iff_eq.mpr ((beq_iff_eq.mp h).trans (beq_iff_eq.mp h'))
  · exact Binary64.sameValue_trans h h'

end Number

theorem sameItems_iff :
    sameItems xs ys = true ↔ List.Forall₂ (fun x y => x.sameValue y = true) xs ys := by
  induction xs generalizing ys with
  | nil => cases ys <;> simp [sameItems]
  | cons x xs ih => cases ys <;> simp [sameItems, ih]

theorem subMembers_iff :
    subMembers ms ns = true ↔ ∀ m ∈ ms, ∃ y, ns.get? m.1 = some y ∧ m.2.sameValue y = true := by
  induction ms with
  | nil => simp [subMembers]
  | cons m ms ih =>
    obtain ⟨k, x⟩ := m
    cases hfound : Members.get? ns k <;> simp [subMembers, hfound, ih]

/-- Values of one sort with the same content: items one by one, members by name. -/
inductive Same : Json → Json → Prop where
  | null : Same .null .null
  | bool (b : Bool) : Same (.bool b) (.bool b)
  | num {a b : Number} (h : a.sameValue b = true) : Same (.num a) (.num b)
  | str (s : String) : Same (.str s) (.str s)
  | arr {xs ys : List Json} (h : List.Forall₂ (fun x y => x.sameValue y = true) xs ys) :
    Same (.arr xs) (.arr ys)
  | obj {ms ns : Members} (hlength : ms.length = ns.length)
    (h : ∀ m ∈ ms, ∃ y, ns.get? m.1 = some y ∧ m.2.sameValue y = true) : Same (.obj ms) (.obj ns)

theorem sameValue_iff : x.sameValue y = true ↔ Same x y := by
  constructor
  · intro h
    cases x <;> cases y <;> first | cases h | skip
    · exact .null
    · exact beq_iff_eq.mp h ▸ .bool _
    · exact .num h
    · exact beq_iff_eq.mp h ▸ .str _
    · exact .arr (sameItems_iff.mp h)
    · obtain ⟨hlength, hsub⟩ := Bool.and_eq_true_iff.mp h
      exact .obj (beq_iff_eq.mp hlength) (subMembers_iff.mp hsub)
  · intro h
    cases h with
    | null => rfl
    | bool b => exact beq_self_eq_true b
    | num h => exact h
    | str s => exact beq_self_eq_true s
    | arr h => exact sameItems_iff.mpr h
    | obj hlength h =>
      exact Bool.and_eq_true_iff.mpr ⟨beq_iff_eq.mpr hlength, subMembers_iff.mpr h⟩

namespace Tidy

theorem get? {key : String} (hx : x.Tidy) (h : x.get? key = some y) : y.Tidy := by
  cases hx with
  | obj hkeys hms => exact hms _ (Members.mem_of_get? h)
  | _ => cases h

theorem sameValue_refl (h : x.Tidy) : x.sameValue x = true := by
  rw [sameValue_iff]
  induction h with
  | null => exact .null
  | bool b => exact .bool b
  | num n => exact .num n.sameValue_refl
  | str s => exact .str s
  | arr h ih => exact .arr (List.forall₂_same.mpr fun x hx => sameValue_iff.mpr (ih x hx))
  | obj hkeys h ih =>
    refine .obj rfl fun m hm => ⟨m.2, (Members.get?_eq_some_iff hkeys).mpr hm, ?_⟩
    exact sameValue_iff.mpr (ih m hm)

/-- Objects of one size have the same names if all names of the one are names of the other. -/
theorem mem_keys_of_sub (hms : (ms.map Prod.fst).Nodup) (hlength : ms.length = ns.length)
    (hsub : ∀ m ∈ ms, ∃ y, ns.get? m.1 = some y ∧ m.2.sameValue y = true) {k : String}
    (hk : k ∈ ns.map Prod.fst) : k ∈ ms.map Prod.fst := by
  have hkeys : ms.map Prod.fst ⊆ ns.map Prod.fst := by
    intro k hk
    obtain ⟨m, hm, rfl⟩ := List.mem_map.mp hk
    obtain ⟨y, hy, _⟩ := hsub m hm
    exact List.mem_map.mpr ⟨_, Members.mem_of_get? hy, rfl⟩
  have hperm := (hms.subperm hkeys).perm_of_length_le (by simp [hlength])
  exact hperm.mem_iff.mpr hk

theorem sameValue_symm (hx : x.Tidy) (hy : y.Tidy) (h : x.sameValue y = true) :
    y.sameValue x = true := by
  induction hx generalizing y with
  | null | bool b | str s =>
    cases sameValue_iff.mp h
    exact h
  | num n =>
    cases sameValue_iff.mp h with
    | num h => exact Number.sameValue_symm h
  | @arr xs hxs ih =>
    cases sameValue_iff.mp h with
    | arr hpairs =>
      cases hy with
      | arr hys =>
        rw [List.forall₂_iff_zip] at hpairs
        refine sameValue_iff.mpr (.arr (List.Forall₂.flip (List.forall₂_iff_zip.mpr ?_)))
        refine ⟨hpairs.1, fun {a b} hab => ?_⟩
        obtain ⟨ha, hb⟩ := List.of_mem_zip hab
        exact ih a ha (hys b hb) (hpairs.2 hab)
  | @obj ms hkeys hms ih =>
    cases sameValue_iff.mp h with
    | obj hlength hsub =>
      cases hy with
      | obj hkeys' hns =>
        refine sameValue_iff.mpr (.obj hlength.symm fun n hn => ?_)
        have hname := mem_keys_of_sub hkeys hlength hsub (List.mem_map_of_mem hn)
        obtain ⟨m, hm, hmn⟩ := List.mem_map.mp hname
        obtain ⟨w, hw, hsame⟩ := hsub m hm
        obtain rfl : n.2 = w :=
          Option.some.inj (((Members.get?_eq_some_iff hkeys').mpr hn).symm.trans (hmn ▸ hw))
        exact ⟨m.2, (Members.get?_eq_some_iff hkeys).mpr (hmn ▸ hm), ih m hm (hns n hn) hsame⟩

theorem sameValue_trans (hx : x.Tidy) (h : x.sameValue y = true) (h' : y.sameValue z = true) :
    x.sameValue z = true := by
  induction hx generalizing y z with
  | null | bool b | str s =>
    cases sameValue_iff.mp h
    exact h'
  | num n =>
    cases sameValue_iff.mp h with
    | num h =>
      cases sameValue_iff.mp h' with
      | num h' => exact Number.sameValue_trans h h'
  | @arr xs hxs ih =>
    cases sameValue_iff.mp h with
    | arr hxy =>
      cases sameValue_iff.mp h' with
      | arr hyz =>
        refine sameValue_iff.mpr (.arr (List.forall₂_iff_get.mpr ⟨?_, fun i hi hi' => ?_⟩))
        · exact hxy.length_eq.trans hyz.length_eq
        · have hlt := hxy.length_eq ▸ hi
          exact ih _ (List.getElem_mem hi) (hxy.get hi hlt) (hyz.get hlt hi')
  | @obj ms hkeys hms ih =>
    cases sameValue_iff.mp h with
    | obj hlength hsub =>
      cases sameValue_iff.mp h' with
      | obj hlength' hsub' =>
        refine sameValue_iff.mpr (.obj (hlength.trans hlength') fun m hm => ?_)
        obtain ⟨v, hv, hmv⟩ := hsub m hm
        obtain ⟨w, hw, hvw⟩ := hsub' _ (Members.mem_of_get? hv)
        exact ⟨w, hw, ih m hm hmv hvw⟩

end Tidy

end Json

end TagLedger
