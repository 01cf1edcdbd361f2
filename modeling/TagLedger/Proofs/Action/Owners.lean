import Mathlib.Data.List.Nodup
import Mathlib.Data.List.Pairwise
import Mathlib.Tactic.Common
import TagLedger.Call.Payload
import TagLedger.Catalog

/-!
Owners. Registration gives every action a name of its own, and a catalog that is valid gives every
memory key one owner.
-/

namespace TagLedger

namespace Catalog

variable {α : Type} {a b : Action} {m m' : ActionMemory}

/-- Two actions do not keep their memories under one key. -/
def KeepApart (a b : Action) : Prop :=
  ∀ m m', a.memory = some m → b.memory = some m' → m.key ≠ m'.key

structure Owned (actions : List Action) : Prop where
  names : (actions.map (·.name)).Nodup
  keys : actions.Pairwise KeepApart

theorem foldlM_keeps {I : Catalog → Prop} {f : Catalog → α → Except Fault Catalog}
    (hf : ∀ c x c', f c x = .ok c' → I c → I c') {xs : List α} {c c' : Catalog}
    (h : xs.foldlM f c = .ok c') (hc : I c) : I c' := by
  induction xs generalizing c with
  | nil =>
    cases h
    exact hc
  | cons x xs ih =>
    rw [List.foldlM_cons] at h
    cases hx : f c x with
    | error e =>
      rw [hx] at h
      cases h
    | ok d =>
      rw [hx] at h
      exact ih h (hf c x d hx hc)

theorem nodup_addAction {c c' : Catalog} (h : c.addAction a = .ok c')
    (hc : (c.actions.map (·.name)).Nodup) : (c'.actions.map (·.name)).Nodup := by
  unfold addAction at h
  split at h
  · cases h
  · rename_i hnew
    cases h
    rw [List.map_append, List.map_singleton]
    refine List.nodup_append.mpr ⟨hc, List.nodup_singleton _, fun name hname other hother => ?_⟩
    obtain ⟨d, hd, rfl⟩ := List.mem_map.mp hname
    rw [List.mem_singleton.mp hother]
    intro heq
    exact hnew (List.any_eq_true.mpr ⟨d, hd, beq_iff_eq.mpr heq⟩)

theorem bind_eq_ok {d : Except Fault Catalog} {f : Catalog → Except Fault Catalog}
    {c' : Catalog} (h : (do let x ← d; f x) = .ok c') : ∃ x, d = .ok x ∧ f x = .ok c' := by
  cases d with
  | error e => cases h
  | ok x => exact ⟨x, rfl, h⟩

theorem nodup_names {actions : List Action} {outputs : List OutputHandler}
    {inputs : List InputHandler} {c : Catalog} (h : ofLists actions outputs inputs = .ok c) :
    (c.actions.map (·.name)).Nodup := by
  obtain ⟨c₁, hactions, h⟩ := bind_eq_ok h
  obtain ⟨c₂, houtputs, hinputs⟩ := bind_eq_ok h
  have h₁ : (c₁.actions.map (·.name)).Nodup :=
    foldlM_keeps (fun _ _ _ => nodup_addAction) hactions List.nodup_nil
  have h₂ : c₂.actions = c₁.actions := by
    refine foldlM_keeps (I := fun d => d.actions = c₁.actions) (fun d x d' hx hd => ?_) houtputs rfl
    unfold addOutput at hx
    split at hx <;> cases hx
    exact hd
  have h₃ : c.actions = c₂.actions := by
    refine foldlM_keeps (I := fun d => d.actions = c₂.actions) (fun d x d' hx hd => ?_) hinputs rfl
    unfold addInput at hx
    split at hx <;> cases hx
    exact hd
  rwa [h₃, h₂]

theorem pairwise_of_checkOwners {owners : List (String × String)} {actions : List Action}
    (h : checkOwners owners actions = .ok ()) :
    actions.Pairwise KeepApart ∧
      ∀ a ∈ actions, ∀ m, a.memory = some m → owners.lookup m.key = none := by
  induction actions generalizing owners with
  | nil => exact ⟨.nil, by simp⟩
  | cons a as ih =>
    unfold checkOwners at h
    split at h
    · rename_i hnone
      obtain ⟨hpairs, hfree⟩ := ih h
      refine ⟨.cons (fun b _ m m' hm => ?_) hpairs, fun b hb m hm => ?_⟩
      · rw [hnone] at hm
        cases hm
      · rcases List.mem_cons.mp hb with rfl | hb
        · rw [hnone] at hm
          cases hm
        · exact hfree b hb m hm
    · rename_i m hsome
      split at h
      · cases h
      · rename_i hlookup
        obtain ⟨hpairs, hfree⟩ := ih h
        have hlater (b : Action) (hb : b ∈ as) (m' : ActionMemory) (hm' : b.memory = some m') :
            m'.key ≠ m.key ∧ owners.lookup m'.key = none := by
          have hnone := hfree b hb m' hm'
          rw [List.lookup_cons] at hnone
          split at hnone
          · cases hnone
          · rename_i hne
            exact ⟨beq_eq_false_iff_ne.mp hne, hnone⟩
        refine ⟨.cons (fun b hb m₁ m' hm₁ hm' => ?_) hpairs, fun b hb m' hm' => ?_⟩
        · rw [hsome] at hm₁
          cases hm₁
          exact (hlater b hb m' hm').1.symm
        · rcases List.mem_cons.mp hb with rfl | hb
          · rw [hsome] at hm'
            cases hm'
            exact hlookup
          · exact (hlater b hb m' hm').2

/-- A catalog that was registered and is valid has owners for names and keys. -/
theorem owned_of_validate {actions : List Action} {outputs : List OutputHandler}
    {inputs : List InputHandler} {c : Catalog} (h : ofLists actions outputs inputs = .ok c)
    (hvalid : c.validate = .ok ()) : Owned c.actions := by
  refine ⟨nodup_names h, ?_⟩
  unfold validate at hvalid
  split at hvalid
  · cases hvalid
  · exact (pairwise_of_checkOwners hvalid).1

namespace Owned

variable {actions : List Action}

theorem eq_of_name (h : Owned actions) (ha : a ∈ actions) (hb : b ∈ actions)
    (hname : a.name = b.name) : a = b := List.inj_on_of_nodup_map h.names ha hb hname

theorem eq_of_key (h : Owned actions) (ha : a ∈ actions) (hb : b ∈ actions)
    (hm : a.memory = some m) (hm' : b.memory = some m') (hkey : m.key = m'.key) : a = b := by
  by_contra hne
  have : Std.Symm KeepApart := ⟨fun _ _ hapart m m' hm hm' => (hapart m' m hm' hm).symm⟩
  exact h.keys.forall ha hb hne m m' hm hm' hkey

end Owned

end Catalog

namespace Action

theorem mem_of_mem_prepare {actions : List Action} {context : ContextState}
    {subContexts : List ContextState} {memory : WorkingMemory} {b : BoundAction}
    (h : b ∈ prepare actions context subContexts memory) : b.action ∈ actions := by
  obtain ⟨a, ha, hbind⟩ := List.mem_filterMap.mp h
  obtain ⟨c, _, hbound⟩ := Option.bind_eq_some_iff.mp hbind
  split at hbound
  · cases hbound
    exact ha
  · cases hbound

end Action

theorem PreparedCall.mem_of_ofCall {actions : List BoundAction} {call : Entry.Call}
    {p : PreparedCall} (h : ofCall actions call = .ok p) : p.action ∈ actions := by
  unfold ofCall at h
  split at h
  · cases h
  · rename_i b hfind
    split at h
    · cases h
    · cases h
      exact List.mem_of_find?_eq_some hfind

end TagLedger
