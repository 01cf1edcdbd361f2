import Mathlib.Tactic.Common
import TagLedger.Proofs.Run.Course

/-!
The store under the key of one call. If nobody else uses the key, its value changes only in the step
in which the call keeps its slice.
-/

namespace TagLedger

namespace Stage

def kept? : Stage → Option Json
  | .keeps v => some v
  | _ => none

def kept (log : List Stage) : List Json := log.filterMap kept?

@[simp] theorem kept_append (log log' : List Stage) : kept (log ++ log') = kept log ++ kept log' :=
  List.filterMap_append

@[simp] theorem kept_endings (ms : List Message) : kept (Message.endings ms) = [] := by
  simp [kept, Message.endings, kept?]

@[simp] theorem kept_stages (p p' : Phase) : kept (p.stages p') = [] := by
  unfold Phase.stages
  split <;> rfl

end Stage

structure Store.Spared (key : String) (s s' : Store) : Prop where
  readFault : s'.readFault = s.readFault
  writeFault : s'.writeFault = s.writeFault
  value : s'.value? key = s.value? key

namespace Store.Spared

variable {key other : String} {s s' s'' : Store}

theorem refl (key : String) (s : Store) : Spared key s s := ⟨rfl, rfl, rfl⟩

theorem trans (h : Spared key s s') (h' : Spared key s' s'') : Spared key s s'' where
  readFault := h'.readFault.trans h.readFault
  writeFault := h'.writeFault.trans h.writeFault
  value := h'.value.trans h.value

theorem read (key other : String) (s : Store) : Spared key s (s.read other).2 :=
  ⟨readFault_read s other, writeFault_read s other, value?_read s other key⟩

theorem write (h : key ≠ other) (s : Store) (v : Json) : Spared key s (s.write other v).2 :=
  ⟨readFault_write s other v, writeFault_write s other v, value?_write_of_ne s v h⟩

end Store.Spared

namespace Run

variable {i j k : Nat} {t t' : CallTask} {sent : List Message} {r r' : Run} {key : String}
  {m : ActionMemory} {slice : Json}

inductive StoreUse (r : Run) (t : CallTask) (r' : Run) : Prop where
  | nothing (hs : r'.store = r.store)
  | reads {m : ActionMemory} (hp : t.phase = .loading) (hm : t.action.action.memory = some m)
    (hs : r'.store = (r.store.read m.key).2)
  | keeps {v : Json} {outcome : Except RunError Json} (hp : t.phase = .concluding v outcome)
    (hs : r'.store = (r.keepSlice t.action.action v).store)

theorem storeUse (ht : r.tasks[i]? = some t) (hs : r.stepTask? i = some r') :
    StoreUse r t r' := by
  obtain ⟨u, t', sent, hu, hconduct⟩ := stepTask?_conduct hs
  obtain rfl : t = u := Option.some.inj (ht.symm.trans hu)
  cases hconduct with
  | loads hp =>
    rw [Option.some.inj (hs.symm.trans (stepTask?_loading ht hp))]
    cases hm : t.action.action.memory with
    | none => exact .nothing (by simp only [setPhase, readStore, hm])
    | some m => exact .reads hp hm (by simp only [setPhase, readStore, hm])
  | works _ _ _ _ => exact .nothing (r.store_absorb _)
  | succeeds _ _ => exact .nothing r.store_giveBack
  | fails _ _ => exact .nothing r.store_giveBack
  | crashes _ _ _ => exact .nothing r.store_giveBack
  | recovers _ _ _ _ => exact .nothing (r.store_absorb _)
  | concludes hp _ _ _ => exact .keeps hp (store_keepSlice_draw _ _ r)
  | concludesError hp _ _ _ => exact .keeps hp (store_keepSlice_draw _ _ r)
  | follows _ _ _ _ => exact .nothing (r.store_absorb _)
  | _ => exact .nothing rfl

/-- The slices that a step keeps, by what it does to the store. -/
theorem kept_staged (ht : r.tasks[i]? = some t) (hs : r.stepTask? i = some r') :
    Stage.kept (r.staged i) = Stage.kept (t.phase.storing r.store r'.store) := by
  obtain ⟨u, t', sent, hu, hconduct⟩ := stepTask?_conduct hs
  obtain rfl : t = u := Option.some.inj (ht.symm.trans hu)
  rw [staged_of_stepTask? hs ht hconduct, Stage.kept_append, Stage.kept_append, Stage.kept_stages,
    Stage.kept_endings, List.append_nil, List.append_nil]

/-- A step of the call itself in which no slice is kept. -/
theorem spared_of_kept_nil (ht : r.tasks[i]? = some t) (hm : t.action.action.memory = some m)
    (hs : r.stepTask? i = some r') (hkept : Stage.kept (r.staged i) = []) :
    Store.Spared m.key r.store r'.store := by
  rw [kept_staged ht hs] at hkept
  cases storeUse ht hs with
  | nothing hstore =>
    rw [hstore]
    exact .refl _ _
  | reads _ _ hstore =>
    rw [hstore]
    exact .read _ _ _
  | keeps hp hstore =>
    rw [hp, hstore, storing_keepSlice, Action.keeps, hm] at hkept
    cases hkept

/-- A step of the call itself in which a slice is kept. -/
theorem store_of_kept (ht : r.tasks[i]? = some t) (hm : t.action.action.memory = some m)
    (hs : r.stepTask? i = some r') (hkept : Stage.kept (r.staged i) = [slice]) :
    r'.store = (r.store.write m.key slice).2 := by
  rw [kept_staged ht hs] at hkept
  cases storeUse ht hs with
  | nothing hstore =>
    rw [hstore, Phase.storing_self] at hkept
    cases hkept
  | reads hp _ _ =>
    rw [hp] at hkept
    cases hkept
  | @keeps v outcome hp hstore =>
    rw [hp, hstore, storing_keepSlice, Action.keeps, hm] at hkept
    obtain rfl : v = slice := (List.cons.inj hkept).1
    rw [hstore, keepSlice, hm]

/-- A step of a call whose action has no memory. -/
theorem store_of_no_memory (ht : r.tasks[i]? = some t) (hm : t.action.action.memory = none)
    (hs : r.stepTask? i = some r') : r'.store = r.store := by
  cases storeUse ht hs with
  | nothing hstore => exact hstore
  | reads _ hsome _ => cases hm.symm.trans hsome
  | keeps _ hstore => rw [hstore, keepSlice, hm]

/-- A step of another call, whose memory has another key. -/
theorem spared_of_other (ht : r.tasks[i]? = some t)
    (hm : ∀ m, t.action.action.memory = some m → m.key ≠ key) (hs : r.stepTask? i = some r') :
    Store.Spared key r.store r'.store := by
  cases storeUse ht hs with
  | nothing hstore =>
    rw [hstore]
    exact .refl _ _
  | reads _ _ hstore =>
    rw [hstore]
    exact .read _ _ _
  | keeps _ hstore =>
    rw [hstore, keepSlice]
    cases hmemory : t.action.action.memory with
    | none => exact .refl _ _
    | some m => exact .write (hm m hmemory).symm _ _

/-- Nobody but call `k` uses the key: working memory has another, and so have the memories of all
other calls. -/
structure Alone (key : String) (k : Nat) (r : Run) : Prop where
  apart : key ≠ r.memoryKey
  others : ∀ (j : Nat) t m, j ≠ k → r.tasks[j]? = some t → t.action.action.memory = some m →
    m.key ≠ key

theorem Alone.before (h : Alone key k r') (hg : Grows r r') : Alone key k r where
  apart := by
    have hsame : r'.memoryKey = r.memoryKey := by
      unfold memoryKey
      rw [hg.setup]
    exact hsame ▸ h.apart
  others := fun j t m hj ht hm => by
    obtain ⟨t', ht', hf⟩ := hg.tasks j t ht
    exact h.others j t' m hj ht' (hf.action ▸ hm)

/-- Over a schedule in which the call keeps no slice the value under its key stays as it is. -/
theorem spared_applyAll (ms : List Move) (r : Run) (halone : Alone m.key k (r.applyAll ms))
    (hown : ∀ t, (r.applyAll ms).tasks[k]? = some t → t.action.action.memory = some m)
    (hkept : Stage.kept (stagesIn k ms r) = []) :
    Store.Spared m.key r.store (r.applyAll ms).store := by
  induction ms using List.reverseRecOn with
  | nil => exact .refl _ _
  | append_singleton ms move ih =>
    have hgrows := r.applyAll_append_grows ms [move]
    have hbefore (t : CallTask) (ht : (r.applyAll ms).tasks[k]? = some t) :
        t.action.action.memory = some m := by
      obtain ⟨t', ht', hf⟩ := hgrows.tasks k t ht
      exact hf.action ▸ hown t' ht'
    have hearlier := halone.before hgrows
    cases movedOn_concat k ms move r with
    | own _ hs hlog =>
      rw [hlog, Stage.kept_append, List.append_eq_nil_iff] at hkept
      obtain ⟨t, _, _, ht, _⟩ := stepTask?_conduct hs
      exact (ih hearlier hbefore hkept.1).trans (spared_of_kept_nil ht (hbefore t ht) hs hkept.2)
    | other hj hs hlog =>
      rw [hlog] at hkept
      obtain ⟨t, _, _, ht, _⟩ := stepTask?_conduct hs
      have hother := spared_of_other ht (fun m' => hearlier.others _ t m' hj ht) hs
      exact (ih hearlier hbefore hkept).trans hother
    | aside ha hlog =>
      rw [hlog] at hkept
      exact (ih hearlier hbefore hkept).trans
        ⟨ha.readFault, ha.writeFault, ha.cells _ hearlier.apart⟩

/-- A slice that was kept alone was kept in one step of the call, and none before or after. -/
theorem exists_step_of_kept (ms : List Move) (r : Run)
    (hkept : Stage.kept (stagesIn k ms r) = [slice]) :
    ∃ before after, ms = before ++ .task k :: after ∧ Stage.kept (stagesIn k before r) = [] ∧
      Stage.kept ((r.applyAll before).staged k) = [slice] ∧
        Stage.kept (stagesIn k after (r.applyAll (before ++ [.task k]))) = [] := by
  induction ms using List.reverseRecOn with
  | nil => cases hkept
  | append_singleton ms move ih =>
    by_cases hmove : move = .task k
    · subst hmove
      rw [stagesIn_concat_self, Stage.kept_append, List.append_eq_singleton_iff] at hkept
      rcases hkept with ⟨hbefore, hlast⟩ | ⟨hbefore, hlast⟩
      · exact ⟨ms, [], rfl, hbefore, hlast, rfl⟩
      · obtain ⟨before, after, rfl, hnone, hone, hrest⟩ := ih hbefore
        refine ⟨before, after ++ [.task k], by simp, hnone, hone, ?_⟩
        rw [stagesIn_concat_self, Stage.kept_append, hrest, List.nil_append, ← applyAll_append]
        simpa using hlast
    · rw [stagesIn_concat_of_ne hmove] at hkept
      obtain ⟨before, after, rfl, hnone, hone, hrest⟩ := ih hkept
      refine ⟨before, after ++ [move], by simp, hnone, hone, ?_⟩
      rwa [stagesIn_concat_of_ne hmove]

end Run

end TagLedger
