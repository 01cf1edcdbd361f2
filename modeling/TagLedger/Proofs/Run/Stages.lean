import Mathlib.Tactic.Common
import TagLedger.Proofs.Run.Accounts
import TagLedger.Proofs.Run.Conduct
import TagLedger.Proofs.Run.Saves

/-!
The stages of a call in its action. They are read off the steps of its task: from the phases before
and after, from the operations of the store, and from the messages that are sent.
-/

namespace TagLedger

inductive Stage where
  | loads (slice : Json)
  | attempts (number : Nat) (slice : Json)
  /-- The hook after an error begins. -/
  | recovers (slice : Json)
  /-- The store is asked to keep a slice. -/
  | keeps (slice : Json)
  /-- The hook after a success begins. -/
  | follows (result : Entry.Result)
  | ends (result : Entry.Result)
deriving DecidableEq, Repr

namespace Phase

def slice : Phase → Json
  | .working v _ => v
  | .recovering v _ => v
  | .concluding v _ => v
  | .succeeding v _ _ => v
  | _ => .null

/-- What begins in a step from one phase to another. -/
def stages : Phase → Phase → List Stage
  | .loading, .working v _ => [.loads v]
  | .working _ (.admitted _), .working v (.attempting n _) => [.attempts n v]
  | .working _ _, .recovering v _ => [.recovers v]
  | .concluding _ _, .succeeding _ result _ => [.follows result]
  | _, _ => []

/-- What the operations of the store tell of a step that begins in a phase. The memory of an action
is read while it is loaded; every other operation is for keeping a slice. -/
def storing (before after : Store) : Phase → List Stage
  | .loading => []
  | p => if after.operations = before.operations then [] else [.keeps p.slice]

theorem storing_self (s : Store) (p : Phase) : p.storing s s = [] := by
  cases p <;> simp [storing]

end Phase

def Message.endings (ms : List Message) : List Stage := (ms.filterMap completed?).map .ends

namespace Run

def staged (r : Run) (i : Nat) : List Stage :=
  let r' := r.stepTask i
  match r.tasks[i]?, r'.tasks[i]? with
  | some t, some t' =>
    t.phase.storing r.store r'.store ++ t.phase.stages t'.phase ++
      Message.endings (r'.inbox.drop r.inbox.length)
  | _, _ => []

/-- The stages of call `i` that a schedule brings about. -/
def stagesIn (i : Nat) : List Move → Run → List Stage
  | [], _ => []
  | .task j :: ms, r => (if j = i then r.staged i else []) ++ stagesIn i ms (r.apply (.task j))
  | m :: ms, r => stagesIn i ms (r.apply m)

variable {i : Nat} {t t' : CallTask} {sent : List Message} {r r' : Run}

theorem stagesIn_concat_self (i : Nat) (ms : List Move) (r : Run) :
    stagesIn i (ms ++ [.task i]) r = stagesIn i ms r ++ (r.applyAll ms).staged i := by
  induction ms generalizing r with
  | nil => simp [stagesIn, applyAll]
  | cons m ms ih =>
    have hrest : (r.applyAll (m :: ms)) = (r.apply m).applyAll ms := rfl
    cases m <;> simp [stagesIn, ih, hrest]

theorem stagesIn_concat_of_ne {m : Move} (hm : m ≠ .task i) (ms : List Move) (r : Run) :
    stagesIn i (ms ++ [m]) r = stagesIn i ms r := by
  induction ms generalizing r with
  | nil =>
    cases m with
    | task j =>
      have hj : j ≠ i := fun hj => hm (hj ▸ rfl)
      simp [stagesIn, hj]
    | _ => rfl
  | cons m' ms ih => cases m' <;> simp [stagesIn, ih]

inductive MovedOn (k : Nat) (m : Move) (q q' : Run) (log log' : List Stage) : Prop where
  | own (hm : m = .task k) (hs : q.stepTask? k = some q') (hlog : log' = log ++ q.staged k)
  | other {j : Nat} (hj : j ≠ k) (hs : q.stepTask? j = some q') (hlog : log' = log)
  | aside (ha : Aside q q') (hlog : log' = log)

theorem staged_of_stepTask? (hs : r.stepTask? i = some r') (ht : r.tasks[i]? = some t)
    (h : Conduct i r t t' sent r') :
    r.staged i = t.phase.storing r.store r'.store ++ t.phase.stages t'.phase ++
      Message.endings sent := by
  have hsteps := h.steps ht
  have hstep : r.stepTask i = r' := by rw [stepTask, hs, Option.getD_some]
  simp only [staged, hstep, ht, hsteps.after, hsteps.inbox, List.drop_left]

theorem staged_of_none (hs : r.stepTask? i = none) : r.staged i = [] := by
  have hstep : r.stepTask i = r := by rw [stepTask, hs, Option.getD_none]
  have hsame (p : Phase) : p.stages p = [] := by
    cases p with
    | working v job => cases job <;> rfl
    | _ => rfl
  cases ht : r.tasks[i]? with
  | none => simp [staged, hstep, ht]
  | some t => simp [staged, hstep, ht, hsame, Phase.storing_self, Message.endings]

theorem movedOn_concat (k : Nat) (ms : List Move) (m : Move) (r : Run) :
    MovedOn k m (r.applyAll ms) (r.applyAll (ms ++ [m])) (stagesIn k ms r)
      (stagesIn k (ms ++ [m]) r) := by
  rw [applyAll_concat]
  by_cases hm : ∃ j, m = .task j
  · obtain ⟨j, rfl⟩ := hm
    rw [apply, stepTask]
    by_cases hj : j = k
    · subst hj
      rw [stagesIn_concat_self]
      cases hs : (r.applyAll ms).stepTask? j with
      | none => exact .aside (.refl _) (by rw [staged_of_none hs, List.append_nil])
      | some q => exact .own rfl hs rfl
    · rw [stagesIn_concat_of_ne (by simpa using hj)]
      cases hs : (r.applyAll ms).stepTask? j with
      | none => exact .aside (.refl _) rfl
      | some q => exact .other hj hs rfl
  · rw [stagesIn_concat_of_ne fun h => hm ⟨k, h⟩]
    exact .aside (.apply (fun j hj => hm ⟨j, hj⟩) _) rfl

/-- The step in which the memory of the action is loaded. -/
theorem staged_loading (ht : r.tasks[i]? = some t) (hp : t.phase = .loading)
    (hs : r.stepTask? i = some r') :
    r.staged i = [.loads (r.loaded t.action.action)] ∧
      r'.tasks[i]? = some { t with phase := .working (r.loaded t.action.action) .asking } ∧
        r'.cancelled = r.cancelled := by
  have hstep : r.stepTask i = r' := by rw [stepTask, hs, Option.getD_some]
  obtain rfl := Option.some.inj ((stepTask?_loading ht hp).symm.trans hs)
  have hafter := getElem?_setPhase_self (r := { r with store := r.readStore t.action.action }) ht
    (.working (r.loaded t.action.action) .asking)
  refine ⟨?_, hafter, rfl⟩
  have hinbox : (r.stepTask i).inbox = r.inbox := by rw [hstep]; rfl
  rw [← hstep] at hafter
  simp [staged, ht, hafter, hinbox, hp, Phase.storing, Phase.stages, Message.endings]

end Run

end TagLedger
