import Mathlib.Tactic.Common
import TagLedger.Action.Basic
import TagLedger.Entry.Basic
import TagLedger.Proofs.Action.Moves
import TagLedger.Proofs.Runner.Turn

/-!
Actions whose outcome depends on the data of their call alone. An attempt may read its memory, wait
and ask for the time as it likes, as long as it always comes to the same; then so do all attempts
together, and the hooks after them, and the data of the result.
-/

namespace TagLedger

def Post.IsNoCall : Post → Prop
  | .event _ _ => True
  | .entry e => e.finished.kind ≠ .call

namespace Script

variable {α : Type} {Q : Post → Prop} {P : Option α → Prop}

/-- The script ends as `P` says, where breaking down is no value, and what it posts satisfies `Q`.
Only runs that are never cancelled are considered. -/
def Gives (Q : Post → Prop) (P : Option α → Prop) : Script α → Prop
  | .done a => P (some a)
  | .crash => P none
  | .sleep _ next => next.Gives Q P
  | .sleepUntil _ next => next.Gives Q P
  | .awaitCancel _ => True
  | .readMemory next => ∀ v, (next v).Gives Q P
  | .writeMemory _ next => next.Gives Q P
  | .post p next => Q p ∧ next.Gives Q P
  | .cancel _ => True
  | .isCancelled next => (next false).Gives Q P

/-- One step of a script that is not cancelled keeps the condition. -/
theorem Gives.of_moved {s s' : Script α} {scene scene' : Scene} (h : s.Gives Q P)
    (hs : s.step scene = .moved s' scene') (hposts : scene.posts = [])
    (hcancel : scene.cancelled = false) (hcancel' : scene'.cancelled = false) :
    s'.Gives Q P ∧ ∀ p ∈ scene'.posts, Q p := by
  have hnone : ∀ p ∈ scene.posts, Q p := by
    rw [hposts]
    simp
  cases moves_of_step hs with
  | awaitCancel hc => cases hcancel.symm.trans hc
  | readMemory => exact ⟨h _, hnone⟩
  | post =>
    refine ⟨h.2, fun p hp => ?_⟩
    rw [hposts, List.nil_append] at hp
    rw [List.mem_singleton.mp hp]
    exact h.1
  | cancel => cases hcancel'
  | isCancelled =>
    rw [hcancel]
    exact ⟨h, hnone⟩
  | _ => exact ⟨h, hnone⟩

theorem Gives.of_finished {s : Script α} {scene : Scene} {a : α} (h : s.Gives Q P)
    (hs : s.step scene = .finished a) : P (some a) := by
  obtain rfl := eq_done_of_step hs
  exact h

theorem Gives.of_crashed {s : Script α} {scene : Scene} (h : s.Gives Q P)
    (hs : s.step scene = .crashed) : P none := by
  obtain rfl := eq_crash_of_step hs
  exact h

end Script

/-- What an action does to data: what its attempts come to, what becomes of an error, and whether
the hook after a success breaks down. Breaking down is no value. -/
structure Behaviour where
  attempt : (data : Json) → (attempt : Nat) → Option (Except RunError Json)
  recover : (data : Json) → RunError → Option (Except RunError Json)
  breaks : (data result : Json) → Bool

namespace Behaviour

/-- The action behaves like that, whatever its memory, the time and the rest of the run are like.
Attempts and hooks post no calls. -/
structure Describes (b : Behaviour) (a : Action) : Prop where
  execute : ∀ executions attempt data view,
    (a.execute executions attempt data view).Gives Post.IsNoCall fun o =>
      o = b.attempt data attempt
  onError : ∀ err view, (a.onError err view).Gives Post.IsNoCall fun o =>
    o = b.recover (view.call.data.getD .null) err
  onSuccess : ∀ result view, (a.onSuccess result view).Gives Post.IsNoCall fun o =>
    o.isNone = b.breaks (view.call.data.getD .null) result.data

variable {b : Behaviour} {data : Json}

/-- What the attempts from one number on come to, when so many retries are left. -/
def outcome (b : Behaviour) (data : Json) : (left attempt : Nat) → Option (Except RunError Json)
  | 0, n => b.attempt data n
  | left + 1, n =>
    match b.attempt data n with
    | some (.error .aborted) => some (.error .aborted)
    | some (.error _) => b.outcome data left (n + 1)
    | other => other

/-- An attempt that breaks down ends the attempts. -/
theorem outcome_of_crash {left n : Nat} (h : b.attempt data n = none) :
    b.outcome data left n = none := by
  cases left with
  | zero => exact h
  | succ left =>
    rw [outcome, h]

/-- So does one whose outcome is the last. -/
theorem outcome_of_last {rule : Runner.RetryRule} {n : Nat} {o : Except RunError Json}
    (h : b.attempt data n = some o) (hlast : Runner.Job.IsLast rule n o) :
    b.outcome data (rule.retries - n) n = some o := by
  cases hleft : rule.retries - n with
  | zero => exact h
  | succ left =>
    rw [outcome, h]
    cases o with
    | ok v => rfl
    | error err =>
      by_cases herr : err = .aborted
      · rw [herr]
      · have hle := hlast err rfl herr
        omega

/-- A failure is followed by the next attempt while retries are left. -/
theorem outcome_of_failure {rule : Runner.RetryRule} {n : Nat} {err : RunError}
    (h : b.attempt data n = some (.error err)) (herr : err ≠ .aborted) (hn : n < rule.retries) :
    b.outcome data (rule.retries - n) n = b.outcome data (rule.retries - (n + 1)) (n + 1) := by
  have hleft : rule.retries - n = rule.retries - (n + 1) + 1 := by omega
  rw [hleft, outcome, h]
  cases err with
  | aborted => exact absurd rfl herr
  | _ => rfl

def settle (b : Behaviour) (data : Json) :
    Option (Except RunError Json) → Option (Except RunError Json)
  | some (.error err) => b.recover data err
  | other => other

def resultOf (b : Behaviour) (data : Json) : Option (Except RunError Json) → Json
  | none => Entry.Result.errorData "action handler panicked"
  | some (.error err) => Entry.Result.errorData err.message
  | some (.ok v) =>
    if b.breaks data v then Entry.Result.errorData "action handler panicked" else v

/-- The data of the result of a call with that data. -/
def result (b : Behaviour) (retries : Nat) (data : Json) : Json :=
  b.resultOf data (b.settle data (b.outcome data retries 0))

theorem result_of_outcome {retries : Nat} {o : Option (Except RunError Json)}
    (h : b.outcome data retries 0 = o) :
    b.resultOf data (b.settle data o) = b.result retries data := by
  rw [← h, result]

end Behaviour

end TagLedger
