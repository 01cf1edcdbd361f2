import Mathlib.Tactic.Common
import Mathlib.Tactic.Linarith
import TagLedger.Memory.Retention

/-!
Retention does not depend on when it happens. Between entries that are pushed, working memory may be
trimmed at any time; once it is trimmed at the end, every category has the last of all elements that
ever stood in it, as many as its limit allows, and what was dropped on the way makes up the rest.
-/

namespace TagLedger

/-- A category of working memory: the entries that go there, the elements that stand there, and how
many of them are kept, if there is a limit. -/
structure Category where
  Item : Type
  item? : Entry → Option Item
  items : WorkingMemory → List Item
  limit? : Retention → Option Nat

namespace Category

def runs : Category where
  Item := Entry.Run
  item? | .run e => some e | _ => none
  items m := m.runs
  limit? r := some r.maxRuns

def steps : Category where
  Item := Entry.Step
  item? | .step e => some e | _ => none
  items m := m.steps
  limit? r := if r.clearSteps then some 0 else none

def inputs : Category where
  Item := Entry.Input
  item? | .input e => some e | _ => none
  items m := m.inputs
  limit? r := some r.maxInputs

def outputs : Category where
  Item := Entry.Output
  item? | .output e => some e | _ => none
  items m := m.outputs
  limit? r := some r.maxOutputs

def calls : Category where
  Item := Entry.Call
  item? | .call e => some e | _ => none
  items m := m.calls
  limit? r := some r.maxCalls

def results : Category where
  Item := Entry.Result
  item? | .result e => some e | _ => none
  items m := m.results
  limit? r := some r.maxResults

def events : Category where
  Item := Entry.Event
  item? | .event e => some e | _ => none
  items m := m.events
  limit? r := some r.maxEvents

def thoughts : Category where
  Item := Entry.Thought
  item? | .thought e => some e | _ => none
  items m := m.thoughts
  limit? r := some r.maxThoughts

def all : List Category := [runs, steps, inputs, outputs, calls, results, events, thoughts]

/-- What is left of all elements of a category: the last ones up to the limit, or all of them. -/
def Kept (c : Category) (r : Retention) (whole kept : List c.Item) : Prop :=
  match c.limit? r with
  | none => kept = whole
  | some max => kept <:+ whole ∧ kept.length = min max whole.length

end Category

namespace Retention

variable {α : Type}

theorem keepLast_suffix (max : Nat) (xs : List α) : keepLast max xs <:+ xs := List.drop_suffix _ _

theorem length_keepLast (max : Nat) (xs : List α) :
    (keepLast max xs).length = min max xs.length := by
  rw [keepLast, List.length_drop]
  omega

/-- The last elements of a list are those of what an earlier cut has left and what came after it. -/
theorem keepLast_keepLast_append (max : Nat) (xs ys : List α) :
    keepLast max (keepLast max xs ++ ys) = keepLast max (xs ++ ys) := by
  have hcut : keepLast max xs ++ ys = (xs ++ ys).drop (xs.length - max) := by
    rw [keepLast, List.drop_append_of_le_length (Nat.sub_le _ _)]
  have hboth : xs.length - max + ((xs ++ ys).length - (xs.length - max) - max) =
      (xs ++ ys).length - max := by
    rw [List.length_append]
    omega
  rw [hcut, keepLast, List.length_drop, List.drop_drop, hboth, keepLast]

end Retention

namespace Category

variable {c : Category} {r : Retention} {whole : List c.Item}

/-- A category cut to its limit. -/
def keep (c : Category) (r : Retention) (whole : List c.Item) : List c.Item :=
  match c.limit? r with
  | none => whole
  | some max => Retention.keepLast max whole

theorem keep_kept : c.Kept r whole (c.keep r whole) := by
  unfold Kept keep
  cases c.limit? r with
  | none => rfl
  | some max => exact ⟨Retention.keepLast_suffix max whole, Retention.length_keepLast max whole⟩

theorem keep_keep_append (more : List c.Item) :
    c.keep r (c.keep r whole ++ more) = c.keep r (whole ++ more) := by
  unfold keep
  cases c.limit? r with
  | none => rfl
  | some max => exact Retention.keepLast_keepLast_append max whole more

/-- A category with one more element, if the entry is one of it. -/
def add (c : Category) (items : List c.Item) (e : Entry) : List c.Item :=
  match c.item? e with
  | none => items
  | some x => items ++ [x]

structure Lawful (c : Category) : Prop where
  push : ∀ m e, c.items (m.push e) = c.add (c.items m) e
  trim : ∀ r m, c.items (r.trim m) = c.keep r (c.items m)

theorem lawful_steps : steps.Lawful where
  push := by
    intro m e
    cases e <;> rfl
  trim := by
    intro r m
    cases hclear : r.clearSteps <;>
      simp [steps, keep, Retention.trim, Retention.keepLast, hclear]

theorem lawful_of_mem (h : c ∈ all) : c.Lawful := by
  simp only [all, List.mem_cons, List.not_mem_nil, or_false] at h
  rcases h with rfl | rfl | rfl | rfl | rfl | rfl | rfl | rfl
  case inr.inl => exact lawful_steps
  all_goals
    refine ⟨fun m e => ?_, fun _ _ => rfl⟩
    cases e <;> rfl

theorem add_append (c : Category) (items : List c.Item) (e : Entry) (es : List Entry) :
    c.add items e ++ es.filterMap c.item? = items ++ (e :: es).filterMap c.item? := by
  cases h : c.item? e <;> simp [add, h]

end Category

namespace WorkingMemory

def Sizes.total (s : Sizes) : Nat :=
  s.runs + s.steps + s.inputs + s.outputs + s.calls + s.results + s.events + s.thoughts

theorem total_push (m : WorkingMemory) (e : Entry) :
    (m.push e).sizes.total = m.sizes.total + 1 := by
  cases e <;> simp only [push, sizes, Sizes.total, List.length_append, List.length_singleton] <;>
    omega

inductive Change where
  | push (entry : Entry)
  | trim

def pushed (changes : List Change) : List Entry :=
  changes.filterMap fun
    | .push e => some e
    | .trim => none

theorem pushed_append (cs ds : List Change) : pushed (cs ++ ds) = pushed cs ++ pushed ds :=
  List.filterMap_append

end WorkingMemory

open WorkingMemory (Change pushed)

namespace Retention

variable {r : Retention} {m : WorkingMemory}

def change (r : Retention) (m : WorkingMemory) : Change → WorkingMemory
  | .push e => m.push e
  | .trim => r.trim m

def changeAll (r : Retention) (m : WorkingMemory) (changes : List Change) : WorkingMemory :=
  changes.foldl r.change m

/-- How many elements the trimmings among the changes say that they drop. -/
def droppedIn (r : Retention) (m : WorkingMemory) : List Change → Nat
  | [] => 0
  | .push e :: changes => r.droppedIn (m.push e) changes
  | .trim :: changes => r.dropped m + r.droppedIn (r.trim m) changes

/-- Trimming says how many elements it drops. -/
theorem dropped_add_total (r : Retention) (m : WorkingMemory) :
    r.dropped m + (r.trim m).sizes.total = m.sizes.total := by
  have hcut {α : Type} (max : Nat) (xs : List α) :
      (keepLast max xs).length + (xs.length - max) = xs.length := by
    rw [length_keepLast]
    omega
  have hsteps : (if r.clearSteps then [] else m.steps).length +
      (if r.clearSteps then m.steps.length else 0) = m.steps.length := by
    cases r.clearSteps <;> simp
  have hruns := hcut r.maxRuns m.runs
  have hinputs := hcut r.maxInputs m.inputs
  have houtputs := hcut r.maxOutputs m.outputs
  have hcalls := hcut r.maxCalls m.calls
  have hresults := hcut r.maxResults m.results
  have hevents := hcut r.maxEvents m.events
  have hthoughts := hcut r.maxThoughts m.thoughts
  simp only [dropped, trim, WorkingMemory.sizes, WorkingMemory.Sizes.total]
  linarith

theorem droppedIn_add_total (r : Retention) (m : WorkingMemory) (changes : List Change) :
    r.droppedIn m changes + (r.changeAll m changes).sizes.total =
      m.sizes.total + (pushed changes).length := by
  induction changes generalizing m with
  | nil => exact Nat.zero_add _
  | cons c changes ih =>
    cases c with
    | push e =>
      calc r.droppedIn (m.push e) changes + (r.changeAll (m.push e) changes).sizes.total
          = (m.push e).sizes.total + (pushed changes).length := ih (m.push e)
        _ = m.sizes.total + (pushed (.push e :: changes)).length := by
            rw [WorkingMemory.total_push]
            exact Nat.add_right_comm _ _ _
    | trim =>
      calc r.dropped m + r.droppedIn (r.trim m) changes +
            (r.changeAll (r.trim m) changes).sizes.total
          = r.dropped m + ((r.trim m).sizes.total + (pushed changes).length) := by
            rw [Nat.add_assoc, ih (r.trim m)]
        _ = m.sizes.total + (pushed changes).length := by
            rw [← Nat.add_assoc, dropped_add_total]

theorem episodes_changeAll (r : Retention) (m : WorkingMemory) (changes : List Change) :
    (r.changeAll m changes).episodes = m.episodes := by
  induction changes generalizing m with
  | nil => rfl
  | cons c changes ih =>
    have hone : (r.change m c).episodes = m.episodes := by
      cases c with
      | push e => cases e <;> rfl
      | trim => rfl
    exact (ih (r.change m c)).trans hone

/-- Cut to its limit, a category shows nothing of the trimmings on the way. -/
theorem keep_changeAll {c : Category} (hc : c.Lawful) (r : Retention) (m : WorkingMemory)
    (changes : List Change) :
    c.keep r (c.items (r.changeAll m changes)) =
      c.keep r (c.items m ++ (pushed changes).filterMap c.item?) := by
  induction changes generalizing m with
  | nil => exact congrArg (c.keep r) (List.append_nil _).symm
  | cons d changes ih =>
    refine (ih (r.change m d)).trans ?_
    cases d with
    | push e =>
      rw [change, hc.push, Category.add_append]
      rfl
    | trim =>
      rw [change, hc.trim, Category.keep_keep_append]
      rfl

/-- However often working memory was trimmed on the way, in the end each category has the last of
its elements up to its limit, recalled episodes are left alone, and what was said to be dropped is
what is missing. -/
theorem kept_of_trimmed_last (r : Retention) (m : WorkingMemory) (changes : List Change) :
    let last := r.changeAll m (changes ++ [.trim])
    (∀ c ∈ Category.all,
      c.Kept r (c.items m ++ (pushed changes).filterMap c.item?) (c.items last)) ∧
      last.episodes = m.episodes ∧
      r.droppedIn m (changes ++ [.trim]) + last.sizes.total =
        m.sizes.total + (pushed changes).length := by
  intro last
  have hlast : last = r.trim (r.changeAll m changes) := List.foldl_append
  refine ⟨fun c hc => ?_, r.episodes_changeAll m _, ?_⟩
  · have hlawful := Category.lawful_of_mem hc
    rw [hlast, hlawful.trim, keep_changeAll hlawful]
    exact Category.keep_kept
  · have htotal := r.droppedIn_add_total m (changes ++ [.trim])
    rwa [WorkingMemory.pushed_append, List.length_append] at htotal

end Retention

end TagLedger
