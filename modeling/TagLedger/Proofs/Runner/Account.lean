import Mathlib.Data.List.Chain
import Mathlib.Tactic.Common
import TagLedger.Proofs.Action.Runs
import TagLedger.Proofs.Runner.Limit

/-!
What the tasks of a batch do, one deed after the other, and what follows from it. A task makes its
attempts in order, each after a failure of the one before; what an attempt returns is what its
script comes to, begun in the scene of its beginning. The task ends with the deed that decides its
outcome.
-/

namespace TagLedger.Runner

inductive Deed where
  | begins (attempt : Nat)
  | returns (attempt : Nat) (outcome : Except RunError Json)
  | breaks (attempt : Nat)
  /-- The cancellation is found before an attempt or in a pause. -/
  | findsCancelled

namespace Deed

def begun? : Deed → Option Nat
  | .begins n => some n
  | _ => none

/-- The outcome of the task that a deed decides: a success, an abortion, or the failure of the last
attempt. -/
def verdict? (retries : Nat) : Deed → Option (Except RunError Json)
  | .begins _ => none
  | .returns _ (.ok v) => some (.ok v)
  | .returns _ (.error .aborted) => some (.error .aborted)
  | .returns n (.error err) => if n = retries then some (.error err) else none
  | .breaks _ => some Batch.broken
  | .findsCancelled => some (.error .aborted)

theorem verdict?_error {err : RunError} (herr : err ≠ .aborted) (retries n : Nat) :
    (Deed.returns n (.error err)).verdict? retries =
      if n = retries then some (.error err) else none := by
  cases err with
  | aborted => contradiction
  | _ => rfl

end Deed

structure Note where
  scene : Scene
  deed : Deed

namespace Note

def begun? (x : Note) : Option Nat := x.deed.begun?

def verdict? (retries : Nat) (x : Note) : Option (Except RunError Json × Nat) :=
  (x.deed.verdict? retries).map fun outcome => (outcome, x.scene.now)

end Note

def Job.deed? (scene : Scene) : Job → Option Deed
  | .admitted n => some (if scene.cancelled then .findsCancelled else .begins n)
  | .attempting n script =>
    match script.step scene with
    | .finished outcome => some (.returns n outcome)
    | .crashed => some (.breaks n)
    | _ => none
  | .pausing _ _ => if scene.cancelled then some .findsCancelled else none
  | _ => none

def Job.notes (scene : Scene) (job : Job) : List Note :=
  (job.deed? scene).toList.map fun d => ⟨scene, d⟩

section

variable (attempt : Nat → Script (Except RunError Json)) (rule : RetryRule)

inductive Opens : Note → Prop where
  | begins {scene : Scene} (hc : scene.cancelled = false) : Opens ⟨scene, .begins 0⟩
  | cancelled {scene : Scene} (hc : scene.cancelled = true) : Opens ⟨scene, .findsCancelled⟩

/-- What a task notes next. An attempt that has been begun is run, and a failure is followed by the
next attempt as soon as the pause is over, unless cancellation is found before. -/
inductive Next : Note → Note → Prop where
  | returns {n : Nat} {scene scene' : Scene} {outcome : Except RunError Json}
    (hr : (attempt n).Reaches scene (.done outcome) scene') :
    Next ⟨scene, .begins n⟩ ⟨scene', .returns n outcome⟩
  | breaks {n : Nat} {scene scene' : Scene} (hr : (attempt n).Reaches scene .crash scene') :
    Next ⟨scene, .begins n⟩ ⟨scene', .breaks n⟩
  | begins {n : Nat} {scene scene' : Scene} {err : RunError} (herr : err ≠ .aborted)
    (hn : n < rule.retries) (hs : scene.now + delay rule.baseDelay n ≤ scene'.now)
    (hc : scene'.cancelled = false) :
    Next ⟨scene, .returns n (.error err)⟩ ⟨scene', .begins (n + 1)⟩
  | cancelled {n : Nat} {scene scene' : Scene} {err : RunError} (herr : err ≠ .aborted)
    (hn : n < rule.retries) (hc : scene'.cancelled = true) :
    Next ⟨scene, .returns n (.error err)⟩ ⟨scene', .findsCancelled⟩

/-- The notes of a task whose attempts before number `n` have all failed, and when the pause after
them is over. -/
inductive Rounds : Nat → Nat → List Note → Prop where
  | none : Rounds 0 0 []
  | fails {n time : Nat} {ns : List Note} {scene scene' : Scene} {err : RunError}
    (h : Rounds n time ns) (hs : time ≤ scene.now) (hc : scene.cancelled = false)
    (hr : (attempt n).Reaches scene (.done (.error err)) scene') (herr : err ≠ .aborted)
    (hn : n < rule.retries) :
    Rounds (n + 1) (scene'.now + delay rule.baseDelay n)
      (ns ++ [⟨scene, .begins n⟩, ⟨scene', .returns n (.error err)⟩])

inductive LastRound (n time : Nat) : List Note → Except RunError Json × Nat → Prop where
  | cancelled {scene : Scene} (hc : scene.cancelled = true) :
    LastRound n time [⟨scene, .findsCancelled⟩] (.error .aborted, scene.now)
  | returns {scene scene' : Scene} {outcome : Except RunError Json} (hs : time ≤ scene.now)
    (hc : scene.cancelled = false) (hr : (attempt n).Reaches scene (.done outcome) scene')
    (hlast : Job.IsLast rule n outcome) :
    LastRound n time [⟨scene, .begins n⟩, ⟨scene', .returns n outcome⟩] (outcome, scene'.now)
  | breaks {scene scene' : Scene} (hs : time ≤ scene.now) (hc : scene.cancelled = false)
    (hr : (attempt n).Reaches scene .crash scene') :
    LastRound n time [⟨scene, .begins n⟩, ⟨scene', .breaks n⟩] (Batch.broken, scene'.now)

/-- The notes of a task, where its deeds have brought its job by now, and its outcome. -/
inductive Tale (now : Scene) :
    List Note → Job → Option (Except RunError Json × Nat) → Prop where
  | asks : Tale now [] .asking none
  | waits : Tale now [] .queued none
  | admitted {n time : Nat} {ns : List Note} (h : Rounds attempt rule n time ns)
    (hs : time ≤ now.now) : Tale now ns (.admitted n) none
  | pauses {n time : Nat} {ns : List Note} (h : Rounds attempt rule n time ns) :
    Tale now ns (.pausing n time) none
  | attempts {n time : Nat} {ns : List Note} {scene : Scene}
    {script : Script (Except RunError Json)} (h : Rounds attempt rule n time ns)
    (hs : time ≤ scene.now) (hc : scene.cancelled = false)
    (hr : (attempt n).Reaches scene script now) :
    Tale now (ns ++ [⟨scene, .begins n⟩]) (.attempting n script) none
  | ended {n time : Nat} {ns last : List Note} {outcome : Except RunError Json × Nat}
    (h : Rounds attempt rule n time ns) (hlast : LastRound attempt rule n time last outcome) :
    Tale now (ns ++ last) .ended (some outcome)

end

/-- What the notes of a task tell of it. -/
structure Account (b : Batch) (t : BatchTask) (notes : List Note) : Prop where
  /-- Attempts are begun in order, and none is left out. -/
  numbered : notes.filterMap Note.begun? = List.range (notes.filterMap Note.begun?).length
  bounded : (notes.filterMap Note.begun?).length ≤ t.retries + 1
  first : ∀ x ∈ notes.head?, Opens x
  course : notes.IsChain (Next t.attempt (b.rule t))
  /-- The attempt that goes on was begun with the last deed, and this is what is left of it. -/
  running : ∀ n script, t.job = .attempting n script → ∃ scene,
    notes.getLast? = some ⟨scene, .begins n⟩ ∧ (t.attempt n).Reaches scene script b.scene
  decided : t.outcome = notes.findSome? (Note.verdict? t.retries)
  /-- Nothing is done any more after the deed that decides. -/
  final : ∀ x ∈ notes.dropLast, x.verdict? t.retries = none

variable {attempt : Nat → Script (Except RunError Json)} {rule : RetryRule} {n time : Nat}
  {ns : List Note} {scene scene' : Scene}

namespace Rounds

theorem le (h : Rounds attempt rule n time ns) : n ≤ rule.retries := by
  cases h with
  | none => exact Nat.zero_le _
  | fails _ _ _ _ _ hn => exact hn

theorem begun (h : Rounds attempt rule n time ns) :
    ns.filterMap Note.begun? = List.range n := by
  induction h with
  | none => rfl
  | fails _ _ _ _ _ _ ih =>
    rw [List.filterMap_append, ih, List.range_succ]
    rfl

theorem verdict (h : Rounds attempt rule n time ns) :
    ∀ x ∈ ns, x.verdict? rule.retries = Option.none := by
  induction h with
  | none => simp
  | fails h _ _ _ herr hn ih =>
    intro x hx
    rcases List.mem_append.mp hx with hx | hx
    · exact ih x hx
    · simp only [List.mem_cons, List.not_mem_nil, or_false] at hx
      rcases hx with rfl | rfl
      · rfl
      · simp [Note.verdict?, Deed.verdict?_error herr, Nat.ne_of_lt hn]

/-- The next attempt may begin when the pause is over. -/
theorem next_begins (h : Rounds attempt rule n time ns) (hs : time ≤ scene.now)
    (hc : scene.cancelled = false) :
    ∀ x ∈ ns.getLast?, Next attempt rule x ⟨scene, .begins n⟩ := by
  cases h with
  | none => simp
  | fails _ _ _ _ herr hn =>
    intro x hx
    rw [List.getLast?_append] at hx
    obtain rfl : _ = x := by simpa using hx
    exact .begins herr hn hs hc

theorem next_cancelled (h : Rounds attempt rule n time ns) (hc : scene.cancelled = true) :
    ∀ x ∈ ns.getLast?, Next attempt rule x ⟨scene, .findsCancelled⟩ := by
  cases h with
  | none => simp
  | fails _ _ _ _ herr hn =>
    intro x hx
    rw [List.getLast?_append] at hx
    obtain rfl : _ = x := by simpa using hx
    exact .cancelled herr hn hc

theorem course (h : Rounds attempt rule n time ns) : ns.IsChain (Next attempt rule) := by
  induction h with
  | none => exact .nil
  | fails h hs hc hr _ _ ih =>
    have hround : List.IsChain (Next attempt rule) [_, _] := .cons_cons (.returns hr) (.singleton _)
    refine ih.append hround fun x hx y hy => ?_
    cases hy
    exact h.next_begins hs hc x hx

theorem first (h : Rounds attempt rule n time ns) {rest : List Note}
    (hrest : n = 0 → ∀ x ∈ rest.head?, Opens x) : ∀ x ∈ (ns ++ rest).head?, Opens x := by
  induction h generalizing rest with
  | none => exact hrest rfl
  | fails h _ hc _ _ _ ih =>
    -- only the round of attempt 0 has nothing in front of it
    rw [List.append_assoc]
    refine ih fun hn x hx => ?_
    subst hn
    cases hx
    exact .begins hc

end Rounds

/-- A task has an outcome after an attempt that is the last. -/
theorem Rounds.verdict_of_last {outcome : Except RunError Json}
    (h : Rounds attempt rule n time ns) (hlast : Job.IsLast rule n outcome) :
    (Deed.returns n outcome).verdict? rule.retries = some outcome := by
  cases outcome with
  | ok v => rfl
  | error err =>
    by_cases herr : err = .aborted
    · rw [herr]
      rfl
    · have hn : n = rule.retries := Nat.le_antisymm h.le (hlast err rfl herr)
      rw [Deed.verdict?_error herr, if_pos hn]

namespace LastRound

variable {last : List Note} {outcome : Except RunError Json × Nat}

theorem begun (h : LastRound attempt rule n time last outcome) :
    last.filterMap Note.begun? = [] ∨ last.filterMap Note.begun? = [n] := by
  cases h with
  | cancelled hc => exact .inl rfl
  | returns hs hc hr hlast => exact .inr rfl
  | breaks hs hc hr => exact .inr rfl

theorem opens (h : LastRound attempt rule 0 time last outcome) : ∀ x ∈ last.head?, Opens x := by
  intro x hx
  cases h with
  | cancelled hc =>
    cases hx
    exact .cancelled hc
  | returns hs hc hr hlast =>
    cases hx
    exact .begins hc
  | breaks hs hc hr =>
    cases hx
    exact .begins hc

theorem course (h : LastRound attempt rule n time last outcome) :
    last.IsChain (Next attempt rule) := by
  cases h with
  | cancelled hc => exact .singleton _
  | returns hs hc hr hlast => exact .cons_cons (.returns hr) (.singleton _)
  | breaks hs hc hr => exact .cons_cons (.breaks hr) (.singleton _)

/-- The last round follows upon the rounds before. -/
theorem joins (h : LastRound attempt rule n time last outcome)
    (hrounds : Rounds attempt rule n time ns) :
    ∀ x ∈ ns.getLast?, ∀ y ∈ last.head?, Next attempt rule x y := by
  intro x hx y hy
  cases h with
  | cancelled hc =>
    cases hy
    exact hrounds.next_cancelled hc x hx
  | returns hs hc hr hlast =>
    cases hy
    exact hrounds.next_begins hs hc x hx
  | breaks hs hc hr =>
    cases hy
    exact hrounds.next_begins hs hc x hx

theorem decided (h : LastRound attempt rule n time last outcome)
    (hrounds : Rounds attempt rule n time ns) :
    last.findSome? (Note.verdict? rule.retries) = some outcome := by
  cases h with
  | cancelled hc => rfl
  | returns hs hc hr hlast =>
    rw [List.findSome?_cons, List.findSome?_cons]
    simp only [Note.verdict?, hrounds.verdict_of_last hlast]
    rfl
  | breaks hs hc hr => rfl

theorem final (h : LastRound attempt rule n time last outcome) :
    ∀ x ∈ last.dropLast, x.verdict? rule.retries = none := by
  intro x hx
  cases h with
  | cancelled hc => cases hx
  | returns hs hc hr hlast =>
    obtain rfl : x = _ := List.mem_singleton.mp hx
    rfl
  | breaks hs hc hr =>
    obtain rfl : x = _ := List.mem_singleton.mp hx
    rfl

end LastRound

/-- A job that waits does nothing that can be noticed. -/
theorem Job.deed?_of_waits {job : Job} (h : job.next rule scene = .waits) :
    job.deed? scene = none := by
  rcases eq_of_waits h with rfl | rfl | ⟨n, script, rfl, hs⟩ | ⟨n, time, rfl, hc, -⟩
  · rfl
  · rfl
  · simp [deed?, hs]
  · simp [deed?, hc]

namespace Tale

variable {now now' : Scene} {job job' : Job} {outcome : Option (Except RunError Json × Nat)}

/-- A task has an outcome just when it has ended. -/
theorem isSome_iff (h : Tale attempt rule now ns job outcome) : outcome.isSome ↔ job = .ended := by
  cases h <;> simp

/-- A task without a permit has done nothing yet. -/
theorem eq_nil_of_waits (h : Tale attempt rule now ns job outcome)
    (hjob : job = .asking ∨ job = .queued) : ns = [] ∧ outcome = none := by
  rcases hjob with rfl | rfl <;> cases h <;> exact ⟨rfl, rfl⟩

theorem later (h : Tale attempt rule now ns job outcome) (hl : now.Later now') :
    Tale attempt rule now' ns job outcome := by
  cases h with
  | asks => exact .asks
  | waits => exact .waits
  | admitted h hs => exact .admitted h (Nat.le_trans hs hl.now)
  | pauses h => exact .pauses h
  | attempts h hs hc hr => exact .attempts h hs hc (hr.later hl)
  | ended h hlast => exact .ended h hlast

theorem begins (h : Tale attempt rule now ns (.admitted n) outcome)
    (hc : now.cancelled = false) :
    Tale attempt rule now (ns ++ (Job.admitted n).notes now) (.attempting n (attempt n))
      outcome := by
  cases h with
  | admitted h hs =>
    have hbegun := Tale.attempts h hs hc .begun
    simpa [Job.notes, Job.deed?, hc] using hbegun

theorem moves (h : Tale attempt rule now ns job outcome)
    (hturn : job.Turn rule now (.moves job' scene)) (hl : scene.Later now')
    (hnow : now.Later now') :
    Tale attempt rule now' (ns ++ job.notes now) job' outcome := by
  cases hturn with
  | attempts hs =>
    cases h with
    | attempts h htime hc hr =>
      have hmoved := Tale.attempts h htime hc (hr.moves hs hl)
      simpa [Job.notes, Job.deed?, hs] using hmoved
  | fails hs herr hn =>
    cases h with
    | attempts h htime hc hr =>
      rw [Script.eq_done_of_step hs] at hr
      have hfailed : Tale attempt rule now' _ _ none := .pauses (h.fails htime hc hr herr hn)
      simpa [Job.notes, Job.deed?, hs] using hfailed
  | resumes hc htime =>
    cases h with
    | pauses h =>
      have hresumed := Tale.admitted h (Nat.le_trans htime hnow.now)
      simpa [Job.notes, Job.deed?, hc] using hresumed

theorem ends {last : Except RunError Json} (h : Tale attempt rule now ns job outcome)
    (hturn : job.Turn rule now (.ends last)) :
    Tale attempt rule now (ns ++ job.notes now) .ended (some (last, now.now)) := by
  cases hturn with
  | aborts hjob hc =>
    have hended {n time : Nat} (h : Rounds attempt rule n time ns) :
        Tale attempt rule now (ns ++ [⟨now, .findsCancelled⟩]) .ended
          (some (.error .aborted, now.now)) :=
      .ended h (.cancelled hc)
    rcases hjob with ⟨n, rfl⟩ | ⟨n, time, rfl⟩
    · cases h with
      | admitted h hs => simpa [Job.notes, Job.deed?, hc] using hended h
    · cases h with
      | pauses h => simpa [Job.notes, Job.deed?, hc] using hended h
  | ends hs hlast =>
    cases h with
    | attempts h htime hc hr =>
      rw [Script.eq_done_of_step hs] at hr
      have hended : Tale attempt rule now _ .ended _ := .ended h (.returns htime hc hr hlast)
      simpa [Job.notes, Job.deed?, hs] using hended

theorem crashes (h : Tale attempt rule now ns job outcome) (hturn : job.Turn rule now .crashes) :
    Tale attempt rule now (ns ++ job.notes now) .ended (some (Batch.broken, now.now)) := by
  cases hturn with
  | crashes hs =>
    cases h with
    | attempts h htime hc hr =>
      rw [Script.eq_crash_of_step hs] at hr
      have hended : Tale attempt rule now _ .ended _ := .ended h (.breaks htime hc hr)
      simpa [Job.notes, Job.deed?, hs] using hended

theorem begun (h : Tale attempt rule now ns job outcome) :
    ∃ k ≤ rule.retries + 1, ns.filterMap Note.begun? = List.range k := by
  have hstays {n time : Nat} {ns : List Note} (h : Rounds attempt rule n time ns) :
      ∃ k ≤ rule.retries + 1, ns.filterMap Note.begun? = List.range k :=
    ⟨n, Nat.le_succ_of_le h.le, h.begun⟩
  have hmore {n time : Nat} {ns rest : List Note} (h : Rounds attempt rule n time ns)
      (hrest : rest.filterMap Note.begun? = [n]) :
      ∃ k ≤ rule.retries + 1, (ns ++ rest).filterMap Note.begun? = List.range k := by
    refine ⟨n + 1, Nat.succ_le_succ h.le, ?_⟩
    rw [List.filterMap_append, h.begun, hrest, List.range_succ]
  cases h with
  | asks => exact hstays .none
  | waits => exact hstays .none
  | admitted h hs => exact hstays h
  | pauses h => exact hstays h
  | attempts h hs hc hr => exact hmore h rfl
  | ended h hlast =>
    rcases hlast.begun with hnone | hone
    · rw [List.filterMap_append, hnone, List.append_nil]
      exact hstays h
    · exact hmore h hone

theorem first (h : Tale attempt rule now ns job outcome) : ∀ x ∈ ns.head?, Opens x := by
  have hrounds {n time : Nat} {ns : List Note} (h : Rounds attempt rule n time ns) :
      ∀ x ∈ ns.head?, Opens x := by
    have hnil : ∀ x ∈ (ns ++ []).head?, Opens x := h.first fun _ x hx => nomatch hx
    rwa [List.append_nil] at hnil
  cases h with
  | asks => exact hrounds .none
  | waits => exact hrounds .none
  | admitted h hs => exact hrounds h
  | pauses h => exact hrounds h
  | attempts h hs hc hr =>
    refine h.first fun hn x hx => ?_
    subst hn
    cases hx
    exact .begins hc
  | ended h hlast =>
    refine h.first fun hn => ?_
    subst hn
    exact hlast.opens

theorem course (h : Tale attempt rule now ns job outcome) : ns.IsChain (Next attempt rule) := by
  cases h with
  | asks => exact .nil
  | waits => exact .nil
  | admitted h hs => exact h.course
  | pauses h => exact h.course
  | attempts h hs hc hr =>
    refine h.course.append (.singleton _) fun x hx y hy => ?_
    cases hy
    exact h.next_begins hs hc x hx
  | ended h hlast => exact h.course.append hlast.course (hlast.joins h)

theorem running {script : Script (Except RunError Json)}
    (h : Tale attempt rule now ns (.attempting n script) outcome) :
    ∃ scene, ns.getLast? = some ⟨scene, .begins n⟩ ∧ (attempt n).Reaches scene script now := by
  cases h with
  | attempts h hs hc hr => exact ⟨_, List.getLast?_concat, hr⟩

theorem decided (h : Tale attempt rule now ns job outcome) :
    outcome = ns.findSome? (Note.verdict? rule.retries) := by
  have hrounds {n time : Nat} {ns : List Note} (h : Rounds attempt rule n time ns) :
      ns.findSome? (Note.verdict? rule.retries) = none :=
    List.findSome?_eq_none_iff.mpr h.verdict
  cases h with
  | asks => rfl
  | waits => rfl
  | admitted h hs => exact (hrounds h).symm
  | pauses h => exact (hrounds h).symm
  | attempts h hs hc hr =>
    rw [List.findSome?_append, hrounds h]
    rfl
  | ended h hlast =>
    rw [List.findSome?_append, hrounds h, hlast.decided h]
    rfl

theorem final (h : Tale attempt rule now ns job outcome) :
    ∀ x ∈ ns.dropLast, x.verdict? rule.retries = none := by
  have hrounds {n time : Nat} {ns : List Note} (h : Rounds attempt rule n time ns) :
      ∀ x ∈ ns.dropLast, x.verdict? rule.retries = none :=
    fun x hx => h.verdict x (List.dropLast_subset ns hx)
  have hmore {n time : Nat} {ns rest : List Note} (h : Rounds attempt rule n time ns)
      (hne : rest ≠ []) (hrest : ∀ x ∈ rest.dropLast, x.verdict? rule.retries = none) :
      ∀ x ∈ (ns ++ rest).dropLast, x.verdict? rule.retries = none := by
    intro x hx
    rw [List.dropLast_append_of_ne_nil hne] at hx
    rcases List.mem_append.mp hx with hx | hx
    · exact h.verdict x hx
    · exact hrest x hx
  cases h with
  | asks => exact hrounds .none
  | waits => exact hrounds .none
  | admitted h hs => exact hrounds h
  | pauses h => exact hrounds h
  | attempts h hs hc hr => exact hmore h (List.cons_ne_nil _ _) fun x hx => nomatch hx
  | ended h hlast =>
    refine hmore h ?_ hlast.final
    rintro rfl
    cases hlast

end Tale

/-- The tale of a task is its account. -/
theorem Tale.account {b : Batch} {t : BatchTask}
    (h : Tale t.attempt (b.rule t) b.scene ns t.job t.outcome) : Account b t ns := by
  obtain ⟨k, hk, hbegun⟩ := h.begun
  constructor
  case numbered => rw [hbegun, List.length_range]
  case bounded =>
    rw [hbegun, List.length_range]
    exact hk
  case first => exact h.first
  case course => exact h.course
  case running =>
    intro n script hjob
    rw [hjob] at h
    exact h.running
  case decided => exact h.decided
  case final => exact h.final

end TagLedger.Runner
