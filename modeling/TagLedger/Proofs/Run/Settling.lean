import Mathlib.Logic.Hydra
import Mathlib.Order.WellFounded
import Mathlib.Tactic.Common
import TagLedger.Proofs.Run.Visibility
import TagLedger.Proofs.Run.Winding

/-!
Settling whatever turns the tasks take. In a run that is cancelled every turn leaves less to do,
unless it dispatches another call; so if no calls are dispatched for ever, the time comes when no
call is in flight.
-/

namespace TagLedger

open Relation (CutExpand TransGen)

namespace Run

variable {r r' q : Run} {P : Run → Prop}

/-- What can happen while ends of calls are waited for: time passes, or none, and then the oldest
message is taken or a task takes a step. -/
inductive Proceeds (r : Run) : Run → Prop where
  | delivers (ms : Nat) (h : r.inbox ≠ []) : Proceeds r (r.applyAll [.wait ms, .deliver])
  | steps (ms i : Nat) (h : (r.wait ms).canStep i = true) :
    Proceeds r (r.applyAll [.wait ms, .task i])

/-- Whatever turns are taken, the time comes when `P` holds. -/
inductive Inevitable (P : Run → Prop) : Run → Prop where
  | reached {r : Run} (h : P r) : Inevitable P r
  | goesOn {r : Run} (h : ∃ r', Proceeds r r') (hall : ∀ r', Proceeds r r' → Inevitable P r') :
    Inevitable P r

def IsSettled (r : Run) : Prop := r.inbox = [] ∧ r.ledger.inFlight = 0

/-- However long turns are taken, there is an end to the calls that they dispatch. -/
def DispatchesFinitely (r : Run) : Prop :=
  ∀ f : Nat → Run, f 0 = r → (∀ n, Proceeds (f n) (f (n + 1))) →
    ∃ bound, ∀ n, (f n).tasks.length ≤ bound

theorem Proceeds.exists_applyAll (h : Proceeds r r') : ∃ ms, r' = r.applyAll ms := by
  cases h with
  | delivers ms _ => exact ⟨_, rfl⟩
  | steps ms i _ => exact ⟨_, rfl⟩

theorem Proceeds.stream (h : Proceeds r r') : r'.stream = r.stream := by
  cases h with
  | delivers ms _ => exact stream_apply (m := .deliver) rfl (by simp) (by simp) (r.wait ms)
  | steps ms i _ => exact stream_apply (m := .task i) rfl (by simp) (by simp) (r.wait ms)

inductive Turns (r r' : Run) : Prop where
  | takes {ms : Nat} {m : Message} {rest : List Message} (hinbox : r.inbox = m :: rest)
    (hm : Reception { r.wait ms with inbox := rest } m r')
  | steps {ms i : Nat} {t t' : CallTask} {sent : List Message} (ht : r.tasks[i]? = some t)
    (h : Conduct i (r.wait ms) t t' sent r')

theorem Proceeds.turns (h : Proceeds r r') (hstream : r.stream = none) : Turns r r' := by
  cases h with
  | delivers ms hinbox =>
    obtain ⟨m, rest, hcons⟩ := List.exists_cons_of_ne_nil hinbox
    have hwait : (r.wait ms).inbox = m :: rest := hcons
    have hdeliver : r.applyAll [.wait ms, .deliver] = (r.wait ms).deliver := by
      simp [applyAll, apply, wait, hstream]
    rw [hdeliver, deliver, hwait]
    exact .takes hcons (receive_reception _ _)
  | steps ms i hstep =>
    obtain ⟨q, hq⟩ := Option.isSome_iff_exists.mp hstep
    have happly : r.applyAll [.wait ms, .task i] = q := by
      simp [applyAll, apply, stepTask, hq]
    rw [happly]
    obtain ⟨t, t', sent, ht, hconduct⟩ := stepTask?_conduct hq
    exact .steps ht hconduct

inductive Lessens (r r' : Run) : Prop where
  | dispatches (h : r.tasks.length < r'.tasks.length)
  | steps (hlength : r'.tasks.length = r.tasks.length)
    (h : TransGen (CutExpand Phase.Follows) (phases r'.tasks) (phases r.tasks))
  | takes (htasks : r'.tasks = r.tasks) (h : r'.inbox.length < r.inbox.length)

theorem Turns.lessens (h : Turns r r') (hl : Lined r) (hc : r.cancelled = true) :
    Lessens r r' := by
  cases h with
  | takes hinbox hm =>
    cases hm.enlists with
    | same _ htasks =>
      refine .takes htasks ?_
      rw [hm.inbox, hinbox]
      exact Nat.lt_succ_self _
    | more _ _ htasks =>
      refine .dispatches ?_
      rw [htasks, List.length_append]
      exact Nat.lt_succ_self _
  | @steps ms i t t' sent ht hconduct =>
    have ht : (r.wait ms).tasks[i]? = some t := ht
    have hlined : Lined (r.wait ms) := ⟨hl.nodup, hl.waits⟩
    have hphases := (hconduct.permitUse ht).phases_lt hlined ht (hconduct.follows_phase hc)
    exact .steps (hconduct.steps ht).length_eq hphases

def toDo (bound : Nat) (r : Run) : Nat × Multiset Phase × Nat :=
  (bound - r.tasks.length, phases r.tasks, r.inbox.length)

def Less : Nat × Multiset Phase × Nat → Nat × Multiset Phase × Nat → Prop :=
  Prod.Lex (· < ·) (Prod.Lex (TransGen (CutExpand Phase.Follows)) (· < ·))

theorem less_wf : WellFounded Less := by
  have hphases : WellFounded (TransGen (CutExpand Phase.Follows)) :=
    (WellFounded.intro Phase.acc_follows).cutExpand.transGen
  exact wellFounded_lt.prod_lex (hphases.prod_lex wellFounded_lt)

theorem Lessens.less {bound : Nat} (h : Lessens r r') (hbound : r'.tasks.length ≤ bound) :
    Less (toDo bound r') (toDo bound r) := by
  cases h with
  | dispatches h => exact Prod.Lex.left _ _ (by omega)
  | steps hlength h =>
    rw [toDo, toDo, hlength]
    exact Prod.Lex.right _ (Prod.Lex.left _ _ h)
  | takes htasks h =>
    rw [toDo, toDo, htasks]
    exact Prod.Lex.right _ (Prod.Lex.right _ h)

/-- A run whose turns do not go on for ever reaches what it can always get nearer to. -/
theorem inevitable_of_acc {I : Run → Prop} (hkeep : ∀ {q q'}, I q → Proceeds q q' → I q')
    (hgo : ∀ {q}, I q → P q ∨ ∃ q', Proceeds q q') (h : Acc (fun q' q => Proceeds q q') r)
    (hr : I r) : Inevitable P r := by
  induction h with
  | intro q _ ih =>
    rcases hgo hr with hp | hex
    · exact .reached hp
    · exact .goesOn hex fun q' hq => ih q' hq (hkeep hr hq)

/-- Turn after turn, a schedule is followed. -/
theorem exists_applyAll_of_proceeds {f : Nat → Run} (hf : ∀ n, Proceeds (f n) (f (n + 1)))
    (n : Nat) : (f n).stream = (f 0).stream ∧ ∃ ms, f n = (f 0).applyAll ms := by
  induction n with
  | zero => exact ⟨rfl, [], rfl⟩
  | succ n ih =>
    obtain ⟨hstream, before, hbefore⟩ := ih
    obtain ⟨after, hafter⟩ := (hf n).exists_applyAll
    refine ⟨(hf n).stream.trans hstream, before ++ after, ?_⟩
    rw [hafter, hbefore, applyAll_append]

section

variable {setup : Setup} {store : Store} {archive : Archive} {subscribers : Subscribers}
  {ms : List Move}

/-- As long as something is left to do in a run whose scripts return, some turn can be taken. -/
theorem settled_or_proceeds (hr : r = (new setup store archive subscribers).applyAll ms)
    (hreturning : Returning r) : IsSettled r ∨ ∃ r', Proceeds r r' := by
  by_cases hinbox : r.inbox = []
  · rcases Nat.eq_zero_or_pos r.ledger.inFlight with hzero | hpos
    · exact .inl ⟨hinbox, hzero⟩
    · have ha : Attended (history ms (new setup store archive subscribers)) r :=
        hr ▸ (Attended.new setup store archive subscribers).applyAll ms
      have hl : Limited (max setup.config.maxConcurrentTasks 1) r :=
        hr ▸ (Limited.new setup store archive subscribers).applyAll ms
      have hcounted : Counted r := hr ▸ counted_applyAll_new setup store archive subscribers ms
      rcases ha.exists_acts_of_inFlight hl hcounted hpos with hne | ⟨i, hacts⟩
      · exact absurd hinbox hne
      · rcases hacts.canGoOn hreturning with hstep | ⟨time, _, _, hstep⟩
        · exact .inr ⟨_, .steps 0 i hstep⟩
        · exact .inr ⟨_, .steps (time - r.now) i hstep⟩
  · exact .inr ⟨_, .delivers 0 hinbox⟩

/-- In a cancelled run no turns can be taken for ever without dispatching calls. -/
theorem acc_proceeds (hr : r = (new setup store archive subscribers).applyAll ms)
    (hc : r.cancelled = true) (hstream : r.stream = none) (hfinite : DispatchesFinitely r) :
    Acc (fun q' q => Proceeds q q') r := by
  by_contra hnot
  obtain ⟨f, hzero, hf⟩ := not_acc_iff_exists_descending_chain.mp hnot
  obtain ⟨bound, hbound⟩ := hfinite f hzero hf
  have hless (n : Nat) : Less (toDo bound (f (n + 1))) (toDo bound (f n)) := by
    obtain ⟨hsame, before, hbefore⟩ := exists_applyAll_of_proceeds hf n
    rw [hzero] at hsame hbefore
    have hlimited := (Limited.new setup store archive subscribers).applyAll (ms ++ before)
    rw [applyAll_append, ← hr, ← hbefore] at hlimited
    have hcancelled : (f n).cancelled = true := hbefore ▸ cancelled_applyAll hc before
    have hturns := (hf n).turns (hsame.trans hstream)
    exact (hturns.lessens hlimited.toLined hcancelled).less (hbound (n + 1))
  exact (acc_iff_isEmpty_descending_chain.mp (less_wf.apply (toDo bound (f 0)))).false
    ⟨fun n => toDo bound (f n), rfl, hless⟩

/-- A cancelled run settles, whatever turns are taken. -/
theorem inevitable_isSettled (hr : r = (new setup store archive subscribers).applyAll ms)
    (hc : r.cancelled = true) (hstream : r.stream = none) (hfinite : DispatchesFinitely r)
    (hreturning : Returning r) : Inevitable IsSettled r := by
  refine inevitable_of_acc (I := fun q => ∃ ms', q = r.applyAll ms') ?_ ?_
    (acc_proceeds hr hc hstream hfinite) ⟨[], rfl⟩
  · rintro q q' ⟨before, rfl⟩ hq
    obtain ⟨after, rfl⟩ := hq.exists_applyAll
    exact ⟨before ++ after, (applyAll_append r before after).symm⟩
  · rintro q ⟨before, rfl⟩
    have hrun : r.applyAll before =
        (new setup store archive subscribers).applyAll (ms ++ before) := by
      rw [applyAll_append, hr]
    exact settled_or_proceeds hrun (hreturning.applyAll before)

end

end Run

end TagLedger
