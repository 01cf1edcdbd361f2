import Mathlib.Tactic.Common
import TagLedger.Proofs.Run.Settle

/-!
What a host can ask of a session. Each operation comes down to a schedule of the moves of its run:
taking in a stream, too, only gives turns to tasks, takes messages, feeds pieces and lets time pass.
-/

namespace TagLedger.Session

open Run (Leads)

theorem runReady_run_leads (s : Session) : Leads s.run s.runReady.run :=
  runReady_leads _ s.turns

theorem await_leads (time : Nat) (s : Session) : Leads s.run (s.await time).run := by
  have hready := s.runReady_run_leads
  have hwait (t : Nat) : Leads s.run (s.runReady.setTime t).run :=
    hready.trans (s.runReady.move_leads (.wait _) (by simp))
  unfold await
  dsimp only
  split
  · exact hready
  · split
    · exact hwait _
    · exact hwait _

theorem consumeWithin_leads (fuel : Nat) (pause : Option Nat) (items : List StreamItem)
    (s : Session) : Leads s.run (consumeWithin fuel pause items s).2.run := by
  induction fuel generalizing pause items s with
  | zero => exact .refl _
  | succ fuel ih =>
    have hmove (m : Move) (hm : m ≠ .start) : Leads s.run (s.move m).run := s.move_leads m hm
    unfold consumeWithin
    split
    · exact hmove _ (by simp)
    · split
      · exact (hmove _ (by simp)).trans (ih ..)
      · split
        · split
          · exact (s.await_leads _).trans (ih ..)
          · exact ih ..
        · split
          · exact (hmove _ (by simp)).trans (ih ..)
          · exact hmove _ (by simp)
          · rename_i t cancels rest _
            have hcancel : Leads s.run (if cancels then s.move .cancel else s).run := by
              split
              · exact hmove _ (by simp)
              · exact .refl _
            exact (hcancel.trans (await_leads t _)).trans (ih ..)

theorem consume_leads (items : List StreamItem) (s : Session) :
    Leads s.run (s.consume items).2.run :=
  (s.move_leads .openStream (by simp)).trans (consumeWithin_leads _ _ _ _)

inductive Operates (s : Session) : Session → Prop where
  | start : Operates s s.start.2
  | nextStep : Operates s (s.move .nextStep)
  | push (e : Entry) : Operates s (s.move (.push e))
  | consume (items : List StreamItem) : Operates s (s.consume items).2
  | settle : Operates s s.settle
  | finish : Operates s s.finish.2
  /-- The oldest message of a task is taken. -/
  | deliver : Operates s (s.move .deliver)

/-- An operation is a schedule of moves. -/
theorem Operates.exists_schedule {s s' : Session} (h : Operates s s') :
    ∃ ms, s'.run = s.run.applyAll ms := by
  have hleads {s' : Session} (h : Leads s.run s'.run) : ∃ ms, s'.run = s.run.applyAll ms := by
    obtain ⟨ms, _, hms⟩ := h
    exact ⟨ms, hms⟩
  cases h with
  | start => exact ⟨[.start], rfl⟩
  | nextStep => exact ⟨[.nextStep], rfl⟩
  | push e => exact ⟨[.push e], rfl⟩
  | consume items => exact hleads (s.consume_leads items)
  | settle => exact hleads s.settle_leads
  | finish => exact hleads s.settle_leads
  | deliver => exact ⟨[.deliver], rfl⟩

end TagLedger.Session
