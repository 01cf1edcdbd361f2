import Mathlib.Tactic.Common
import TagLedger.Proofs.Run.Trace
import TagLedger.Run.Session

/-!
Settling is a schedule: whatever turns the tasks take, the run only makes moves.
-/

namespace TagLedger

/-- A run later than another by a schedule that does not start it again. -/
def Run.Leads (r r' : Run) : Prop := ∃ ms, Move.start ∉ ms ∧ r' = r.applyAll ms

namespace Run.Leads

theorem refl (r : Run) : Leads r r := ⟨[], List.not_mem_nil, rfl⟩

theorem trans {r r' r'' : Run} (h : Leads r r') (h' : Leads r' r'') : Leads r r'' := by
  obtain ⟨ms, hms, rfl⟩ := h
  obtain ⟨ms', hms', rfl⟩ := h'
  refine ⟨ms ++ ms', fun hm => ?_, (applyAll_append r ms ms').symm⟩
  rcases List.mem_append.mp hm with hm | hm
  · exact hms hm
  · exact hms' hm

theorem of_move (m : Move) (hm : m ≠ .start) (r : Run) : Leads r (r.apply m) :=
  ⟨[m], fun h => hm (List.mem_singleton.mp h).symm, rfl⟩

end Run.Leads

namespace Session

open Run (Leads)

theorem move_leads (m : Move) (hm : m ≠ .start) (s : Session) : Leads s.run (s.move m).run :=
  .of_move m hm s.run

theorem turn_leads (f : Runner.Fifo Run) : Leads f.state (f.turn schedule).state := by
  unfold Runner.Fifo.turn
  split
  · exact .refl _
  · rename_i i rest _
    split
    · exact .of_move (.task i) nofun f.state
    · split <;> exact .refl _

theorem runReady_leads (fuel : Nat) (f : Runner.Fifo Run) :
    Leads f.state (f.runReady schedule fuel).state := by
  induction fuel generalizing f with
  | zero => exact .refl _
  | succ fuel ih =>
    unfold Runner.Fifo.runReady
    split
    · exact .refl _
    · exact (turn_leads f).trans (ih _)

theorem drain_leads (s : Session) : Leads s.run s.drain.run := by
  unfold drain
  generalize List.range s.run.inbox.length = turns
  induction turns generalizing s with
  | nil => exact .refl _
  | cons i turns ih =>
    exact (s.move_leads .deliver nofun).trans (ih (s.move .deliver))

theorem settleWithin_leads (fuel : Nat) (s : Session) : Leads s.run (settleWithin fuel s).run := by
  induction fuel generalizing s with
  | zero => exact .refl _
  | succ fuel ih =>
    have hdrain := s.drain_leads
    have hready : Leads s.run s.drain.runReady.run := hdrain.trans (runReady_leads _ _)
    unfold settleWithin
    dsimp only
    split
    · exact hdrain
    · split
      · split
        · exact hready
        · rename_i t _
          have htime : Leads s.run (s.drain.runReady.setTime t).run :=
            hready.trans (s.drain.runReady.move_leads (.wait _) nofun)
          exact htime.trans (ih _)
      · exact hready.trans (ih _)

theorem settle_leads (s : Session) : Leads s.run s.settle.run := settleWithin_leads _ s

/-- How settling comes to an end: all messages that are there are taken, and if calls are left, the
tasks run and the clock moves on if there is nothing else. -/
inductive Settles : Session → Session → Prop where
  | done {s : Session} (h : s.drain.run.ledger.inFlight = 0) : Settles s s.drain
  | goesOn {s s' : Session} (h : s.drain.run.ledger.inFlight ≠ 0)
    (hi : s.drain.runReady.run.inbox.isEmpty = false) (hs : Settles s.drain.runReady s') :
    Settles s s'
  | waits {s s' : Session} {t : Nat} (h : s.drain.run.ledger.inFlight ≠ 0)
    (hi : s.drain.runReady.run.inbox.isEmpty = true) (ht : s.drain.runReady.nextWake? = some t)
    (hs : Settles (s.drain.runReady.setTime t) s') : Settles s s'

/-- Settling that comes to an end does so in finitely many rounds. -/
theorem Settles.settleWithin_eq {s s' : Session} (h : Settles s s') :
    ∃ rounds, ∀ fuel, rounds ≤ fuel → settleWithin fuel s = s' := by
  induction h with
  | @done s h =>
    refine ⟨1, fun fuel hfuel => ?_⟩
    obtain ⟨fuel, rfl⟩ := Nat.exists_eq_add_of_le' hfuel
    simp [settleWithin, h]
  | goesOn h hi _ ih =>
    obtain ⟨rounds, ih⟩ := ih
    refine ⟨rounds + 1, fun fuel hfuel => ?_⟩
    obtain ⟨fuel, rfl⟩ := Nat.exists_eq_add_of_le' (Nat.le_of_add_left_le hfuel)
    simp [settleWithin, h, hi, ih fuel (Nat.le_of_succ_le_succ hfuel)]
  | waits h hi ht _ ih =>
    obtain ⟨rounds, ih⟩ := ih
    refine ⟨rounds + 1, fun fuel hfuel => ?_⟩
    obtain ⟨fuel, rfl⟩ := Nat.exists_eq_add_of_le' (Nat.le_of_add_left_le hfuel)
    simp [settleWithin, h, hi, ht, ih fuel (Nat.le_of_succ_le_succ hfuel)]

/-- Settling that comes to an end leaves no call in flight. -/
theorem Settles.inFlight_eq_zero {s s' : Session} (h : Settles s s') :
    s'.run.ledger.inFlight = 0 := by
  induction h with
  | done h => exact h
  | goesOn _ _ _ ih => exact ih
  | waits _ _ _ _ ih => exact ih

end Session

namespace Sample

/-- An action that appends the data of every call to its memory. -/
def noteAction : Action where
  name := "note"
  schema := none
  retry := none
  memory := some ⟨"notes", .arr []⟩
  contextType := none
  enabled := fun _ _ => true
  execute := fun _ _ data _ => .updateMemory (·.appended data) (.done (.ok data))
  onError := fun e _ => .done (.error e)
  format := fun _ => none
  onSuccess := fun _ _ => .done (.ok ())

def noteSetup : Setup where
  config := Config.standard
  catalog := ⟨[noteAction], [], []⟩
  context := ⟨"context", "root", .obj []⟩
  subContexts := []
  resolver := none
  policy := ContinuePolicy.onCalls
  ids := Uuid.numbered
  epoch := ⟨0, 0⟩

def callNamed (name : String) (n : Nat) : Entry :=
  .call
    { toHeader := Header.final ⟨BitVec.ofNat 128 n⟩ noteSetup.epoch
      name, content := "", data := none, params := [] }

def noteCall (n : Nat) : Entry := callNamed "note" n

def noteRun : Run := Run.new noteSetup Store.empty Archive.empty Subscribers.empty

end Sample

end TagLedger
