import Mathlib.Tactic.Common
import TagLedger.Proofs.Runner.Moves

/-!
The schedule of a batch: whatever tasks it lets run, and whenever it moves the clock, what becomes
of the batch comes of moves, in which time only goes on.
-/

namespace TagLedger.Runner.Batch

def Leads (b b' : Batch) : Prop := ∃ ms, b' = b.applyAll ms

namespace Leads

variable {b b' b'' : Batch}

theorem refl (b : Batch) : Leads b b := ⟨[], rfl⟩

theorem trans (h : Leads b b') (h' : Leads b' b'') : Leads b b'' := by
  obtain ⟨ms, rfl⟩ := h
  obtain ⟨ms', rfl⟩ := h'
  exact ⟨ms ++ ms', (applyAll_append b ms ms').symm⟩

theorem of_move (m : Move) (b : Batch) : Leads b (b.apply m) := ⟨[m], rfl⟩

/-- The clock is moved on. -/
theorem wait_until {time : Nat} (h : b.now ≤ time) : Leads b { b with now := time } := by
  refine ⟨[.wait (time - b.now)], ?_⟩
  simp [apply, wait, Nat.add_sub_cancel' h]

end Leads

variable {b : Batch} {f : Fifo Batch} {i time : Nat}

def Idle (f : Fifo Batch) : Prop := ∀ i ∈ f.waiting, f.state.canStep i = false

theorem idle_update (change : Batch → Batch) (f : Fifo Batch) : Idle (f.update schedule change) := by
  intro i hi
  simpa [schedule, Fifo.update, Fifo.wake] using (List.mem_filter.mp hi).2

structure Follows (f g : Fifo Batch) : Prop where
  leads : Leads f.state g.state
  now : g.state.now = f.state.now
  idle : Idle g

theorem follows_turn (h : Idle f) : Follows f (f.turn schedule) := by
  unfold Fifo.turn
  split
  · exact ⟨.refl _, rfl, h⟩
  · rename_i i rest _
    split
    · exact ⟨.of_move (.step i) f.state, now_step f.state i, idle_update _ f⟩
    · rename_i hstep
      split
      · exact ⟨.refl _, rfl, h⟩
      · refine ⟨.refl _, rfl, fun k hk => ?_⟩
        rcases List.mem_append.mp hk with hk | hk
        · exact h k hk
        · rw [List.mem_singleton.mp hk]
          simpa [schedule] using hstep

theorem follows_runReady (fuel : Nat) (h : Idle f) : Follows f (f.runReady schedule fuel) := by
  induction fuel generalizing f with
  | zero => exact ⟨.refl _, rfl, h⟩
  | succ fuel ih =>
    unfold Fifo.runReady
    split
    · exact ⟨.refl _, rfl, h⟩
    · have hturn := follows_turn h
      have hmore := ih hturn.idle
      exact ⟨hturn.leads.trans hmore.leads, hmore.now.trans hturn.now, hmore.idle⟩

/-- A task that waits wakes up later. -/
theorem lt_of_wakeTime? (hstep : b.canStep i = false) (hwake : b.wakeTime? i = some time) :
    b.now < time := by
  cases ht : b.tasks[i]? with
  | none => simp [wakeTime?, ht] at hwake
  | some t =>
    have hwaits : b.next t = .waits := by
      simp only [canStep, ht] at hstep
      cases hnext : b.next t <;> simp [hnext] at hstep
      rfl
    have hjob : t.job.wakeTime? = some time := by simpa [wakeTime?, ht] using hwake
    rcases Job.eq_of_waits hwaits with h | h | ⟨n, script, h, hs⟩ | ⟨n, start, h, -, hlt⟩
    · rw [h] at hjob
      cases hjob
    · rw [h] at hjob
      cases hjob
    · rw [h] at hjob
      cases script with
      | sleepUntil start next =>
        cases hjob
        by_contra hle
        have hpast : time ≤ b.scene.now := Nat.le_of_not_lt hle
        simp [Script.step, hpast] at hs
      | _ => cases hjob
    · rw [h] at hjob
      cases hjob
      exact hlt

theorem lt_of_nextWake? (h : Idle f) (hwake : f.nextWake? schedule = some time) :
    f.state.now < time := by
  obtain ⟨i, hi, hi'⟩ := List.mem_filterMap.mp (List.min?_mem hwake)
  exact lt_of_wakeTime? (h i hi) hi'

theorem drive_leads (fuel : Nat) {cancelAt : Option Nat} (h : Idle f)
    (hcancel : ∀ c, cancelAt = some c → f.state.now ≤ c) :
    Leads f.state (drive fuel cancelAt f) := by
  induction fuel generalizing f cancelAt with
  | zero => exact .refl _
  | succ fuel ih =>
    unfold drive
    obtain ⟨hleads, hnow, hidle⟩ := follows_runReady patience h
    rw [← hnow] at hcancel
    generalize f.runReady schedule patience = g at hleads hnow hidle hcancel
    -- the batch is cancelled at time `c`, and there is no cancellation to come
    have hcancelled {c : Nat} (hc : g.state.now ≤ c) : Leads f.state (drive fuel none
        (g.update schedule fun b => { b with now := c, cancelled := true })) := by
      refine hleads.trans (Leads.trans ?_ (ih (idle_update _ g) nofun))
      exact (Leads.wait_until hc).trans (.of_move .cancel { g.state with now := c })
    dsimp only
    split
    · exact hleads
    · rename_i time hwake
      have hlater := Nat.le_of_lt (lt_of_nextWake? hidle hwake)
      exact hleads.trans ((Leads.wait_until hlater).trans (ih (idle_update _ g) nofun))
    · rename_i c _
      split
      · exact hleads
      · exact hcancelled (hcancel c rfl)
    · rename_i time c hwake
      split
      · exact hcancelled (hcancel c rfl)
      · rename_i hc
        have hlater := Nat.le_of_lt (lt_of_nextWake? hidle hwake)
        refine hleads.trans ((Leads.wait_until hlater).trans (ih (idle_update _ g) fun d hd => ?_))
        cases hd
        exact Nat.le_of_lt (Nat.lt_of_not_le hc)

/-- A batch that is run is moved. -/
theorem run_leads {cancelAt : Option Nat} (h : ∀ c, cancelAt = some c → b.now ≤ c) :
    Leads b (b.run cancelAt) := by
  have hidle : Idle ⟨b, List.range b.tasks.length, []⟩ := fun i hi => by simp at hi
  unfold run
  dsimp only
  split
  · exact (Leads.of_move .cancel b).trans (drive_leads _ (idle_update _ _) nofun)
  · exact drive_leads _ hidle h

end TagLedger.Runner.Batch
