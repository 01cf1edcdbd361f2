import Mathlib.Tactic.Common
import TagLedger.Proofs.Run.Trace

/-!
Induction over schedules. What holds of a run and its history, whatever the moves, has to be kept by
quiet changes, by takings, and by the steps of tasks. A start is a quiet change.
-/

namespace TagLedger.Run

variable {r r' r'' : Run}

def Binds (r : Run) : Prop :=
  ∃ m, r.ledger.actions =
    Action.prepare r.setup.catalog.actions r.setup.context r.setup.subContexts m

/-- A change that calls and tasks do not see. The log may grow, though not by calls or results, the
run may be cancelled, and actions may be bound. -/
structure Quiet (r r' : Run) : Prop where
  setup : r'.setup = r.setup
  inbox : r'.inbox = r.inbox
  tasks : r'.tasks = r.tasks
  permits : r'.permits = r.permits
  executions : r'.executions = r.executions
  slots : r'.ledger.slots = r.ledger.slots
  inFlight : r'.ledger.inFlight = r.ledger.inFlight
  actions : r'.ledger.actions = r.ledger.actions ∨ Binds r'
  cancelled : r.cancelled = true → r'.cancelled = true
  chain : ∃ es, r'.ledger.chain = r.ledger.chain ++ es ∧ ∀ e ∈ es, e.IsPlain

namespace Quiet

theorem of_chain (hs : r'.setup = r.setup) (hi : r'.inbox = r.inbox) (ht : r'.tasks = r.tasks)
    (hp : r'.permits = r.permits) (he : r'.executions = r.executions)
    (hslots : r'.ledger.slots = r.ledger.slots)
    (hf : r'.ledger.inFlight = r.ledger.inFlight)
    (ha : r'.ledger.actions = r.ledger.actions ∨ Binds r')
    (hcancel : r.cancelled = true → r'.cancelled = true)
    (hc : r'.ledger.chain = r.ledger.chain) : Quiet r r' :=
  ⟨hs, hi, ht, hp, he, hslots, hf, ha, hcancel, [], by rw [hc, List.append_nil], by simp⟩

theorem trans (h : Quiet r r') (h' : Quiet r' r'') : Quiet r r'' where
  setup := h'.setup.trans h.setup
  inbox := h'.inbox.trans h.inbox
  tasks := h'.tasks.trans h.tasks
  permits := h'.permits.trans h.permits
  executions := h'.executions.trans h.executions
  slots := h'.slots.trans h.slots
  inFlight := h'.inFlight.trans h.inFlight
  actions := by
    rcases h'.actions with ha' | hb'
    · rcases h.actions with ha | ⟨m, hm⟩
      · exact .inl (ha'.trans ha)
      · exact .inr ⟨m, by rw [ha', h'.setup, hm]⟩
    · exact .inr hb'
  cancelled := fun hc => h'.cancelled (h.cancelled hc)
  chain := by
    obtain ⟨es, hes, hplain⟩ := h.chain
    obtain ⟨fs, hfs, hplain'⟩ := h'.chain
    refine ⟨es ++ fs, by rw [hfs, hes, List.append_assoc], fun e he => ?_⟩
    rcases List.mem_append.mp he with he | he
    · exact hplain e he
    · exact hplain' e he

theorem logsPlain (h : LogsPlain r r') : Quiet r r' := by
  obtain ⟨_, es, hl, hes⟩ := h
  exact ⟨hl.setup, hl.inbox, hl.tasks, hl.permits, hl.executions, hl.slots, hl.inFlight,
    .inl hl.actions, fun hc => hl.cancelled ▸ hc, es, hl.chain, hes⟩

theorem calm (h : Calm r r') : Quiet r r' := by
  cases h with
  | logs h => exact logsPlain h
  | cancels => exact of_chain rfl rfl rfl rfl rfl rfl rfl (.inl rfl) (fun _ => rfl) rfl
  | waits ms => exact of_chain rfl rfl rfl rfl rfl rfl rfl (.inl rfl) id rfl

theorem start (r : Run) : Quiet r r.start.2 := by
  unfold Run.start
  split
  · exact of_chain rfl rfl rfl rfl rfl rfl rfl (.inl rfl) id rfl
  · rename_i m store _
    have hbind : Quiet r (bindCatalog m { r with store }) :=
      of_chain rfl rfl rfl rfl rfl rfl rfl (.inr ⟨m, rfl⟩) id rfl
    exact (hbind.trans (logsPlain (openRun_logs _))).trans (logsPlain (nextStep_logs _))

theorem tasksOwn (h : Quiet r r') (hown : r.TasksOwn) : r'.TasksOwn := by
  rwa [TasksOwn, h.tasks]

end Quiet

/-- Taking a message cancels nothing and binds no actions. -/
theorem Reception.bound {m : Message} (h : Reception r m r') :
    r'.cancelled = r.cancelled ∧ r'.ledger.actions = r.ledger.actions := by
  cases h with
  | plain _ hl =>
    obtain ⟨_, _, hl, _⟩ := hl
    exact ⟨hl.cancelled, hl.actions⟩
  | result _ hl => exact ⟨hl.cancelled, hl.actions⟩
  | refused _ _ hl => exact ⟨hl.cancelled, hl.actions⟩
  | accepted _ _ hl => exact ⟨hl.cancelled, hl.actions⟩
  | prepared id data =>
    have hpatch := patchCall_untouched id data r
    exact ⟨hpatch.cancelled, hpatch.actions⟩
  | failed hl => exact ⟨hl.cancelled, hl.actions⟩
  | completed hl => exact ⟨hl.cancelled, hl.actions⟩

/-- What quiet changes, takings and steps keep, a trace keeps. -/
theorem Trace.carries {I : List (Run × Message) → Run → Prop}
    (quiet : ∀ {h q q'}, I h q → Quiet q q' → I h q')
    (tells : ∀ {h q e}, I h q → I (h ++ [(q, .push e)]) (receive (.push e) q))
    (delivers : ∀ {h q m rest}, I h q → q.inbox = m :: rest →
      I (h ++ [({ q with inbox := rest }, m)]) (receive m { q with inbox := rest }))
    (steps : ∀ {h q i q'}, I h q → q.stepTask? i = some q' → I h q')
    {S : Nat → Prop} {g h : List (Run × Message)} (hr : I g r) (ht : Trace S r h r') :
    I (g ++ h) r' := by
  induction ht with
  | refl => rwa [List.append_nil]
  | calm _ hc ih => exact quiet ih (.calm hc)
  | tells _ e ih =>
    rw [← List.append_assoc]
    exact tells ih
  | delivers _ hm ih =>
    rw [← List.append_assoc]
    exact delivers ih hm
  | steps _ _ hs ih => exact steps ih hs

/-- And so does every schedule. -/
theorem applyAll_carries {I : List (Run × Message) → Run → Prop}
    (quiet : ∀ {h q q'}, I h q → Quiet q q' → I h q')
    (tells : ∀ {h q e}, I h q → I (h ++ [(q, .push e)]) (receive (.push e) q))
    (delivers : ∀ {h q m rest}, I h q → q.inbox = m :: rest →
      I (h ++ [({ q with inbox := rest }, m)]) (receive m { q with inbox := rest }))
    (steps : ∀ {h q i q'}, I h q → q.stepTask? i = some q' → I h q')
    {g : List (Run × Message)} (hr : I g r) (ms : List Move) :
    I (g ++ history ms r) (r.applyAll ms) := by
  induction ms generalizing g r with
  | nil => rwa [history, List.append_nil]
  | cons m ms ih =>
    rw [history, ← List.append_assoc]
    refine ih ?_
    by_cases hm : m = .start
    · subst hm
      dsimp only [taken, apply]
      rw [List.append_nil]
      split
      · exact quiet hr (.start r)
      · exact hr
    · exact Trace.carries (I := I) quiet tells delivers steps hr (apply_trace hm r)

/-- Mostly it does not matter what a taking does exactly, only what kind of taking it is. -/
theorem applyAll_keeps {I : List (Run × Message) → Run → Prop}
    (quiet : ∀ {h q q'}, I h q → Quiet q q' → I h q')
    (tells : ∀ {h q e q'}, I h q → Reception q (.push e) q' → I (h ++ [(q, .push e)]) q')
    (delivers : ∀ {h q m rest q'}, I h q → q.inbox = m :: rest →
      Reception { q with inbox := rest } m q' → I (h ++ [({ q with inbox := rest }, m)]) q')
    (steps : ∀ {h q i q'}, I h q → q.stepTask? i = some q' → I h q')
    {g : List (Run × Message)} (hr : I g r) (ms : List Move) :
    I (g ++ history ms r) (r.applyAll ms) :=
  applyAll_carries (I := I) quiet (fun ih => tells ih (receive_reception _ _))
    (fun ih hm => delivers ih hm (receive_reception _ _)) steps hr ms

end TagLedger.Run
