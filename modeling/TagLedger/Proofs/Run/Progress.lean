import Mathlib.Tactic.Common
import TagLedger.Proofs.Action.Returns
import TagLedger.Proofs.Run.Settle
import TagLedger.Proofs.Run.Stalls

/-!
Runs do not block themselves. Waits for calls go from larger to smaller places, nobody holds a
permit while waiting for a call or for a permit, and whoever holds one is inside its action. So
while a call is in flight, a message is there, or a task can go on, if not at once then when the
time has come that its action sleeps for.
-/

namespace TagLedger

def Phase.Returns (cancelled : Bool) : Phase → Prop
  | .working _ (.attempting _ script) => script.Returns cancelled
  | .recovering _ script => script.Returns cancelled
  | .succeeding _ _ script => script.Returns cancelled
  | _ => True

theorem Phase.Returns.mono {c c' : Bool} (hc : c = true → c' = true) {p : Phase}
    (h : p.Returns c) : p.Returns c' := by
  cases p with
  | working slice job =>
    cases job with
    | attempting n script => exact Script.Returns.mono hc h
    | _ => trivial
  | recovering slice script => exact Script.Returns.mono hc h
  | succeeding slice result script => exact Script.Returns.mono hc h
  | _ => trivial

namespace Run

variable {i : Nat} {t t' : CallTask} {sent : List Message} {r r' q : Run} {m : Message}
  {h : List (Run × Message)}

theorem absorb_cancelled_of_scene (s : Scene) (r : Run) (h : s.cancelled = true) :
    (r.absorb s).cancelled = true := by
  rw [(r.absorb_still s).2, h, Bool.or_true]

structure Returning (r : Run) : Prop where
  catalog : ∀ a ∈ r.setup.catalog.actions, a.ReturnsIn r.cancelled
  actions : ∀ b ∈ r.ledger.actions, b.action.ReturnsIn r.cancelled
  tasks : ∀ t ∈ r.tasks, t.action.action.ReturnsIn r.cancelled ∧ t.phase.Returns r.cancelled

theorem Conduct.cancelled (h : Conduct i r t t' sent r') (hc : r.cancelled = true) :
    r'.cancelled = true := by
  have habsorb (s : Scene) : (r.absorb s).cancelled = true := by
    rw [(r.absorb_still s).2, hc, Bool.true_or]
  have hgive : r.giveBack.cancelled = true := by
    rw [giveBack_frame]
    exact hc
  have hkeep (slice : Json) : ((r.draw 1).keepSlice t.action.action slice).cancelled = true := by
    rw [keepSlice_frame]
    exact hc
  cases h with
  | works _ _ _ _ => exact habsorb _
  | succeeds _ _ => exact hgive
  | fails _ _ => exact hgive
  | crashes _ _ _ => exact hgive
  | recovers _ _ _ _ => exact habsorb _
  | concludes _ _ _ => exact hkeep _
  | concludesError _ _ _ => exact hkeep _
  | follows _ _ _ _ => exact habsorb _
  | _ => exact hc

/-- A run that is cancelled stays so. -/
theorem cancelled_applyAll (hc : r.cancelled = true) (ms : List Move) :
    (r.applyAll ms).cancelled = true := by
  refine applyAll_keeps (I := fun _ q => q.cancelled = true) (g := []) ?_ ?_ ?_ ?_ hc ms
  · exact fun hc hq => hq.cancelled hc
  · exact fun hc hm => hm.bound.1.trans hc
  · exact fun hc _ hm => hm.bound.1.trans hc
  · intro _ q i q' hc hs
    obtain ⟨t, t', sent, _, hconduct⟩ := stepTask?_conduct hs
    exact hconduct.cancelled hc

theorem Conduct.returns (h : Conduct i r t t' sent r') (ha : t.action.action.ReturnsIn r.cancelled)
    (hp : t.phase.Returns r.cancelled) : t'.phase.Returns r'.cancelled := by
  have hlater := h.cancelled
  cases h with
  | begins _ hc => exact (ha.execute hc _ _ _ _).mono fun h => by cases h
  | @works slice job job' scene _ hphase hturn _ _ =>
    rw [hphase] at hp
    cases hturn with
    | attempts hs =>
      have hreturns : Script.Returns _ (r.scene slice).cancelled := hp
      exact (hreturns.of_moved hs).mono (absorb_cancelled_of_scene scene r)
    | _ => trivial
  | fails _ _ => exact (ha.onError _ _).mono hlater
  | @recovers slice _ _ scene _ hphase hs _ _ =>
    rw [hphase] at hp
    have hreturns : Script.Returns _ (r.scene slice).cancelled := hp
    exact (hreturns.of_moved hs).mono (absorb_cancelled_of_scene scene r)
  | concludes _ _ _ => exact (ha.onSuccess _ _).mono hlater
  | @follows slice _ _ _ scene _ hphase hs _ _ =>
    rw [hphase] at hp
    have hreturns : Script.Returns _ (r.scene slice).cancelled := hp
    exact (hreturns.of_moved hs).mono (absorb_cancelled_of_scene scene r)
  | _ => trivial

namespace Returning

theorem quiet (hr : Returning r) (hq : Quiet r r') : Returning r' where
  catalog := fun a ha => (hr.catalog a (hq.setup ▸ ha)).mono hq.cancelled
  actions := by
    rcases hq.actions with ha | ⟨memory, ha⟩
    · exact fun b hb => (hr.actions b (ha ▸ hb)).mono hq.cancelled
    · intro b hb
      rw [ha] at hb
      exact (hr.catalog _ (hq.setup ▸ Action.mem_of_mem_prepare hb)).mono hq.cancelled
  tasks := fun t ht => by
    rw [hq.tasks] at ht
    exact ⟨(hr.tasks t ht).1.mono hq.cancelled, (hr.tasks t ht).2.mono hq.cancelled⟩

theorem reception (hr : Returning q) (hm : Reception q m r') : Returning r' := by
  obtain ⟨hcancelled, hactions⟩ := hm.bound
  refine ⟨?_, ?_, fun t ht => ?_⟩ <;> rw [hcancelled]
  · exact hm.setup ▸ hr.catalog
  · exact hactions ▸ hr.actions
  cases hm.enlists with
  | same _ htasks => exact hr.tasks t (htasks ▸ ht)
  | more _ hp htasks =>
    rw [htasks] at ht
    rcases List.mem_append.mp ht with ht | ht
    · exact hr.tasks t ht
    · rw [List.mem_singleton.mp ht]
      exact ⟨hr.actions _ (PreparedCall.mem_of_ofCall hp), trivial⟩

theorem steps (hr : Returning r) (hs : r.stepTask? i = some r') : Returning r' := by
  obtain ⟨t, t', sent, ht, hconduct⟩ := stepTask?_conduct hs
  have hsteps := hconduct.steps ht
  have hlater := hconduct.cancelled
  refine ⟨fun a ha => (hr.catalog a (hsteps.setup ▸ ha)).mono hlater,
    fun b hb => (hr.actions b (hsteps.ledger ▸ hb)).mono hlater, fun u hu => ?_⟩
  rcases hsteps.mem_cases hu with rfl | ⟨v, hv, hkept⟩
  · obtain ⟨ha, hp⟩ := hr.tasks t (List.mem_of_getElem? ht)
    exact ⟨(hconduct.task_follows.action ▸ ha).mono hlater, hconduct.returns ha hp⟩
  · obtain ⟨ha, hp⟩ := hr.tasks v hv
    refine ⟨(hkept.follows.action ▸ ha).mono hlater, ?_⟩
    cases hkept with
    | same => exact hp.mono hlater
    | admitted _ => trivial

theorem applyAll (hr : Returning r) (ms : List Move) : Returning (r.applyAll ms) := by
  refine applyAll_keeps (I := fun _ q => Returning q) (g := []) ?_ ?_ ?_ ?_ hr ms
  · exact fun hr hq => hr.quiet hq
  · exact fun hr hm => hr.reception hm
  · intro _ q _ rest _ hr _ hm
    have htaken : Returning { q with inbox := rest } := ⟨hr.catalog, hr.actions, hr.tasks⟩
    exact htaken.reception hm
  · exact fun hr hs => hr.steps hs

end Returning

/-- A task that can take a step or is inside its action. -/
def Acts (r : Run) (i : Nat) : Prop :=
  r.canStep i = true ∨ ∃ t, r.tasks[i]? = some t ∧ InAction r t

/-- A task that can take a step, if not now then when the time comes that it waits for. -/
def CanGoOn (r : Run) (i : Nat) : Prop :=
  r.canStep i = true ∨
    ∃ time, r.wakeTime? i = some time ∧ r.now < time ∧ (r.wait (time - r.now)).canStep i = true

theorem isSome_stepWorking? {slice : Json} {job : Runner.Job}
    (h : job.next (r.retryRule t.action.action) (r.scene slice) ≠ .waits) :
    (r.stepWorking? i t slice job).isSome = true := by
  unfold stepWorking?
  split
  · contradiction
  · split <;> rfl
  all_goals rfl

theorem isSome_stepRecovering? {slice : Json} {script : Script (Except RunError Json)}
    (h : script.step (r.scene slice) ≠ .waiting) :
    (r.stepRecovering? i t slice script).isSome = true := by
  unfold stepRecovering?
  split
  · contradiction
  all_goals rfl

theorem isSome_stepSucceeding? {slice : Json} {result : Entry.Result}
    {script : Script (Except RunError Unit)} (h : script.step (r.scene slice) ≠ .waiting) :
    (r.stepSucceeding? i t slice result script).isSome = true := by
  unfold stepSucceeding?
  split
  · contradiction
  all_goals rfl

/-- A task inside its action goes on when the time has come, if its script comes to an end. -/
theorem InAction.canGoOn (ht : r.tasks[i]? = some t) (hp : t.phase.Returns r.cancelled)
    (h : InAction r t) : CanGoOn r i := by
  have hlater {time : Nat} (hlt : r.now < time) (slice : Json) :
      time ≤ ((r.wait (time - r.now)).scene slice).now := by
    simp only [scene, wait]
    omega
  have htasks (ms : Nat) : (r.wait ms).tasks[i]? = some t := ht
  cases h with
  | @attempts slice n script hphase hs =>
    rw [hphase] at hp
    have hreturns : Script.Returns script (r.scene slice).cancelled := hp
    obtain ⟨time, hwake, hlt, hstep⟩ := hreturns.wakes hs
    refine .inr ⟨time, ?_, hlt, ?_⟩
    · simp [wakeTime?, ht, CallTask.wakeTime?, hphase, Runner.Job.wakeTime?, hwake]
    · rw [canStep, stepTask?, htasks, Option.bind_some, hphase]
      refine isSome_stepWorking? fun hnext => ?_
      rcases Runner.Job.eq_of_waits hnext with h | h | ⟨_, _, h, hs'⟩ | ⟨_, _, h, _⟩ <;> cases h
      exact hstep _ (hlater hlt slice) hs'
  | @pauses slice n time hphase hc hlt =>
    refine .inr ⟨time, ?_, hlt, ?_⟩
    · simp [wakeTime?, ht, CallTask.wakeTime?, hphase, Runner.Job.wakeTime?]
    · rw [canStep, stepTask?, htasks, Option.bind_some, hphase]
      refine isSome_stepWorking? fun hnext => ?_
      rcases Runner.Job.eq_of_waits hnext with h | h | ⟨_, _, h, _⟩ | ⟨_, _, h, _, hnot⟩ <;> cases h
      exact Nat.not_le_of_lt hnot (hlater hlt slice)
  | @recovers slice script hphase hs =>
    rw [hphase] at hp
    have hreturns : Script.Returns script (r.scene slice).cancelled := hp
    obtain ⟨time, hwake, hlt, hstep⟩ := hreturns.wakes hs
    refine .inr ⟨time, ?_, hlt, ?_⟩
    · simp [wakeTime?, ht, CallTask.wakeTime?, hphase, hwake]
    · rw [canStep, stepTask?, htasks, Option.bind_some, hphase]
      exact isSome_stepRecovering? (hstep _ (hlater hlt slice))
  | @follows slice result script hphase hs =>
    rw [hphase] at hp
    have hreturns : Script.Returns script (r.scene slice).cancelled := hp
    obtain ⟨time, hwake, hlt, hstep⟩ := hreturns.wakes hs
    refine .inr ⟨time, ?_, hlt, ?_⟩
    · simp [wakeTime?, ht, CallTask.wakeTime?, hphase, hwake]
    · rw [canStep, stepTask?, htasks, Option.bind_some, hphase]
      exact isSome_stepSucceeding? (hstep _ (hlater hlt slice))

/-- While a task waits for a permit, another holds one. -/
theorem Limited.exists_holder {n : Nat} (hl : Limited (max n 1) r) (ht : r.tasks[i]? = some t)
    (hq : t.phase.isQueued = true) :
    ∃ (j : Nat) (u : CallTask), r.tasks[j]? = some u ∧ u.phase.holdsPermit = true := by
  have hfree := hl.busy (List.ne_nil_of_mem (hl.queued i t ht hq))
  have hpos : 0 < r.permitHolders := by
    have htotal := hl.total
    omega
  obtain ⟨u, hu, hholds⟩ := List.countP_pos_iff.mp hpos
  obtain ⟨j, hj⟩ := List.mem_iff_getElem?.mp hu
  exact ⟨j, u, hj, hholds⟩

theorem isOver_of_holdsPermit (h : t.phase.holdsPermit = true) : t.isOver = false := by
  unfold CallTask.isOver
  split
  · rename_i hphase
    rw [hphase] at h
    cases h
  · rfl

/-- If all that the tasks run comes to its end, whoever is inside its action goes on in time. -/
theorem Acts.canGoOn (hr : Returning r) (h : Acts r i) : CanGoOn r i := by
  rcases h with h | ⟨t, ht, hin⟩
  · exact .inl h
  · exact hin.canGoOn ht (hr.tasks t (List.mem_of_getElem? ht)).2

namespace Attended

variable {n : Nat}

/-- A task that holds a permit is not kept from going on by others. -/
theorem acts_of_holdsPermit (ha : Attended h r) (ht : r.tasks[i]? = some t)
    (hholds : t.phase.holdsPermit = true) : Acts r i := by
  cases hs : r.stepTask? i with
  | some q => exact .inl (by rw [canStep, hs]; rfl)
  | none =>
    have hstalls := ha.stalls ht (isOver_of_holdsPermit hholds) hs
    exact .inr ⟨t, ht, hstalls.inAction_of_holdsPermit hholds⟩

/-- The task of a call that is waited for goes on, or its end is among messages. -/
theorem attends (ha : Attended h r) {j : Nat} {s : CallSlot} (hs : r.ledger.slots[j]? = some s)
    (hwaits : s.state = .waiting) : (∃ m ∈ r.inbox, m.ends s.callId = true) ∨
      ∃ u, r.tasks[j]? = some u ∧ u.isOver = false := by
  obtain ⟨hlt, _⟩ := List.getElem?_eq_some_iff.mp hs
  rw [ha.roster.length_slots, ← ha.roster.tasks] at hlt
  have hu := List.getElem?_eq_getElem hlt
  cases hover : r.tasks[j].isOver with
  | false => exact .inr ⟨_, hu, hover⟩
  | true => exact .inl (ha.awaits j s _ hs hu hwaits hover)

/-- If a task is not over, a message is there or some task acts: the task itself, one before it that
it waits for, or one that holds a permit. -/
theorem exists_acts (ha : Attended h r) (hl : Limited (max n 1) r) (ht : r.tasks[i]? = some t)
    (hover : t.isOver = false) : r.inbox ≠ [] ∨ ∃ j, Acts r j := by
  induction i using Nat.strongRecOn generalizing t with
  | ind i ih =>
    cases hs : r.stepTask? i with
    | some q => exact .inr ⟨i, .inl (by rw [canStep, hs]; rfl)⟩
    | none =>
      cases ha.stalls ht hover hs with
      | awaitsCall _ _ _ _ hj hslot hwaits =>
        rcases ha.attends hslot hwaits with ⟨m, hm, _⟩ | ⟨u, hu, hover'⟩
        · exact .inl (List.ne_nil_of_mem hm)
        · exact ih _ hj hu hover'
      | queued hp =>
        obtain ⟨j, u, hu, hholds⟩ := hl.exists_holder ht (by rw [hp]; rfl)
        exact .inr ⟨j, ha.acts_of_holdsPermit hu hholds⟩
      | inAction hin => exact .inr ⟨i, .inr ⟨t, ht, hin⟩⟩

/-- If a call is in flight, a message is there or some task acts. -/
theorem exists_acts_of_inFlight (ha : Attended h r) (hl : Limited (max n 1) r) (hc : Counted r)
    (hpos : 0 < r.ledger.inFlight) : r.inbox ≠ [] ∨ ∃ j, Acts r j := by
  rw [hc] at hpos
  rcases Nat.eq_zero_or_pos (r.inbox.countP Message.isEnd) with hnone | hend
  · rw [hnone, Nat.add_zero] at hpos
    obtain ⟨t, htask, hover⟩ := List.countP_pos_iff.mp hpos
    obtain ⟨i, ht⟩ := List.mem_iff_getElem?.mp htask
    exact ha.exists_acts hl ht (by simpa using hover)
  · obtain ⟨m, hm, _⟩ := List.countP_pos_iff.mp hend
    exact .inl (List.ne_nil_of_mem hm)

/-- When no call is in flight, no slot waits. -/
theorem ne_waiting (ha : Attended h r) (hc : Counted r) (hzero : r.ledger.inFlight = 0) {k : Nat}
    {s : CallSlot} (hs : r.ledger.slots[k]? = some s) : s.state ≠ .waiting := by
  intro hwaits
  rw [hc] at hzero
  rcases ha.attends hs hwaits with ⟨m, hm, hends⟩ | ⟨u, hu, hover⟩
  · have hend : m.isEnd = true := by
      cases m with
      | push e => cases hends
      | prepared id data => cases hends
      | failed id err => rfl
      | completed res => rfl
    have hpos := List.countP_pos_iff.mpr ⟨m, hm, hend⟩
    omega
  · have hpos : 0 < r.tasks.countP fun t => !t.isOver :=
      List.countP_pos_iff.mpr ⟨u, List.mem_of_getElem? hu, by simp [hover]⟩
    omega

end Attended

structure Unblocked (r : Run) : Prop where
  goesOn : 0 < r.ledger.inFlight → r.inbox ≠ [] ∨ ∃ i, Acts r i
  /-- A task that takes no step waits for a call before its own, for a permit, or in its action. -/
  stalls : ∀ (i : Nat) t, r.tasks[i]? = some t → t.isOver = false → r.stepTask? i = none →
    Stalls i r t
  /-- Whoever waits for a call or for a permit holds none. -/
  waits : ∀ (i : Nat) t, Stalls i r t → InAction r t ∨ t.phase.holdsPermit = false
  /-- A call that is waited for is told to have ended, or its task goes on. -/
  attends : ∀ (j : Nat) s, r.ledger.slots[j]? = some s → s.state = .waiting →
    (∃ m ∈ r.inbox, m.ends s.callId = true) ∨ ∃ u, r.tasks[j]? = some u ∧ u.isOver = false
  /-- Permits are free or with those who hold them. -/
  permits : r.permits.free + r.permitHolders = max r.setup.config.maxConcurrentTasks 1
  /-- While a task waits for a permit, another holds one and acts. -/
  queues : ∀ (i : Nat) t slice, r.tasks[i]? = some t → t.phase = .working slice .queued →
    ∃ (j : Nat) (u : CallTask), r.tasks[j]? = some u ∧ u.phase.holdsPermit = true ∧ Acts r j

/-- Whatever calls are in a run, whichever of them ask for which, and however few tasks may work at
once, no schedule leads to where they block each other. If the actions come to their ends, a call in
flight can be got on with: there is a message, or a task can take a step when its time has come. -/
theorem applyAll_unblocked (setup : Setup) (store : Store) (archive : Archive)
    (subscribers : Subscribers) (ms : List Move) :
    let r := (new setup store archive subscribers).applyAll ms
    Unblocked r ∧
      ((∀ a ∈ setup.catalog.actions, a.Returns) → 0 < r.ledger.inFlight →
        r.inbox ≠ [] ∨ ∃ i, CanGoOn r i) := by
  set r₀ := new setup store archive subscribers
  intro r
  have ha : Attended (history ms r₀) r := (Attended.new setup store archive subscribers).applyAll ms
  have hl : Limited (max setup.config.maxConcurrentTasks 1) r :=
    (Limited.new setup store archive subscribers).applyAll ms
  have hcounted : Counted r := counted_applyAll_new setup store archive subscribers ms
  have hsetup : r.setup = setup := (r₀.applyAll_grows ms).setup
  refine ⟨⟨fun hpos => ha.exists_acts_of_inFlight hl hcounted hpos,
    fun i t ht hover hs => ha.stalls ht hover hs, fun i t hstalls => ?_,
    fun j s hs hwaits => ha.attends hs hwaits, ?_, fun i t slice ht hphase => ?_⟩,
    fun hreturns hpos => ?_⟩
  · cases hholds : t.phase.holdsPermit with
    | true => exact .inl (hstalls.inAction_of_holdsPermit hholds)
    | false => exact .inr rfl
  · rw [hsetup]
    exact hl.total
  · obtain ⟨j, u, hu, hholds⟩ := hl.exists_holder ht (by rw [hphase]; rfl)
    exact ⟨j, u, hu, hholds, ha.acts_of_holdsPermit hu hholds⟩
  · have hr : Returning r := by
      refine Returning.applyAll ⟨fun a ha => (hreturns a ha).returnsIn, ?_, ?_⟩ ms
      · simp [r₀, new, Ledger.empty]
      · simp [r₀, new]
    rcases ha.exists_acts_of_inFlight hl hcounted hpos with hinbox | ⟨i, hacts⟩
    · exact .inl hinbox
    · exact .inr ⟨i, hacts.canGoOn hr⟩

end Run

namespace Sample

def askingCall (n : Nat) : Entry :=
  .call
    { toHeader := Header.final ⟨BitVec.ofNat 128 n⟩ noteSetup.epoch
      name := "note", content := "[\"\x7b\x7bcalls.0.output\x7d\x7d\"]", data := none,
      params := [] }

end Sample

open Sample in
/-- With one permit, the second call waits for the first, which then can take a step. -/
theorem Run.applyAll_unblocked_second_waits :
    let setup := { noteSetup with config := { Config.standard with maxConcurrentTasks := 1 } }
    let ms : List Move := [.start, .push (noteCall 1), .push (askingCall 2)]
    let r := (Run.new setup Store.empty Archive.empty Subscribers.empty).applyAll ms
    (∀ a ∈ setup.catalog.actions, a.Returns) ∧ 0 < r.ledger.inFlight ∧
      r.stepTask? 1 = none ∧ Unblocked r ∧ (r.inbox ≠ [] ∨ ∃ i, CanGoOn r i) := by
  intro setup ms r
  have hreturns : ∀ a ∈ setup.catalog.actions, a.Returns := by
    intro a ha
    obtain rfl : a = noteAction := List.mem_singleton.mp ha
    exact ⟨fun _ _ _ _ => fun _ => trivial, fun _ _ => trivial, fun _ _ => trivial⟩
  have hinFlight : 0 < r.ledger.inFlight := by decide +kernel
  have hwaits : r.stepTask? 1 = none := by
    have h : r.canStep 1 = false := by decide +kernel
    simpa [Run.canStep] using h
  obtain ⟨hunblocked, hgoesOn⟩ :=
    applyAll_unblocked setup Store.empty Archive.empty Subscribers.empty ms
  exact ⟨hreturns, hinFlight, hwaits, hunblocked, hgoesOn hreturns hinFlight⟩

end TagLedger
