import Mathlib.Tactic.Common
import TagLedger.Proofs.Run.Host
import TagLedger.Proofs.Run.Permits
import TagLedger.Proofs.Run.Roster

/-!
What keeps a task from taking a step. It waits for a call before its own, or for a permit, or inside
its action; and a call that is waited for has a task that goes on, unless the message of its end is
on the way.
-/

namespace TagLedger

namespace Run

variable {i : Nat} {t t' : CallTask} {r r' q : Run} {m : Message} {h : List (Run × Message)}

inductive InAction (r : Run) (t : CallTask) : Prop where
  | attempts {slice : Json} {n : Nat} {script : Script (Except RunError Json)}
    (hp : t.phase = .working slice (.attempting n script))
    (hs : script.step (r.scene slice) = .waiting)
  | pauses {slice : Json} {n time : Nat} (hp : t.phase = .working slice (.pausing n time))
    (hc : r.cancelled = false) (htime : r.now < time)
  | recovers {slice : Json} {script : Script (Except RunError Json)}
    (hp : t.phase = .recovering slice script) (hs : script.step (r.scene slice) = .waiting)
  | follows {slice : Json} {result : Entry.Result} {script : Script (Except RunError Unit)}
    (hp : t.phase = .succeeding slice result script)
    (hs : script.step (r.scene slice) = .waiting)

/-- Why task `i`, which stands at `t`, takes no step. -/
inductive Stalls (i : Nat) (r : Run) (t : CallTask) : Prop where
  /-- The next template asks for a call before this one, which has not ended. -/
  | awaitsCall {payload : Json} {template : Template} {rest : List Template} {path : String}
    {first : String} {below : List String} {j : Nat} {s : CallSlot}
    (hp : t.phase = .resolving payload (template :: rest))
    (hkey : template.request? = some (Sources.callsKey, path))
    (hpath : Path.segments path = first :: below) (hindex : Path.index? first = some j)
    (hj : j < i) (hs : r.ledger.slots[j]? = some s) (hwaits : s.state = .waiting)
  | queued {slice : Json} (hp : t.phase = .working slice .queued)
  | inAction (h : InAction r t)

/-- A task that waits for a call or for a permit holds none. -/
theorem Stalls.inAction_of_holdsPermit (h : Stalls i r t) (hholds : t.phase.holdsPermit = true) :
    InAction r t := by
  cases h with
  | awaitsCall hp hkey hpath hindex hj hs hwaits =>
    rw [hp] at hholds
    cases hholds
  | queued hp =>
    rw [hp] at hholds
    cases hholds
  | inAction h => exact h

/-- No answer yet means that the call which is asked about waits. -/
theorem waits_of_ask {s : Sources} {key path : String} (h : s.ask key path = none) :
    key = Sources.callsKey ∧ ∃ first below j slot, Path.segments path = first :: below ∧
      Path.index? first = some j ∧ s.slots[j]? = some slot ∧ slot.state = .waiting := by
  unfold Sources.ask at h
  split at h
  · rename_i hkey
    refine ⟨hkey, ?_⟩
    have hnone : s.askCall path = none := Option.map_eq_none_iff.mp h
    unfold Sources.askCall at hnone
    split at hnone
    · cases hnone
    · rename_i first below hpath
      split at hnone
      · cases hnone
      · rename_i slot hslot
        obtain ⟨j, hj, hslot⟩ := Option.bind_eq_some_iff.mp hslot
        refine ⟨first, below, j, slot, hpath, hj, hslot, ?_⟩
        have hreport := Option.map_eq_none_iff.mp hnone
        unfold CallSlot.report? at hreport
        split at hreport
        · rename_i hstate
          exact hstate
        · cases hreport
        · cases hreport
        · cases hreport
  · split at h
    · cases h
    · split at h <;> cases h

/-- A task that takes no step and is not over is stalled. -/
theorem stalls_of_stepTask? (ht : r.tasks[i]? = some t) (hslot : t.slot = i)
    (hover : t.isOver = false) (hjob : ∀ slice, t.phase ≠ .working slice .ended)
    (h : r.stepTask? i = none) : Stalls i r t := by
  simp only [stepTask?, ht, Option.bind_some] at h
  cases hphase : t.phase with
  | resolving payload todo =>
    rw [hphase] at h
    cases todo with
    | nil => cases h
    | cons template rest =>
      simp only [stepResolving?] at h
      split at h
      · cases h
      · rename_i key path hkey
        have hask := Option.map_eq_none_iff.mp h
        obtain ⟨rfl, first, below, j, s, hpath, hindex, hs, hwaits⟩ := waits_of_ask hask
        simp only [sources, hslot] at hs
        obtain ⟨hlt, _⟩ := List.getElem?_eq_some_iff.mp hs
        have hj : j < i := Nat.lt_of_lt_of_le hlt (List.length_take_le _ _)
        rw [List.getElem?_take_of_lt hj] at hs
        exact .awaitsCall hphase hkey hpath hindex hj hs hwaits
  | loading =>
    rw [hphase] at h
    cases h
  | working slice job =>
    rw [hphase] at h
    have hwaits : job.next (r.retryRule t.action.action) (r.scene slice) = .waits := by
      simp only [stepWorking?] at h
      split at h
      · rename_i hwaits
        exact hwaits
      · split at h <;> cases h
      all_goals cases h
    rcases Runner.Job.eq_of_waits hwaits with rfl | rfl | ⟨n, script, rfl, hs⟩ |
      ⟨n, time, rfl, hc, htime⟩
    · exact .queued hphase
    · exact absurd hphase (hjob slice)
    · exact .inAction (.attempts hphase hs)
    · exact .inAction (.pauses hphase hc htime)
  | recovering slice script =>
    simp only [hphase, stepRecovering?] at h
    split at h
    · rename_i hs
      exact .inAction (.recovers hphase hs)
    all_goals cases h
  | concluding slice outcome =>
    rw [hphase] at h
    cases h
  | succeeding slice result script =>
    simp only [hphase, stepSucceeding?] at h
    split at h
    · rename_i hs
      exact .inAction (.follows hphase hs)
    all_goals cases h
  | ended => simp [CallTask.isOver, hphase] at hover

/-- The end of every call whose task is over, and which is still waited for, is among messages. -/
def Awaits (inbox : List Message) (r : Run) : Prop :=
  ∀ (k : Nat) s t, r.ledger.slots[k]? = some s → r.tasks[k]? = some t → s.state = .waiting →
    t.isOver = true → ∃ m ∈ inbox, m.ends s.callId = true

theorem Awaits.congr {inbox : List Message} (ha : Awaits inbox r)
    (hs : r'.ledger.slots = r.ledger.slots) (ht : r'.tasks = r.tasks) : Awaits inbox r' := by
  rw [Awaits, hs, ht]
  exact ha

/-- A message may be taken away if it ends no call that is still waited for afterwards. -/
theorem Awaits.drop {inbox : List Message} (ha : Awaits (m :: inbox) r)
    (ht : r'.tasks = r.tasks)
    (hslots : ∀ (k : Nat) s', r'.ledger.slots[k]? = some s' → s'.state = .waiting →
      r.ledger.slots[k]? = some s' ∧ m.ends s'.callId = false) : Awaits inbox r' := by
  intro k s' t hs' htask hwaits hover
  obtain ⟨hs, hnot⟩ := hslots k s' hs' hwaits
  obtain ⟨m', hm', hends⟩ := ha k s' t hs (ht ▸ htask) hwaits hover
  rcases List.mem_cons.mp hm' with rfl | hm'
  · rw [hnot] at hends
    cases hends
  · exact ⟨m', hm', hends⟩

/-- A slot that waits after others were given a state was waiting, under another identifier. -/
theorem waiting_of_resolve {id : Uuid} (state : CallState) {slots : List CallSlot} {k : Nat}
    {s' : CallSlot} (hne : state ≠ .waiting)
    (hs' : (CallSlot.resolve id state slots)[k]? = some s') (hwaits : s'.state = .waiting) :
    slots[k]? = some s' ∧ s'.callId ≠ id := by
  rcases CallSlot.of_resolve hs' with ⟨hs, hawaits⟩ | ⟨s, _, _, rfl⟩
  · refine ⟨hs, fun hid => ?_⟩
    rw [CallSlot.awaits_iff.mpr ⟨hid, hwaits⟩] at hawaits
    cases hawaits
  · exact absurd hwaits hne

theorem Awaits.reception (ha : Awaits (m :: q.inbox) q) (hr : Roster h q)
    (hm : Reception q m r') : Awaits r'.inbox r' := by
  rw [hm.inbox]
  cases hm with
  | plain _ hl =>
    have hq := Quiet.logsPlain hl
    exact ha.drop hq.tasks fun k s' hs' _ => ⟨hq.slots ▸ hs', rfl⟩
  | result _ hl => exact ha.drop hl.tasks fun k s' hs' _ => ⟨hl.slots ▸ hs', rfl⟩
  | refused _ _ hl => exact ha.drop hl.tasks fun k s' hs' _ => ⟨hl.slots ▸ hs', rfl⟩
  | @accepted _ c p logged _ _ hl =>
    have htasks : logged.tasks = q.tasks := hl.tasks
    have hslots : logged.ledger.slots = CallSlot.add q.ledger.slots c.name c.id := hl.slots
    intro k s t hs ht hwaits hover
    simp only [spawn, htasks, hslots] at hs ht
    rcases getElem?_concat ht with ht | ⟨_, rfl⟩
    · obtain ⟨hlt, _⟩ := List.getElem?_eq_some_iff.mp ht
      rw [hr.tasks, ← hr.length_slots] at hlt
      rw [CallSlot.add, List.getElem?_append_left (by rwa [List.length_map])] at hs
      obtain ⟨hs, _⟩ := waiting_of_resolve .dropped (by simp) hs hwaits
      obtain ⟨m', hm', hends⟩ := ha k s t hs ht hwaits hover
      rcases List.mem_cons.mp hm' with rfl | hm'
      · cases hends
      · exact ⟨m', hm', hends⟩
    · cases hover
  | prepared id data =>
    have hpatch := patchCall_untouched id data q
    exact ha.drop hpatch.tasks fun k s' hs' _ => ⟨hpatch.slots ▸ hs', rfl⟩
  | @failed id _ _ err _ hl =>
    refine ha.drop hl.tasks fun k s' hs' hwaits => ?_
    rw [hl.slots] at hs'
    obtain ⟨hs, hid⟩ := waiting_of_resolve (.failed err.message) (by simp) hs' hwaits
    exact ⟨hs, beq_eq_false_iff_ne.mpr hid.symm⟩
  | @completed res _ hl =>
    refine ha.drop hl.tasks fun k s' hs' hwaits => ?_
    rw [hl.slots] at hs'
    obtain ⟨hs, hid⟩ := waiting_of_resolve (.completed res) (by simp) hs' hwaits
    exact ⟨hs, beq_eq_false_iff_ne.mpr hid.symm⟩

theorem Awaits.advances (ha : Awaits r.inbox r) (hr : Roster h r) (hadv : Advances i r r') :
    Awaits r'.inbox r' := by
  obtain ⟨t, t', sent, hsteps, hover, hprogress⟩ := hadv
  intro k s u hs hu hwaits hover'
  rw [hsteps.ledger] at hs
  rw [hsteps.inbox]
  by_cases hk : k = i
  · subst hk
    obtain rfl : t' = u := Option.some.inj (hsteps.after.symm.trans hu)
    obtain ⟨x, s₀, _, hs₀, hserves, _, hid⟩ := hr.exists_served hsteps.before
    obtain rfl : s = s₀ := Option.some.inj (hs.symm.trans hs₀)
    have hcall : t.call.id = s.callId := hserves.callId.trans hid.symm
    cases hprogress with
    | goesOn hp _ _ =>
      rw [hp] at hover'
      cases hover'
    | prepared data => cases hover'
    | rejected _ => exact ⟨_, List.mem_append_right _ (List.mem_singleton_self _), by
        simp [Message.ends, hcall]⟩
    | completed hres => exact ⟨_, List.mem_append_right _ (List.mem_singleton_self _), by
        simp [Message.ends, hres, hcall]⟩
  · obtain ⟨v, hv, hkept⟩ := hsteps.exists_kept hk hu
    obtain ⟨m, hm, hends⟩ := ha k s v hs hv hwaits (hkept.isOver_eq.2 ▸ hover')
    exact ⟨m, List.mem_append_left _ hm, hends⟩

structure Attended (h : List (Run × Message)) (r : Run) : Prop where
  roster : Roster h r
  own : r.TasksOwn
  awaits : Awaits r.inbox r
  jobs : ∀ t ∈ r.tasks, ∀ slice, t.phase ≠ .working slice .ended

theorem Conduct.job_ne_ended {sent : List Message} (h : Conduct i r t t' sent r')
    (slice : Json) : t'.phase ≠ .working slice .ended := by
  cases h with
  | works hp hturn hsends hcome => cases hturn <;> exact nofun
  | _ => exact nofun

namespace Attended

theorem quiet (ha : Attended h r) (hq : Quiet r r') : Attended h r' where
  roster := ha.roster.quiet hq
  own := hq.tasksOwn ha.own
  awaits := by
    rw [hq.inbox]
    exact ha.awaits.congr hq.slots hq.tasks
  jobs := by
    rw [hq.tasks]
    exact ha.jobs

/-- A message is taken that was the oldest until then, or comes from outside. -/
theorem reception (hr : Roster h q) (hown : q.TasksOwn) (ha : Awaits (m :: q.inbox) q)
    (hjobs : ∀ t ∈ q.tasks, ∀ slice, t.phase ≠ .working slice .ended) (hm : Reception q m r') :
    Attended (h ++ [(q, m)]) r' where
  roster := hr.reception hm
  own := hm.tasksOwn hown
  awaits := ha.reception hr hm
  jobs := by
    obtain ⟨new, htasks, hnew⟩ := (Aside.reception hm).tasks
    intro t ht slice hphase
    rw [htasks] at ht
    rcases List.mem_append.mp ht with ht | ht
    · exact hjobs t ht slice hphase
    · have hnone := hnew t ht
      rw [hphase] at hnone
      cases hnone

theorem steps (ha : Attended h r) (hs : r.stepTask? i = some r') : Attended h r' := by
  have hadv := stepTask?_advances hs ha.own
  refine ⟨ha.roster.steps hs, hadv.tasksOwn ha.own, ha.awaits.advances ha.roster hadv, ?_⟩
  obtain ⟨t, t', sent, ht, hconduct⟩ := stepTask?_conduct hs
  have hsteps := hconduct.steps ht
  intro u hu slice
  rcases hsteps.mem_cases hu with rfl | ⟨v, hv, hkept⟩
  · exact hconduct.job_ne_ended slice
  · cases hkept with
    | same => exact ha.jobs _ hv slice
    | admitted _ => exact nofun

theorem applyAll (ha : Attended h r) (ms : List Move) :
    Attended (h ++ history ms r) (r.applyAll ms) := by
  refine applyAll_keeps (I := Attended) ?_ ?_ ?_ ?_ ha ms
  · exact fun ha hq => ha.quiet hq
  · intro g q e q' ha hm
    refine reception ha.roster ha.own (fun k s t hs ht hw ho => ?_) ha.jobs hm
    obtain ⟨m, hm, hends⟩ := ha.awaits k s t hs ht hw ho
    exact ⟨m, List.mem_cons_of_mem _ hm, hends⟩
  · intro g q m rest q' ha hinbox hm
    have hr : Roster g { q with inbox := rest } := ha.roster.congr rfl rfl rfl
    refine reception hr ha.own ?_ ha.jobs hm
    have hawaits := ha.awaits
    rw [hinbox] at hawaits
    exact hawaits.congr rfl rfl
  · exact fun ha hs => ha.steps hs

theorem new (setup : Setup) (store : Store) (archive : Archive) (subscribers : Subscribers) :
    Attended [] (new setup store archive subscribers) where
  roster := .new setup store archive subscribers
  own := by simp [TasksOwn, Run.new]
  awaits := by simp [Awaits, Run.new, Ledger.empty]
  jobs := by simp [Run.new]

/-- Every task that goes on takes a step or is stalled. -/
theorem stalls (ha : Attended h r) (ht : r.tasks[i]? = some t) (hover : t.isOver = false)
    (hs : r.stepTask? i = none) : Stalls i r t := by
  obtain ⟨x, s, _, _, hserves, _⟩ := ha.roster.exists_served ht
  exact stalls_of_stepTask? ht hserves.slot hover (ha.jobs t (List.mem_of_getElem? ht)) hs

end Attended

end Run

end TagLedger
