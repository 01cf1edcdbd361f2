import Mathlib.Tactic.Common
import TagLedger.Proofs.Run.Conduct
import TagLedger.Proofs.Run.Schedule
import TagLedger.Proofs.Run.Slots

/-!
What stays as a run goes on. Tasks and slots are added at the end only; a task keeps its call but
for the data, and a slot that does not wait never changes again. So what a template was answered
once, it would be answered at any later time.
-/

namespace TagLedger

/-- A task as it may be later: only phase and data have changed. -/
structure CallTask.Follows (t t' : CallTask) : Prop where
  action : t'.action = t.action
  context : t'.context = t.context
  memory : t'.memory = t.memory
  slot : t'.slot = t.slot
  call : ∃ data, t'.call = { t.call with data }

namespace CallTask

variable {t t' t'' : CallTask}

theorem Follows.of_phase (p : Phase) : t.Follows { t with phase := p } :=
  ⟨rfl, rfl, rfl, rfl, t.call.data, rfl⟩

theorem Follows.refl (t : CallTask) : t.Follows t := .of_phase t.phase

theorem Follows.trans (h : t.Follows t') (h' : t'.Follows t'') : t.Follows t'' where
  action := h'.action.trans h.action
  context := h'.context.trans h.context
  memory := h'.memory.trans h.memory
  slot := h'.slot.trans h.slot
  call := by
    obtain ⟨data, hd⟩ := h.call
    obtain ⟨data', hd'⟩ := h'.call
    exact ⟨data', by rw [hd', hd]⟩

theorem Kept.follows (h : t.Kept t') : t.Follows t' := by
  cases h with
  | same => exact .refl t
  | admitted h => exact .of_phase _

end CallTask

structure CallSlot.Follows (s s' : CallSlot) : Prop where
  name : s'.name = s.name
  callId : s'.callId = s.callId
  ended : s.state ≠ .waiting → s' = s

namespace CallSlot

variable {s s' s'' : CallSlot}

theorem Follows.refl (s : CallSlot) : s.Follows s := ⟨rfl, rfl, fun _ => rfl⟩

theorem Follows.trans (h : s.Follows s') (h' : s'.Follows s'') : s.Follows s'' where
  name := h'.name.trans h.name
  callId := h'.callId.trans h.callId
  ended := fun hs => by
    obtain rfl := h.ended hs
    exact h'.ended hs

theorem follows_of_awaits (id : Uuid) (state : CallState) (s : CallSlot) :
    s.Follows (if s.awaits id then { s with state } else s) := by
  split
  · rename_i h
    exact ⟨rfl, rfl, fun hs => absurd (awaits_iff.mp h).2 hs⟩
  · exact .refl s

theorem Follows.report?_eq (h : s.Follows s') {report : Except RunError Entry.Result}
    (hs : s.report? = some report) : s'.report? = some report := by
  rw [h.ended fun hw => ?_, hs]
  simp [report?, hw] at hs

end CallSlot

namespace Run

variable {r r' r'' : Run} {i : Nat} {m : Message}

structure Grows (r r' : Run) : Prop where
  setup : r'.setup = r.setup
  tasks : ∀ (k : Nat) t, r.tasks[k]? = some t → ∃ t', r'.tasks[k]? = some t' ∧ t.Follows t'
  slots : ∀ (k : Nat) s, r.ledger.slots[k]? = some s →
    ∃ s', r'.ledger.slots[k]? = some s' ∧ s.Follows s'

theorem Conduct.task_follows {t t' : CallTask} {sent : List Message}
    (h : Conduct i r t t' sent r') : t.Follows t' := by
  cases h with
  | @prepares payload data hp hdata => exact ⟨rfl, rfl, rfl, rfl, some data, rfl⟩
  | _ => exact .of_phase _

namespace Grows

theorem of_eq (hs : r'.setup = r.setup) (ht : r'.tasks = r.tasks)
    (hl : r'.ledger.slots = r.ledger.slots) : Grows r r' where
  setup := hs
  tasks := fun _ t h => ⟨t, ht ▸ h, .refl t⟩
  slots := fun _ s h => ⟨s, hl ▸ h, .refl s⟩

theorem refl (r : Run) : Grows r r := of_eq rfl rfl rfl

theorem trans (h : Grows r r') (h' : Grows r' r'') : Grows r r'' where
  setup := h'.setup.trans h.setup
  tasks := fun k t ht => by
    obtain ⟨t', ht', hf⟩ := h.tasks k t ht
    obtain ⟨t'', ht'', hf'⟩ := h'.tasks k t' ht'
    exact ⟨t'', ht'', hf.trans hf'⟩
  slots := fun k s hs => by
    obtain ⟨s', hs', hf⟩ := h.slots k s hs
    obtain ⟨s'', hs'', hf'⟩ := h'.slots k s' hs'
    exact ⟨s'', hs'', hf.trans hf'⟩

theorem quiet (h : Quiet r r') : Grows r r' := of_eq h.setup h.tasks h.slots

/-- The slots that wait under an identifier get a new state. -/
theorem of_awaits (id : Uuid) (state : CallState) (hs : r'.setup = r.setup)
    (ht : r'.tasks = r.tasks) (hl : ∃ new, r'.ledger.slots =
      (r.ledger.slots.map fun s => if s.awaits id then { s with state } else s) ++ new) :
    Grows r r' where
  setup := hs
  tasks := fun _ t h => ⟨t, ht ▸ h, .refl t⟩
  slots := fun k s h => by
    obtain ⟨new, hnew⟩ := hl
    obtain ⟨hlt, _⟩ := List.getElem?_eq_some_iff.mp h
    refine ⟨_, ?_, CallSlot.follows_of_awaits id state s⟩
    rw [hnew, List.getElem?_append_left (by rwa [List.length_map]), List.getElem?_map, h,
      Option.map_some]

theorem reception (h : Reception r m r') : Grows r r' := by
  cases h with
  | plain _ hl => exact quiet (.logsPlain hl)
  | result _ hl => exact of_eq hl.setup hl.tasks hl.slots
  | refused _ _ hl => exact of_eq hl.setup hl.tasks hl.slots
  | @accepted _ c p q _ _ hl =>
    have hlogged : Grows r q :=
      .of_awaits c.id .dropped hl.setup hl.tasks ⟨[⟨c.name, c.id, .waiting⟩], hl.slots⟩
    refine ⟨hlogged.setup, fun k t ht => ?_, hlogged.slots⟩
    obtain ⟨t', ht', hf⟩ := hlogged.tasks k t ht
    obtain ⟨hlt, _⟩ := List.getElem?_eq_some_iff.mp ht'
    exact ⟨t', (List.getElem?_append_left hlt).trans ht', hf⟩
  | prepared id data =>
    have hpatch := patchCall_untouched id data r
    exact of_eq hpatch.setup hpatch.tasks hpatch.slots
  | @failed id _ _ err _ hl =>
    exact .of_awaits id (.failed err.message) hl.setup hl.tasks
      ⟨[], by rw [hl.slots, List.append_nil]; rfl⟩
  | @completed res _ hl =>
    exact .of_awaits res.callId (.completed res) hl.setup hl.tasks
      ⟨[], by rw [hl.slots, List.append_nil]; rfl⟩

theorem steps (h : r.stepTask? i = some r') : Grows r r' := by
  obtain ⟨t, t', sent, ht, hconduct⟩ := stepTask?_conduct h
  have hsteps := hconduct.steps ht
  refine ⟨hsteps.setup, fun k u hu => ?_, fun k s hs => ⟨s, hsteps.ledger ▸ hs, .refl s⟩⟩
  by_cases hk : k = i
  · subst hk
    obtain rfl : t = u := Option.some.inj (ht.symm.trans hu)
    exact ⟨t', hsteps.after, hconduct.task_follows⟩
  · have hrel := hsteps.others k hk
    rw [hu] at hrel
    generalize r'.tasks[k]? = after at hrel ⊢
    cases hrel with
    | some hkept => exact ⟨_, rfl, hkept.follows⟩

end Grows

theorem applyAll_grows (r : Run) (ms : List Move) : Grows r (r.applyAll ms) := by
  refine applyAll_keeps (I := fun _ q => Grows r q) (g := []) ?_ ?_ ?_ ?_ (.refl r) ms
  · exact fun h hq => h.trans (.quiet hq)
  · exact fun h hr => h.trans (.reception hr)
  · intro _ q _ rest _ h _ hr
    have htaken : Grows q { q with inbox := rest } := .of_eq rfl rfl rfl
    exact (h.trans htaken).trans (.reception hr)
  · exact fun h hs => h.trans (.steps hs)

theorem applyAll_append_grows (r : Run) (ms ms' : List Move) :
    Grows (r.applyAll ms) (r.applyAll (ms ++ ms')) := by
  rw [applyAll_append]
  exact applyAll_grows _ ms'

end Run

structure Sources.Grows (s s' : Sources) : Prop where
  slots : ∀ i : Nat, Option.Rel CallSlot.Follows s.slots[i]? s'.slots[i]?
  contexts : s'.contexts = s.contexts
  memoryContext : s'.memoryContext = s.memoryContext
  external : s'.external = s.external

namespace Sources

variable {s s' s'' : Sources}

theorem Grows.refl (s : Sources) : s.Grows s where
  slots := fun i => by
    cases s.slots[i]? with
    | none => exact .none
    | some x => exact .some (.refl x)
  contexts := rfl
  memoryContext := rfl
  external := rfl

theorem askCall_grows (h : s.Grows s') {path : String} {a : Template.Answer}
    (ha : s.askCall path = some a) : s'.askCall path = some a := by
  unfold askCall at ha ⊢
  split at ha
  · exact ha
  · rename_i first rest _
    cases hi : Path.index? first with
    | none =>
      rw [hi] at ha
      exact ha
    | some i =>
      rw [hi, Option.bind_some] at ha
      rw [Option.bind_some]
      have hrel := h.slots i
      generalize s.slots[i]? = x at ha hrel
      generalize s'.slots[i]? = x' at hrel ⊢
      cases hrel with
      | none => exact ha
      | some hf =>
        obtain ⟨report, hreport, rfl⟩ := Option.map_eq_some_iff.mp ha
        simp only [hf.report?_eq hreport, Option.map_some]

/-- What was answered once is answered alike later. -/
theorem ask_grows (h : s.Grows s') {key path : String} {reply : Reply}
    (ha : s.ask key path = some reply) : s'.ask key path = some reply := by
  unfold ask at ha ⊢
  by_cases hkey : key = callsKey
  · rw [if_pos hkey] at ha ⊢
    obtain ⟨a, hcall, rfl⟩ := Option.map_eq_some_iff.mp ha
    rw [askCall_grows h hcall, Option.map_some]
  · rw [if_neg hkey] at ha ⊢
    rw [askMemory, h.contexts, h.memoryContext, h.external]
    exact ha

end Sources

theorem Run.Grows.sources {r r' : Run} {t t' : CallTask} (h : r.Grows r') (ht : t.Follows t')
    (hslot : t.slot ≤ r.ledger.slots.length) : (r.sources t).Grows (r'.sources t') where
  slots := fun i => by
    simp only [Run.sources, ht.slot, List.getElem?_take]
    split
    · obtain ⟨s, hs⟩ : ∃ s, r.ledger.slots[i]? = some s :=
        ⟨_, List.getElem?_eq_getElem (by omega)⟩
      obtain ⟨s', hs', hf⟩ := h.slots i s hs
      rw [hs, hs']
      exact .some hf
    · exact .none
  contexts := by simp only [Run.sources, Run.contexts, h.setup]
  memoryContext := by simp only [Run.sources, h.setup]
  external := by simp only [Run.sources, h.setup]

end TagLedger
