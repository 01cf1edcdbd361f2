import Mathlib.Tactic.Common
import TagLedger.Proofs.Action.Owners
import TagLedger.Proofs.Run.Handling
import TagLedger.Proofs.Run.Schedule

/-!
Moves that are no steps of tasks. They may start new tasks and write working memory, and leave all
else in the store as it is. Calls reach actions of the catalog only, and those in flight are the
tasks that go on together with the ends that are on their way.
-/

namespace TagLedger

def Message.isEnd : Message → Bool
  | .failed _ _ => true
  | .completed _ => true
  | _ => false

theorem Message.IsPush.isEnd_eq {m : Message} (h : m.IsPush) : m.isEnd = false := by
  obtain ⟨e, rfl⟩ := h
  rfl

theorem WorkingMemory.load_store (key : String) (s : Store) :
    (WorkingMemory.load key s).2 = (s.read key).2 := by
  unfold load
  split
  · rename_i h
    rw [h]
  · rename_i h
    rw [h]
  · rename_i h
    rw [h]
    split <;> rfl

/-- A step sends an end exactly if it ends its task. -/
theorem CallTask.Progress.countP_isEnd {t t' : CallTask} {sent : List Message}
    (h : t.Progress t' sent) : sent.countP Message.isEnd = if t'.isOver then 1 else 0 := by
  cases h with
  | goesOn hp _ hsent =>
    rw [hp]
    exact List.countP_eq_zero.mpr fun m hm => by simp [(hsent m hm).isEnd_eq]
  | prepared data => rfl
  | rejected _ => rfl
  | completed _ => rfl

namespace Run

variable {i : Nat} {r r' r'' : Run} {m : Message}

theorem apply_start (r : Run) : r.apply .start = r.start.2 ∨ r.apply .start = r := by
  rw [apply]
  split
  · exact .inl rfl
  · exact .inr rfl

/-- No task takes a step; new ones may be there, and only working memory is written. -/
structure Aside (r r' : Run) : Prop where
  setup : r'.setup = r.setup
  permits : r'.permits = r.permits
  executions : r'.executions = r.executions
  cancelled : r'.cancelled = false → r.cancelled = false
  readFault : r'.store.readFault = r.store.readFault
  writeFault : r'.store.writeFault = r.store.writeFault
  cells : ∀ key, key ≠ r.memoryKey → r'.store.value? key = r.store.value? key
  tasks : ∃ new, r'.tasks = r.tasks ++ new ∧ ∀ t ∈ new, t.phase.isResolving = true

namespace Aside

theorem refl (r : Run) : Aside r r :=
  ⟨rfl, rfl, rfl, id, rfl, rfl, fun _ _ => rfl, [], by simp, by simp⟩

theorem memoryKey (h : Aside r r') : r'.memoryKey = r.memoryKey := by
  unfold Run.memoryKey
  rw [h.setup]

theorem trans (h : Aside r r') (h' : Aside r' r'') : Aside r r'' where
  setup := h'.setup.trans h.setup
  permits := h'.permits.trans h.permits
  executions := h'.executions.trans h.executions
  cancelled := fun hc => h.cancelled (h'.cancelled hc)
  readFault := h'.readFault.trans h.readFault
  writeFault := h'.writeFault.trans h.writeFault
  cells := fun key hkey => (h'.cells key (h.memoryKey ▸ hkey)).trans (h.cells key hkey)
  tasks := by
    obtain ⟨xs, hxs, hx⟩ := h.tasks
    obtain ⟨ys, hys, hy⟩ := h'.tasks
    refine ⟨xs ++ ys, by rw [hys, hxs, List.append_assoc], fun t ht => ?_⟩
    rcases List.mem_append.mp ht with ht | ht
    · exact hx t ht
    · exact hy t ht

theorem of_untouched (h : Untouched r r') : Aside r r' where
  setup := h.setup
  permits := h.permits
  executions := h.executions
  cancelled := fun hc => h.cancelled ▸ hc
  readFault := h.readFault
  writeFault := h.writeFault
  cells := h.cells
  tasks := ⟨[], by rw [h.tasks, List.append_nil], by simp⟩

theorem of_ledger (l : Ledger) (r : Run) : Aside r { r with ledger := l } :=
  { refl r with }

theorem of_read (key : String) (r : Run) : Aside r { r with store := (r.store.read key).2 } :=
  { refl r with
    readFault := Store.readFault_read r.store key
    writeFault := Store.writeFault_read r.store key
    cells := fun other _ => Store.value?_read r.store key other }

theorem calm (h : Calm r r') : Aside r r' := by
  cases h with
  | logs h =>
    obtain ⟨_, _, hl, _⟩ := h
    exact .of_untouched hl.toUntouched
  | cancels => exact { refl r with cancelled := nofun }
  | waits ms => exact { refl r with }

theorem reception (h : Reception r m r') : Aside r r' := by
  cases h with
  | plain _ hl => exact .calm (.logs hl)
  | result _ hl => exact .of_untouched hl.toUntouched
  | refused _ _ hl => exact .of_untouched hl.toUntouched
  | accepted _ _ hl =>
    refine ((of_ledger _ r).trans (.of_untouched hl.toUntouched)).trans ?_
    exact { refl _ with tasks := ⟨_, rfl, by simp [Phase.isResolving]⟩ }
  | prepared id data => exact .of_untouched (patchCall_untouched id data r)
  | failed hl => exact (of_ledger _ r).trans (.of_untouched hl.toUntouched)
  | completed hl => exact (of_ledger _ r).trans (.of_untouched hl.toUntouched)

theorem trace {S : Nat → Prop} {h : List (Run × Message)} (hS : ∀ i, ¬ S i)
    (ht : Trace S r h r') : Aside r r' := by
  induction ht with
  | refl => exact refl r
  | calm _ hc ih => exact ih.trans (calm hc)
  | tells _ e ih => exact ih.trans (reception (receive_reception _ _))
  | @delivers _ q msg rest _ hm ih =>
    have htaken : Aside q { q with inbox := rest } := { refl q with }
    exact (ih.trans htaken).trans (reception (receive_reception _ _))
  | steps _ hi _ _ => exact absurd hi (hS _)

theorem start (r : Run) : Aside r r.start.2 := by
  have hread : Aside r { r with store := (WorkingMemory.load r.memoryKey r.store).2 } :=
    WorkingMemory.load_store r.memoryKey r.store ▸ of_read r.memoryKey r
  cases hload : WorkingMemory.load r.memoryKey r.store with
  | mk loaded store =>
    rw [hload] at hread
    cases loaded with
    | error err =>
      simp only [Run.start, hload]
      exact hread
    | ok memory =>
      simp only [Run.start, hload]
      have hbind := hread.trans (of_ledger (bindCatalog memory { r with store }).ledger _)
      exact hbind.trans ((calm (.logs (openRun_logs _))).trans (calm (.logs (nextStep_logs _))))

theorem apply {move : Move} (hm : ∀ i, move ≠ .task i) (r : Run) : Aside r (r.apply move) := by
  by_cases hstart : move = .start
  · rw [hstart]
    rcases r.apply_start with h | h
    · exact h ▸ start r
    · exact h.symm ▸ refl r
  · exact trace hm (apply_trace hstart r)

end Aside

structure Bound (r : Run) : Prop where
  own : r.TasksOwn
  actions : ∀ b ∈ r.ledger.actions, b.action ∈ r.setup.catalog.actions
  tasks : ∀ t ∈ r.tasks, t.action.action ∈ r.setup.catalog.actions

namespace Bound

theorem congr (hb : Bound r) (hs : r'.setup = r.setup) (ha : r'.ledger.actions = r.ledger.actions)
    (ht : r'.tasks = r.tasks) : Bound r' where
  own := by
    rw [TasksOwn, ht]
    exact hb.own
  actions := by
    rw [ha, hs]
    exact hb.actions
  tasks := by
    rw [ht, hs]
    exact hb.tasks

theorem untouched (hb : Bound r) (h : Untouched r r') : Bound r' :=
  hb.congr h.setup h.actions h.tasks

theorem quiet (hb : Bound r) (h : Quiet r r') : Bound r' where
  own := h.tasksOwn hb.own
  actions := fun b hmem => by
    rcases h.actions with ha | ⟨memory, ha⟩
    · rw [ha] at hmem
      exact h.setup ▸ hb.actions b hmem
    · rw [ha] at hmem
      exact Action.mem_of_mem_prepare hmem
  tasks := by
    rw [h.tasks, h.setup]
    exact hb.tasks

theorem reception (hb : Bound r) (h : Reception r m r') : Bound r' := by
  cases h with
  | plain _ hl => exact hb.quiet (.logsPlain hl)
  | result _ hl => exact hb.untouched hl.toUntouched
  | refused _ _ hl => exact hb.untouched hl.toUntouched
  | @accepted _ c p q _ hp hl =>
    have hlogged : Bound q :=
      (hb.congr rfl rfl rfl : Bound (r.openSlot c)).untouched hl.toUntouched
    have hsetup : q.setup = r.setup := hl.setup
    refine ⟨?_, hlogged.actions, fun t ht => ?_⟩
    · exact (Reception.accepted ‹_› hp hl).tasksOwn hb.own
    · rcases List.mem_append.mp ht with ht | ht
      · exact hlogged.tasks t ht
      · rw [List.mem_singleton.mp ht]
        exact hsetup ▸ hb.actions _ (PreparedCall.mem_of_ofCall hp)
  | prepared id data => exact hb.untouched (patchCall_untouched id data r)
  | failed hl => exact hb.congr hl.setup hl.actions hl.tasks
  | completed hl => exact hb.congr hl.setup hl.actions hl.tasks

theorem advances (hb : Bound r) (h : Advances i r r') : Bound r' := by
  have hown := h.tasksOwn hb.own
  obtain ⟨t, t', sent, hsteps, _, hprogress⟩ := h
  refine ⟨hown, ?_, fun u hu => ?_⟩
  · rw [hsteps.ledger, hsteps.setup]
    exact hb.actions
  · rw [hsteps.setup]
    rcases hsteps.mem_cases hu with rfl | ⟨v, hv, hkept⟩
    · have hbefore := hb.tasks t (List.mem_of_getElem? hsteps.before)
      cases hprogress <;> exact hbefore
    · have hbefore := hb.tasks v hv
      cases hkept <;> exact hbefore

theorem steps (hb : Bound r) (h : r.stepTask? i = some r') : Advances i r r' :=
  stepTask?_advances h hb.own

end Bound

/-- Being let in from the queue ends no task, so only task `i` can change in this. -/
theorem Steps.map_isOver {t t' : CallTask} {sent : List Message} (h : Steps i t t' sent r r') :
    r'.tasks.map CallTask.isOver = (r.tasks.map CallTask.isOver).set i t'.isOver := by
  refine List.ext_getElem? fun k => ?_
  by_cases hk : k = i
  · subst hk
    obtain ⟨hlt, _⟩ := List.getElem?_eq_some_iff.mp h.before
    simp [h.after, hlt]
  · rw [List.getElem?_set_ne (Ne.symm hk), List.getElem?_map, List.getElem?_map]
    have hrel := h.others k hk
    generalize r.tasks[k]? = before, r'.tasks[k]? = after at hrel
    cases hrel with
    | none => rfl
    | some hkept => exact congrArg some hkept.isOver_eq.2

/-- Calls in flight are tasks that go on or ends that are not taken yet. -/
def Counted (r : Run) : Prop :=
  r.ledger.inFlight = r.tasks.countP (fun t => !t.isOver) + r.inbox.countP Message.isEnd

namespace Counted

theorem congr (hc : Counted r) (hf : r'.ledger.inFlight = r.ledger.inFlight)
    (ht : r'.tasks = r.tasks) (hi : r'.inbox = r.inbox) : Counted r' := by
  rw [Counted, hf, ht, hi]
  exact hc

theorem quiet (hc : Counted r) (h : Quiet r r') : Counted r' :=
  hc.congr h.inFlight h.tasks h.inbox

/-- A message that is taken is counted until then. -/
theorem reception (hc : r.ledger.inFlight = r.tasks.countP (fun t => !t.isOver) +
    (m :: r.inbox).countP Message.isEnd) (h : Reception r m r') : Counted r' := by
  rw [List.countP_cons] at hc
  cases h with
  | plain _ hl => exact Counted.quiet hc (.logsPlain hl)
  | result _ hl => exact Counted.congr hc hl.inFlight hl.tasks hl.inbox
  | refused _ _ hl => exact Counted.congr hc hl.inFlight hl.tasks hl.inbox
  | @accepted _ c p q _ _ hl =>
    have hlogged : Counted q := Counted.congr hc hl.inFlight hl.tasks hl.inbox
    have hspawn (t : CallTask) (ht : t.isOver = false) :
        (q.tasks ++ [t]).countP (fun t => !t.isOver) =
          q.tasks.countP (fun t => !t.isOver) + 1 := by
      simp [List.countP_append, ht]
    show q.ledger.inFlight + 1 = _
    rw [hlogged]
    refine Eq.trans ?_ (congrArg (· + q.inbox.countP Message.isEnd) (hspawn _ rfl).symm)
    omega
  | prepared id data =>
    have hpatch := patchCall_untouched id data r
    exact Counted.congr hc hpatch.inFlight hpatch.tasks hpatch.inbox
  | failed hl =>
    rw [Counted, hl.inFlight, hl.tasks, hl.inbox]
    exact Nat.sub_eq_of_eq_add hc
  | completed hl =>
    rw [Counted, hl.inFlight, hl.tasks, hl.inbox]
    exact Nat.sub_eq_of_eq_add hc

theorem advances (hc : Counted r) (h : Advances i r r') : Counted r' := by
  obtain ⟨t, t', sent, hsteps, hover, hprogress⟩ := h
  obtain ⟨hlt, hget⟩ := List.getElem?_eq_some_iff.mp hsteps.before
  have hlt' : i < (r.tasks.map CallTask.isOver).length := by rwa [List.length_map]
  have hbefore : (r.tasks.map CallTask.isOver)[i] = false := by rw [List.getElem_map, hget, hover]
  have hpos : 0 < (r.tasks.map CallTask.isOver).countP (fun b => !b) :=
    List.countP_pos_iff.mpr ⟨false, hbefore ▸ List.getElem_mem hlt', rfl⟩
  have hcount (ts : List CallTask) :
      ts.countP (fun t => !t.isOver) = (ts.map CallTask.isOver).countP (fun b => !b) := by
    rw [List.countP_map]
    rfl
  rw [Counted, hcount] at hc
  rw [Counted, hcount, hsteps.map_isOver, List.countP_set hlt', hbefore, hsteps.ledger,
    hsteps.inbox, List.countP_append, hprogress.countP_isEnd, hc]
  cases t'.isOver with
  | false =>
    simp only [Bool.not_false, ↓reduceIte, Bool.false_eq_true]
    omega
  | true =>
    simp only [Bool.not_false, Bool.not_true, ↓reduceIte, Bool.false_eq_true]
    omega

/-- When no call is in flight, every task is over. -/
theorem isOver_of_inFlight (hc : Counted r) (h : r.ledger.inFlight = 0) {t : CallTask}
    (ht : t ∈ r.tasks) : t.isOver = true := by
  rw [Counted, h] at hc
  have hzero : r.tasks.countP (fun t => !t.isOver) = 0 := by omega
  simpa using List.countP_eq_zero.mp hzero t ht

end Counted

theorem applyAll_bound (hb : Bound r) (hc : Counted r) (ms : List Move) :
    Bound (r.applyAll ms) ∧ Counted (r.applyAll ms) := by
  refine applyAll_keeps (I := fun _ q => Bound q ∧ Counted q) (g := []) ?_ ?_ ?_ ?_ ⟨hb, hc⟩ ms
  · exact fun ⟨hb, hc⟩ hq => ⟨hb.quiet hq, hc.quiet hq⟩
  · intro _ q e q' ⟨hb, hc⟩ hm
    refine ⟨hb.reception hm, Counted.reception ?_ hm⟩
    rw [List.countP_cons_of_neg (by simp [Message.isEnd])]
    exact hc
  · intro _ q m rest q' ⟨hb, hc⟩ hinbox hm
    have htaken : Bound { q with inbox := rest } := hb.congr rfl rfl rfl
    refine ⟨htaken.reception hm, Counted.reception ?_ hm⟩
    rw [Counted, hinbox] at hc
    exact hc
  · intro _ q i q' ⟨hb, hc⟩ hs
    have hadv := hb.steps hs
    exact ⟨hb.advances hadv, hc.advances hadv⟩

theorem apply_bound (hb : Bound r) (hc : Counted r) (m : Move) :
    Bound (r.apply m) ∧ Counted (r.apply m) := applyAll_bound hb hc [m]

theorem bound_applyAll_new (setup : Setup) (store : Store) (archive : Archive)
    (subscribers : Subscribers) (ms : List Move) :
    Bound ((new setup store archive subscribers).applyAll ms) ∧
      Counted ((new setup store archive subscribers).applyAll ms) := by
  refine applyAll_bound ⟨?_, ?_, ?_⟩ ?_ ms
  · simp [TasksOwn, new]
  · simp [new, Ledger.empty]
  · simp [new]
  · simp [Counted, new, Ledger.empty]

theorem counted_applyAll_new (setup : Setup) (store : Store) (archive : Archive)
    (subscribers : Subscribers) (ms : List Move) :
    Counted ((new setup store archive subscribers).applyAll ms) :=
  (bound_applyAll_new setup store archive subscribers ms).2

end Run

end TagLedger
