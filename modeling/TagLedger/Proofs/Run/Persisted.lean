import Mathlib.Tactic.Common
import TagLedger.Proofs.Run.Inputs
import TagLedger.Proofs.Run.Progress
import TagLedger.Proofs.Run.Saves

/-!
What is stored after settling. The payload of a call is noted in working memory without a write; but
a call that has its payload ends with a result, and the commit of the result writes working memory.
So while the store lags behind, a result is due, from a task or among the messages, and when no call
is in flight, none is due.
-/

namespace TagLedger

/-- The payload of the call is complete, and the call has not ended. -/
def CallTask.isUnderway (t : CallTask) : Bool :=
  match t.phase with
  | .resolving _ _ => false
  | .ended => false
  | _ => true

theorem CallTask.isOver_of_isUnderway {t : CallTask} (h : t.isUnderway = true) :
    t.isOver = false := by
  unfold isUnderway at h
  unfold isOver
  split
  · rename_i hp
    rw [hp] at h
    cases h
  · rfl

theorem CallTask.Kept.isUnderway {t u : CallTask} (h : t.Kept u) (ht : t.isUnderway = true) :
    u.isUnderway = true := by
  cases h with
  | same => exact ht
  | admitted _ => rfl

namespace Message

def isPrepared : Message → Bool
  | .prepared _ _ => true
  | _ => false

def isCompleted : Message → Bool
  | .completed _ => true
  | _ => false

theorem IsPush.isPrepared_eq {m : Message} (h : m.IsPush) : m.isPrepared = false := by
  obtain ⟨e, rfl⟩ := h
  rfl

theorem isEnd_of_isCompleted {m : Message} (h : m.isCompleted = true) : m.isEnd = true := by
  cases m with
  | completed _ => rfl
  | _ => cases h

end Message

/-- A message with what comes after it is at the end of two lists together: in the second, or in the
first with the whole second after it. -/
theorem suffix_append_cases {α : Type} {x : α} {rest xs ys : List α} (h : x :: rest <:+ xs ++ ys) :
    x ∈ ys ∨ ∃ rest', x :: rest' <:+ xs ∧ rest = rest' ++ ys := by
  obtain ⟨before, heq⟩ := h
  rcases List.append_eq_append_iff.mp heq with ⟨zs, hxs, hzs⟩ | ⟨zs, _, hys⟩
  · cases zs with
    | nil =>
      rw [List.nil_append] at hzs
      exact .inl (hzs ▸ List.mem_cons_self)
    | cons z zs =>
      obtain ⟨rfl, hrest⟩ := List.cons.inj hzs
      exact .inr ⟨zs, ⟨before, hxs.symm⟩, hrest⟩
  · exact .inl (hys ▸ List.mem_append_right _ List.mem_cons_self)

namespace Run

variable {i : Nat} {t t' : CallTask} {sent msgs : List Message} {m : Message}
  {r r' r'' : Run}

/-- A call whose payload is complete goes on or sends its result. -/
theorem Conduct.isUnderway (h : Conduct i r t t' sent r') (ht : t.isUnderway = true) :
    t'.isUnderway = true ∨ ∃ m ∈ sent, m.isCompleted = true := by
  cases h with
  | rejects hp _ => simp [CallTask.isUnderway, hp] at ht
  | fills hp _ _ _ => simp [CallTask.isUnderway, hp] at ht
  | prepares hp _ => simp [CallTask.isUnderway, hp] at ht
  | crashes _ _ _ => exact .inr ⟨_, List.mem_singleton_self _, rfl⟩
  | recoveryBreaks _ _ _ => exact .inr ⟨_, List.mem_singleton_self _, rfl⟩
  | concludesError _ _ _ _ => exact .inr ⟨_, List.mem_singleton_self _, rfl⟩
  | finishes _ _ => exact .inr ⟨_, List.mem_singleton_self _, rfl⟩
  | followBreaks _ _ _ => exact .inr ⟨_, List.mem_singleton_self _, rfl⟩
  | _ => exact .inl rfl

theorem Conduct.isUnderway_of_prepared (h : Conduct i r t t' sent r') (hm : m ∈ sent)
    (hprepared : m.isPrepared = true) : t'.isUnderway = true := by
  have hposts {posts : List Post} (hcome : ComeOf posts sent) : t'.isUnderway = true := by
    rw [(hcome.isPush m hm).isPrepared_eq] at hprepared
    cases hprepared
  cases h with
  | prepares _ _ => rfl
  | works _ _ _ hcome => exact hposts hcome
  | recovers _ _ _ hcome => exact hposts hcome
  | follows _ _ _ hcome => exact hposts hcome
  | _ => simp_all [Message.isPrepared]

/-- The result of a call with a payload is due: its task goes on, or it is among the messages. -/
def Due (r : Run) (msgs : List Message) : Prop :=
  (∃ t ∈ r.tasks, t.isUnderway = true) ∨ ∃ m ∈ msgs, m.isCompleted = true

def Covered (r : Run) : Prop :=
  ∀ m rest, m :: rest <:+ r.inbox → m.isPrepared = true → r.Due rest

/-- Working memory is written, or a result is due, with which it will be. -/
def Current (r : Run) : Prop := r.Persisted ∨ r.Due r.inbox

theorem Due.mono (h : r.Due msgs) (ht : r.tasks <+: r'.tasks) : r'.Due msgs := by
  rcases h with ⟨t, hmem, hunderway⟩ | hcompleted
  · exact .inl ⟨t, ht.subset hmem, hunderway⟩
  · exact .inr hcompleted

/-- A step of a task leaves a result due. -/
theorem Due.steps (h : r.Due msgs) (hsteps : Steps i t t' sent r r')
    (hconduct : Conduct i r t t' sent r') : r'.Due (msgs ++ sent) := by
  rcases h with ⟨u, hu, hunderway⟩ | ⟨m, hm, hcompleted⟩
  · obtain ⟨j, hj⟩ := List.mem_iff_getElem?.mp hu
    by_cases hji : j = i
    · subst hji
      obtain rfl : t = u := Option.some.inj (hsteps.before.symm.trans hj)
      rcases hconduct.isUnderway hunderway with hnext | ⟨m, hm, hcompleted⟩
      · exact .inl ⟨t', List.mem_of_getElem? hsteps.after, hnext⟩
      · exact .inr ⟨m, List.mem_append_right _ hm, hcompleted⟩
    · obtain ⟨v, hv, hkept⟩ := hsteps.exists_later hji hj
      exact .inl ⟨v, List.mem_of_getElem? hv, hkept.isUnderway hunderway⟩
  · exact .inr ⟨m, List.mem_append_left _ hm, hcompleted⟩

theorem Covered.congr (hc : Covered r) (hi : r'.inbox = r.inbox) (ht : r.tasks <+: r'.tasks) :
    Covered r' := by
  intro m rest hsuffix hprepared
  rw [hi] at hsuffix
  exact (hc m rest hsuffix hprepared).mono ht

/-- When no call is in flight, no result is due. -/
theorem Counted.not_due (hc : Counted r) (h : r.ledger.inFlight = 0) : ¬ r.Due r.inbox := by
  rintro (⟨t, ht, hu⟩ | ⟨m, hm, hcompleted⟩)
  · have hover := hc.isOver_of_inFlight h ht
    rw [CallTask.isOver_of_isUnderway hu] at hover
    cases hover
  · rw [Counted, h] at hc
    have hnone : r.inbox.countP Message.isEnd = 0 := by omega
    exact List.countP_eq_zero.mp hnone m hm (Message.isEnd_of_isCompleted hcompleted)

theorem store_patchCall (id : Uuid) (data : Json) (r : Run) :
    (r.patchCall id data).store = r.store := by
  unfold patchCall
  dsimp only
  split <;> rfl

structure Upholds (r r' : Run) : Prop extends Onward r r' where
  covered : Covered r → Covered r'
  current : WritesSucceed r r' → Covered r → Current r → Current r'

namespace Upholds

theorem refl (r : Run) : Upholds r r := ⟨.refl r, id, fun _ _ h => h⟩

theorem trans (h : Upholds r r') (h' : Upholds r' r'') : Upholds r r'' where
  toOnward := h.toOnward.trans h'.toOnward
  covered := fun hc => h'.covered (h.covered hc)
  current := fun hw hc hr =>
    h'.current (hw.right h.toOnward) (h.covered hc) (h.current (hw.left h'.toOnward) hc hr)

theorem saves (h : Saves r r') : Upholds r r' where
  toOnward := h.toOnward
  covered := fun hc => hc.congr h.inbox h.tasks
  current := by
    intro hw _ hr
    rw [Current, h.inbox]
    rcases hr with hpersisted | hdue
    · exact .inl (h.persisted hw hpersisted)
    · exact .inr (hdue.mono h.tasks)

/-- The messages after one that is taken. -/
theorem covered_taken {rest : List Message} (hc : Covered r) (hinbox : r.inbox = m :: rest) :
    Covered { r with inbox := rest } := by
  intro m' rest' hsuffix hprepared
  refine hc m' rest' ?_ hprepared
  rw [hinbox]
  exact hsuffix.trans (List.suffix_cons m rest)

theorem current_taken {rest : List Message} (hr : Current r) (hinbox : r.inbox = m :: rest)
    (hm : m.isCompleted = false) : Current { r with inbox := rest } := by
  rw [Current, hinbox] at hr
  rcases hr with hpersisted | hunderway | ⟨m', hmem, hcompleted⟩
  · exact .inl hpersisted
  · exact .inr (.inl hunderway)
  · rcases List.mem_cons.mp hmem with rfl | hmem
    · rw [hm] at hcompleted
      cases hcompleted
    · exact .inr (.inr ⟨m', hmem, hcompleted⟩)

/-- The payload of a call is noted and not written; but a result is due then. -/
theorem noted {id : Uuid} {data : Json} {rest : List Message}
    (hinbox : r.inbox = .prepared id data :: rest) :
    Upholds r (patchCall id data { r with inbox := rest }) := by
  have hpatch := patchCall_untouched id data { r with inbox := rest }
  have htasks : r.tasks <+: (patchCall id data { r with inbox := rest }).tasks := by
    rw [hpatch.tasks]
  constructor
  · exact .spares hpatch.setup (.of_eq (store_patchCall id data _))
  · intro hc
    exact (covered_taken hc hinbox).congr hpatch.inbox htasks
  · intro _ hc _
    have hdue : Due r rest := by
      refine hc (.prepared id data) rest ?_ rfl
      rw [hinbox]
    rw [Current, hpatch.inbox]
    exact .inr (hdue.mono htasks)

/-- The oldest message is taken. -/
theorem deliver {rest : List Message} (hinbox : r.inbox = m :: rest)
    (hok : handlerFails { r with inbox := rest } m = false) :
    Upholds r (receive m { r with inbox := rest }) := by
  -- A message that is not the result of a call, and is taken in by saving changes.
  have hplain (hm : m.isCompleted = false)
      (hs : Saves { r with inbox := rest } (receive m { r with inbox := rest })) :
      Upholds r (receive m { r with inbox := rest }) := by
    have hlater := saves hs
    constructor
    · exact ⟨hs.setup, hs.writeFault, hs.operations⟩
    · intro hc
      exact hlater.covered (covered_taken hc hinbox)
    · intro hw hc hr
      exact hlater.current hw (covered_taken hc hinbox) (current_taken hr hinbox hm)
  cases m with
  | push e => exact hplain rfl (.push hok)
  | failed id err => exact hplain rfl (.deeds (.failed id err _))
  | completed res =>
    have hs := Saves.deeds (Deeds.completed res { r with inbox := rest })
    constructor
    · exact ⟨hs.setup, hs.writeFault, hs.operations⟩
    · intro hc
      exact (saves hs).covered (covered_taken hc hinbox)
    · intro hw _ _
      exact .inl (commit_persisted hw)
  | prepared id data => exact noted hinbox

/-- A task that takes a step. What it may write is not working memory. -/
theorem steps {i : Nat}
    (hkeys : ∀ t ∈ r.tasks, ∀ m, t.action.action.memory = some m → m.key ≠ r.memoryKey)
    (hs : r.stepTask? i = some r') : Upholds r r' := by
  obtain ⟨t, t', sent, ht, hconduct⟩ := stepTask?_conduct hs
  have hsteps := hconduct.steps ht
  have hspares := stepTask?_spares ht hs (hkeys t (List.mem_of_getElem? ht))
  constructor
  · exact .spares hsteps.setup hspares
  · intro hc m rest hsuffix hprepared
    rw [hsteps.inbox] at hsuffix
    rcases suffix_append_cases hsuffix with hm | ⟨rest', hbefore, rfl⟩
    · have hnext := hconduct.isUnderway_of_prepared hm hprepared
      exact .inl ⟨t', List.mem_of_getElem? hsteps.after, hnext⟩
    · exact (hc m rest' hbefore hprepared).steps hsteps hconduct
  · intro _ hc hr
    rw [Current, hsteps.inbox]
    have hmemory : r'.ledger.memory = r.ledger.memory := by rw [hsteps.ledger]
    rcases hr with hpersisted | hdue
    · exact .inl (hpersisted.congr hsteps.setup hspares hmemory)
    · exact .inr (hdue.steps hsteps hconduct)

theorem cancel (r : Run) : Upholds r r.cancel :=
  saves (.of_eq rfl rfl rfl List.prefix_rfl rfl)

/-- Every move, if no handler of inputs fails in it and actions have keys of their own. -/
theorem apply (hb : Bound r)
    (hkeys : ∀ a ∈ r.setup.catalog.actions, ∀ m, a.memory = some m → m.key ≠ r.memoryKey)
    (move : Move) (hok : ∀ y ∈ r.taken move, y.1.handlerFails y.2 = false) :
    Upholds r (r.apply move) := by
  have hcancels (cancels : Bool) : Upholds r (if cancels then r.cancel else r) := by
    split
    · exact cancel r
    · exact refl r
  have hmove := r.apply_happens move
  generalize r.taken move = taken, r.apply move = r' at hmove hok ⊢
  cases hmove with
  | nothing => exact refl r
  | start _ => exact saves r.start_saves.1
  | nextStep _ => exact saves (.deeds (.nextStep r))
  | push e _ => exact saves (.push (hok _ (List.mem_singleton_self _)))
  | openStream _ => exact saves (.setStream _ r)
  | feed chunk cancels _ => exact (hcancels cancels).trans (saves (.piece (feed_takesPiece chunk _) hok))
  | closeStream cancels _ => exact (hcancels cancels).trans (saves (.piece (closeStream_takesPiece _) hok))
  | dropStream _ => exact saves (.setStream _ r)
  | deliver hinbox => exact deliver hinbox (hok _ (List.mem_singleton_self _))
  | task hs => exact steps (fun t ht m hm => hkeys _ (hb.tasks t ht) m hm) hs
  | cancel => exact cancel r
  | wait ms => exact saves (.of_eq rfl rfl rfl List.prefix_rfl rfl)

theorem applyAll (hb : Bound r) (hc : Counted r)
    (hkeys : ∀ a ∈ r.setup.catalog.actions, ∀ m, a.memory = some m → m.key ≠ r.memoryKey)
    {ms : List Move} (hok : ∀ y ∈ history ms r, y.1.handlerFails y.2 = false) :
    Upholds r (r.applyAll ms) := by
  induction ms generalizing r with
  | nil => exact refl r
  | cons move ms ih =>
    rw [history] at hok
    have hmove := apply hb hkeys move fun y hy => hok y (List.mem_append_left _ hy)
    obtain ⟨hb', hc'⟩ := apply_bound hb hc move
    refine hmove.trans (ih hb' hc' ?_ fun y hy => hok y (List.mem_append_right _ hy))
    rw [hmove.setup, hmove.memoryKey]
    exact hkeys

end Upholds

def Starts (ms : List Move) (r : Run) : Prop :=
  ∃ before after, ms = before ++ .start :: after ∧ (r.applyAll before).stream = none ∧
    (r.applyAll before).start.1 = none

/-- From a run without messages, once a start has succeeded: working memory is written, or a result
is due. -/
theorem current_of_starts {ms : List Move} (hempty : r.inbox = []) (hb : Bound r) (hc : Counted r)
    (hkeys : ∀ a ∈ r.setup.catalog.actions, ∀ m, a.memory = some m → m.key ≠ r.memoryKey)
    (hok : ∀ x ∈ history ms r, x.1.handlerFails x.2 = false)
    (hwrites : WritesSucceed r (r.applyAll ms)) (hstart : Starts ms r) :
    Current (r.applyAll ms) := by
  obtain ⟨before, after, rfl, hstream, hloaded⟩ := hstart
  rw [history_append] at hok
  rw [applyAll_append] at hwrites ⊢
  have hfirst := Upholds.applyAll hb hc hkeys fun x hx => hok x (List.mem_append_left _ hx)
  obtain ⟨hb, hc⟩ := applyAll_bound hb hc before
  set q := r.applyAll before
  have hstarted : q.apply .start = q.start.2 := by simp [Run.apply, hstream]
  obtain ⟨hsaves, hpersisted⟩ := q.start_saves
  have hlater : Upholds q.start.2 (q.start.2.applyAll after) := by
    obtain ⟨hb, hc⟩ := apply_bound hb hc .start
    rw [hstarted] at hb hc
    refine Upholds.applyAll hb hc ?_ fun x hx => ?_
    · rw [hsaves.setup, hsaves.memoryKey, hfirst.setup, hfirst.memoryKey]
      exact hkeys
    · refine hok x (List.mem_append_right _ (List.mem_append_right _ ?_))
      rw [hstarted]
      exact hx
  have hafter : q.applyAll (.start :: after) = q.start.2.applyAll after :=
    congrArg (·.applyAll after) hstarted
  rw [hafter] at hwrites ⊢
  have hwrites := hwrites.right hfirst.toOnward
  have hcovered : Covered r := by
    intro m rest hsuffix
    rw [hempty] at hsuffix
    exact absurd (List.suffix_nil.mp hsuffix) (List.cons_ne_nil m rest)
  apply hlater.current (hwrites.right hsaves.toOnward)
  · exact (Upholds.saves hsaves).covered (hfirst.covered hcovered)
  · exact .inl (hpersisted hloaded (hwrites.left hlater.toOnward))

/-- After settling, what is stored is working memory as it is, in every run in which a start
succeeded, writes succeed, no handler of inputs fails and actions have keys of their own. -/
theorem applyAll_persisted (setup : Setup) (store : Store) (archive : Archive)
    (subscribers : Subscribers) (ms : List Move)
    (hstart : Starts ms (new setup store archive subscribers))
    (hwrites : WritesSucceed (new setup store archive subscribers)
      ((new setup store archive subscribers).applyAll ms))
    (hinputs : ∀ x ∈ history ms (new setup store archive subscribers),
      x.1.handlerFails x.2 = false)
    (hkeys : ∀ a ∈ setup.catalog.actions, ∀ m, a.memory = some m →
      m.key ≠ setup.config.workingMemoryKey setup.context.id) :
    let r := (new setup store archive subscribers).applyAll ms
    (r.ledger.inFlight = 0 →
      r.store.value? (setup.config.workingMemoryKey setup.context.id) =
        some r.ledger.memory.toJson) ∧
      ∀ s s', Session.Settles s s' → s'.run = r →
        r.store.value? (setup.config.workingMemoryKey setup.context.id) =
          some r.ledger.memory.toJson := by
  intro r
  obtain ⟨hb, hc⟩ := bound_applyAll_new setup store archive subscribers []
  have hcurrent : Current r := current_of_starts rfl hb hc hkeys hinputs hwrites hstart
  have hkey : r.memoryKey = setup.config.workingMemoryKey setup.context.id :=
    (Upholds.applyAll hb hc hkeys hinputs).memoryKey
  have hstored (hzero : r.ledger.inFlight = 0) :
      r.store.value? (setup.config.workingMemoryKey setup.context.id) =
        some r.ledger.memory.toJson := by
    have hnone := (bound_applyAll_new setup store archive subscribers ms).2.not_due hzero
    have hpersisted : Persisted r := hcurrent.resolve_right hnone
    rwa [Persisted, hkey] at hpersisted
  constructor
  · exact hstored
  · intro s s' hsettles hr
    exact hstored (hr ▸ hsettles.inFlight_eq_zero)

end Run

namespace Sample

def plainInputs : InputHandler where
  type := "ask"
  schema := none
  handle := fun _ _ => .ok none
  format := fun _ => none

def answeringRun : Run :=
  Run.new { noteSetup with catalog := ⟨[noteAction], [], [plainInputs]⟩ } Store.empty Archive.empty
    Subscribers.empty

end Sample

open Sample in
/-- The store lags behind while a payload is noted and its call goes on; with the result it has
caught up. -/
theorem Run.applyAll_persisted_after_lag :
    let ms : List Move := [.start, .push (.input askInput), .push (noteCall 1), .task 0, .deliver]
    let ms' : List Move := ms ++ List.replicate 8 (.task 0) ++ [.deliver]
    let key := "working-memory:context"
    let lagging := answeringRun.applyAll ms
    let settled := answeringRun.applyAll ms'
    lagging.store.value? key ≠ some lagging.ledger.memory.toJson ∧
      settled.ledger.inFlight = 0 ∧ settled.ledger.memory.episodes = some [] ∧
      settled.store.value? key = some settled.ledger.memory.toJson := by
  intro ms ms' key lagging settled
  have hlag : lagging.store.value? key ≠ some lagging.ledger.memory.toJson := by decide +kernel
  have hzero : settled.ledger.inFlight = 0 := by decide +kernel
  have hepisodes : settled.ledger.memory.episodes = some [] := by decide +kernel
  have hstart : Starts ms' answeringRun := ⟨[], _, rfl, rfl, rfl⟩
  have hwrites : WritesSucceed answeringRun settled := fun _ _ _ => rfl
  have hinputs : ∀ x ∈ history ms' answeringRun, x.1.handlerFails x.2 = false := by decide +kernel
  have hkeys : ∀ a ∈ [noteAction], ∀ m, a.memory = some m → m.key ≠ key := by
    intro a ha m hm
    rw [List.mem_singleton.mp ha] at hm
    cases hm
    decide
  exact ⟨hlag, hzero, hepisodes,
    (applyAll_persisted _ _ _ _ ms' hstart hwrites hinputs hkeys).1 hzero⟩

end TagLedger
