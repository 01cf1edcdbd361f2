import Mathlib.Tactic.Common
import TagLedger.Proofs.Run.Accounts
import TagLedger.Proofs.Run.Conduct
import TagLedger.Proofs.Run.Queue
import TagLedger.Proofs.Run.Schedule

/-!
The limit on tasks. Free permits and those that tasks hold always add up to the limit, a permit is
free only if no task waits for one, and the queue is made of the tasks that wait.
-/

namespace TagLedger

def Phase.holdsPermit : Phase → Bool
  | .working _ job => job.holdsPermit
  | _ => false

def Phase.isQueued : Phase → Bool
  | .working _ .queued => true
  | _ => false

theorem Phase.eq_of_isQueued {p : Phase} (h : p.isQueued = true) : ∃ v, p = .working v .queued := by
  unfold isQueued at h
  split at h
  · exact ⟨_, rfl⟩
  · cases h

namespace Run

variable {i : Nat} {t t' : CallTask} {sent : List Message} {r r' : Run} {m : Message}

inductive PermitUse (i : Nat) (t t' : CallTask) (r r' : Run) : Prop where
  | keeps (hp : r'.permits = r.permits) (ht : r'.tasks = r.tasks.set i t')
    (hholds : t'.phase.holdsPermit = t.phase.holdsPermit) (hq : t.phase.isQueued = false)
    (hq' : t'.phase.isQueued = false)
  /-- A free permit is taken. -/
  | takes (hp : r'.permits = ⟨r.permits.free - 1, r.permits.queue⟩)
    (ht : r'.tasks = r.tasks.set i t') (hfree : 0 < r.permits.free)
    (hholds : t.phase.holdsPermit = false) (hholds' : t'.phase.holdsPermit = true)
    (hq : t.phase.isQueued = false) (hq' : t'.phase.isQueued = false)
  /-- No permit is free, and the task waits. -/
  | joins (hp : r'.permits = ⟨r.permits.free, r.permits.queue ++ [i]⟩)
    (ht : r'.tasks = r.tasks.set i t') (hfree : r.permits.free = 0)
    (hholds : t.phase.holdsPermit = false) (hq : t.phase.isQueued = false)
    (hq' : t'.phase.isQueued = true)
  /-- The permit is given back. -/
  | returns (hp : r'.permits = r.giveBack.permits) (ht : r'.tasks = r.giveBack.tasks.set i t')
    (hholds : t.phase.holdsPermit = true) (hholds' : t'.phase.holdsPermit = false)
    (hq' : t'.phase.isQueued = false)

theorem tasks_setPhase (ht : r.tasks[i]? = some t) (p : Phase) :
    (r.setPhase i p).tasks = r.tasks.set i { t with phase := p } := by
  rw [setPhase, List.modify_eq_set_getElem?, ht]
  rfl

/-- The task that gives its permit back is not changed by that but for its phase. -/
theorem tasks_giveBack_setPhase (ht : r.tasks[i]? = some t) (p : Phase) :
    (r.giveBack.setPhase i p).tasks = r.giveBack.tasks.set i { t with phase := p } := by
  have hafter := (giveBack_setPhase_steps ht p).after
  refine List.ext_getElem? fun k => ?_
  by_cases hk : k = i
  · subst hk
    obtain ⟨hlt, _⟩ := List.getElem?_eq_some_iff.mp hafter
    rw [hafter, List.getElem?_set_self (by simpa [setPhase] using hlt)]
  · rw [getElem?_setPhase_of_ne hk, List.getElem?_set_ne (Ne.symm hk)]

theorem PermitUse.keeps_setPhase {q : Run} (ht : r.tasks[i]? = some t) {p : Phase}
    (hp : q.permits = r.permits) (htasks : q.tasks = r.tasks)
    (hholds : p.holdsPermit = t.phase.holdsPermit) (hq : t.phase.isQueued = false)
    (hq' : p.isQueued = false) :
    PermitUse i t { t with phase := p } r (q.setPhase i p) :=
  .keeps hp (htasks ▸ tasks_setPhase (htasks.symm ▸ ht) p) hholds hq hq'

theorem PermitUse.congr {r'' : Run} (h : PermitUse i t t' r r') (ht : r''.tasks = r'.tasks)
    (hp : r''.permits = r'.permits) : PermitUse i t t' r r'' := by
  cases h with
  | keeps hp' ht' hholds hq hq' => exact .keeps (hp ▸ hp') (ht ▸ ht') hholds hq hq'
  | takes hp' ht' hfree hholds hholds' hq hq' =>
    exact .takes (hp ▸ hp') (ht ▸ ht') hfree hholds hholds' hq hq'
  | joins hp' ht' hfree hholds hq hq' => exact .joins (hp ▸ hp') (ht ▸ ht') hfree hholds hq hq'
  | returns hp' ht' hholds hholds' hq' => exact .returns (hp ▸ hp') (ht ▸ ht') hholds hholds' hq'

theorem Conduct.permitUse (ht : r.tasks[i]? = some t) (h : Conduct i r t t' sent r') :
    PermitUse i t t' r r' := by
  have hkeep (slice : Json) :
      ((r.draw 1).keepSlice t.action.action slice).permits = r.permits ∧
        ((r.draw 1).keepSlice t.action.action slice).tasks = r.tasks := by
    rw [keepSlice_frame]
    exact ⟨rfl, rfl⟩
  have habsorb (s : Scene) : (r.absorb s).permits = r.permits ∧ (r.absorb s).tasks = r.tasks :=
    ⟨(r.absorb_still s).1.permits, (r.absorb_still s).1.tasks⟩
  cases h with
  | rejects hp _ => exact .keeps rfl (tasks_setPhase ht .ended) (hp ▸ rfl) (hp ▸ rfl) rfl
  | fills hp _ _ _ => exact .keeps_setPhase ht rfl rfl (hp ▸ rfl) (hp ▸ rfl) rfl
  | prepares hp _ => exact .keeps rfl rfl (hp ▸ rfl) (hp ▸ rfl) rfl
  | loads hp => exact .keeps rfl (tasks_setPhase ht _) (hp ▸ rfl) (hp ▸ rfl) rfl
  | enters hp hfree =>
    exact .takes rfl (tasks_setPhase ht _) hfree (hp ▸ rfl) rfl (hp ▸ rfl) rfl
  | queues hp hfree => exact .joins rfl (tasks_setPhase ht _) hfree (hp ▸ rfl) (hp ▸ rfl) rfl
  | begins hp _ => exact .keeps rfl (tasks_setPhase ht _) (hp ▸ rfl) (hp ▸ rfl) rfl
  | works hp hturn _ _ =>
    obtain ⟨hbefore, hafter⟩ := hturn.holdsPermit_of_moves
    refine .keeps_setPhase ht (habsorb _).1 (habsorb _).2 ?_ ?_ ?_
    · rw [hp]
      exact hafter.trans hbefore.symm
    · rw [hp]
      cases hturn <;> rfl
    · cases hturn <;> rfl
  | succeeds hp hturn =>
    exact .returns rfl (tasks_giveBack_setPhase ht _) (hp ▸ hturn.holdsPermit_of_ends) rfl rfl
  | fails hp hturn =>
    exact .returns rfl (tasks_giveBack_setPhase ht _) (hp ▸ hturn.holdsPermit_of_ends) rfl rfl
  | crashes hp hturn _ =>
    exact .returns rfl (tasks_giveBack_setPhase ht .ended) (hp ▸ hturn.holdsPermit_of_crashes)
      rfl rfl
  | recovers hp _ _ _ =>
    exact .keeps_setPhase ht (habsorb _).1 (habsorb _).2 (hp ▸ rfl) (hp ▸ rfl) rfl
  | recovered hp _ => exact .keeps_setPhase ht rfl rfl (hp ▸ rfl) (hp ▸ rfl) rfl
  | recoveryBreaks hp _ _ =>
    exact .keeps rfl (tasks_setPhase ht .ended) (hp ▸ rfl) (hp ▸ rfl) rfl
  | concludes hp _ _ =>
    exact .keeps_setPhase ht (hkeep _).1 (hkeep _).2 (hp ▸ rfl) (hp ▸ rfl) rfl
  | concludesError hp _ _ =>
    exact (PermitUse.keeps_setPhase ht (hkeep _).1 (hkeep _).2 (hp ▸ rfl) (hp ▸ rfl)
      (rfl : Phase.ended.isQueued = false)).congr rfl rfl
  | follows hp _ _ _ =>
    exact .keeps_setPhase ht (habsorb _).1 (habsorb _).2 (hp ▸ rfl) (hp ▸ rfl) rfl
  | finishes hp _ => exact .keeps rfl (tasks_setPhase ht .ended) (hp ▸ rfl) (hp ▸ rfl) rfl
  | followBreaks hp _ _ => exact .keeps rfl (tasks_setPhase ht .ended) (hp ▸ rfl) (hp ▸ rfl) rfl

def permitHolders (r : Run) : Nat := r.tasks.countP fun t => t.phase.holdsPermit

/-- Free permits and those that are held add up to `n`, none is free while a task waits for one, and
the tasks that wait are those in the queue. -/
structure Limited (n : Nat) (r : Run) : Prop extends Lined r where
  total : r.permits.free + r.permitHolders = n
  busy : r.permits.queue ≠ [] → r.permits.free = 0
  queued : ∀ (k : Nat) t, r.tasks[k]? = some t → t.phase.isQueued = true → k ∈ r.permits.queue

theorem permitHolders_set (ht : r.tasks[i]? = some t) (htasks : r'.tasks = r.tasks.set i t') :
    r'.permitHolders + t.phase.holdsPermit.toNat =
      r.permitHolders + t'.phase.holdsPermit.toNat := by
  rw [permitHolders, permitHolders, htasks]
  exact Runner.countP_set_add (fun t : CallTask => t.phase.holdsPermit) ht t'

/-- A permit that is given back goes to the task that has waited longest. -/
theorem Lined.tasks_giveBack (hl : Lined r) {j : Nat} {rest : List Nat}
    (hqueue : r.permits.queue = j :: rest) :
    ∃ u v, r.tasks[j]? = some u ∧ u.phase = .working v .queued ∧
      r.giveBack.tasks = r.tasks.set j { u with phase := .working v (.admitted 0) } := by
  obtain ⟨u, v, hu, hphase⟩ := hl.waits j (hqueue ▸ List.mem_cons_self)
  refine ⟨u, v, hu, hphase, ?_⟩
  rw [giveBack_cons hqueue]
  simp only [List.modify_eq_set_getElem?, hu, Option.map_eq_map, Option.map_some,
    Option.getD_some, CallTask.letIn, hphase]

namespace Limited

variable {n n' : Nat}

/-- The task in place `i` changes, which neither waited for a permit nor does so now. -/
theorem set (hl : Limited n r) (ht : r.tasks[i]? = some t) (hq : t.phase.isQueued = false)
    (hq' : t'.phase.isQueued = false) (htasks : r'.tasks = r.tasks.set i t')
    (hqueue : r'.permits.queue = r.permits.queue)
    (htotal : r'.permits.free + r'.permitHolders = n')
    (hbusy : r.permits.queue ≠ [] → r'.permits.free = 0) : Limited n' r' where
  nodup := hqueue ▸ hl.nodup
  waits := fun j hj => by
    rw [hqueue] at hj
    obtain ⟨u, v, hu, hphase⟩ := hl.waits j hj
    have hne : i ≠ j := by
      rintro rfl
      obtain rfl : t = u := Option.some.inj (ht.symm.trans hu)
      rw [hphase] at hq
      cases hq
    exact ⟨u, v, by rw [htasks, List.getElem?_set_ne hne, hu], hphase⟩
  total := htotal
  busy := fun h => hbusy (hqueue ▸ h)
  queued := fun k u hu hwaits => by
    rw [htasks] at hu
    rw [hqueue]
    by_cases hk : i = k
    · subst hk
      obtain ⟨hlt, _⟩ := List.getElem?_eq_some_iff.mp ht
      rw [List.getElem?_set_self hlt] at hu
      obtain rfl := Option.some.inj hu
      rw [hq'] at hwaits
      cases hwaits
    · rw [List.getElem?_set_ne hk] at hu
      exact hl.queued k u hu hwaits

theorem congr (hl : Limited n r) (hp : r'.permits = r.permits) (ht : r'.tasks = r.tasks) :
    Limited n r' where
  nodup := hp ▸ hl.nodup
  waits := fun j hj => by
    rw [ht]
    exact hl.waits j (hp ▸ hj)
  total := by
    rw [permitHolders, hp, ht]
    exact hl.total
  busy := by
    rw [hp]
    exact hl.busy
  queued := by
    rw [hp, ht]
    exact hl.queued

/-- A permit is given back by a task that is not told so yet. -/
theorem giveBack (hl : Limited n r) : Limited (n + 1) r.giveBack := by
  have htotal := hl.total
  cases hqueue : r.permits.queue with
  | nil =>
    rw [giveBack_nil hqueue]
    refine ⟨⟨hl.nodup, hl.waits⟩, ?_, fun h => absurd hqueue h, hl.queued⟩
    simp only [permitHolders] at htotal ⊢
    omega
  | cons j rest =>
    have hnodup := hl.nodup
    rw [hqueue] at hnodup
    obtain ⟨hj, hrest⟩ := List.nodup_cons.mp hnodup
    obtain ⟨u, v, hu, hphase, htasks⟩ := hl.tasks_giveBack hqueue
    have hcount := permitHolders_set hu htasks
    have hpermits : r.giveBack.permits = { r.permits with queue := rest } := by
      rw [giveBack_cons hqueue]
    have hwaits : u.phase.isQueued = true ∧ u.phase.holdsPermit = false := by
      rw [hphase]
      exact ⟨rfl, rfl⟩
    have hadmitted : (Phase.working v (.admitted 0)).isQueued = false ∧
        (Phase.working v (.admitted 0)).holdsPermit = true := ⟨rfl, rfl⟩
    refine ⟨⟨?_, fun k hk => ?_⟩, ?_, fun _ => ?_, fun k w hw hqueued => ?_⟩
    · rwa [hpermits]
    · rw [hpermits] at hk
      have hne : j ≠ k := fun h => hj (h ▸ hk)
      rw [htasks, List.getElem?_set_ne hne]
      exact hl.waits k (hqueue ▸ List.mem_cons_of_mem j hk)
    · rw [hwaits.2, hadmitted.2] at hcount
      simp only [Bool.toNat_false, Bool.toNat_true] at hcount
      rw [hpermits]
      dsimp only
      omega
    · rw [hpermits]
      exact hl.busy (by simp [hqueue])
    · rw [htasks] at hw
      rw [hpermits]
      by_cases hk : j = k
      · subst hk
        obtain ⟨hlt, _⟩ := List.getElem?_eq_some_iff.mp hu
        rw [List.getElem?_set_self hlt] at hw
        obtain rfl := Option.some.inj hw
        rw [hadmitted.1] at hqueued
        cases hqueued
      · rw [List.getElem?_set_ne hk] at hw
        have hmem := hl.queued k w hw hqueued
        rw [hqueue] at hmem
        exact (List.mem_cons.mp hmem).resolve_left (Ne.symm hk)

/-- A task that holds no permit and did not wait for one begins to wait. -/
theorem join (hl : Limited n r) (ht : r.tasks[i]? = some t)
    (hp : r'.permits = ⟨r.permits.free, r.permits.queue ++ [i]⟩)
    (htasks : r'.tasks = r.tasks.set i t') (hfree : r.permits.free = 0)
    (hholds : t.phase.holdsPermit = false) (hq : t.phase.isQueued = false)
    (hq' : t'.phase.isQueued = true) : Limited n r' := by
  obtain ⟨v, hphase⟩ := Phase.eq_of_isQueued hq'
  have hsame : r'.permitHolders = r.permitHolders := by
    have hcount := permitHolders_set ht htasks
    rwa [hholds, hphase] at hcount
  obtain ⟨hlt, _⟩ := List.getElem?_eq_some_iff.mp ht
  have hne : ∀ j ∈ r.permits.queue, i ≠ j := by
    rintro j hj rfl
    obtain ⟨u, w, hu, hwaits⟩ := hl.waits i hj
    obtain rfl : t = u := Option.some.inj (ht.symm.trans hu)
    rw [hwaits] at hq
    cases hq
  refine ⟨⟨?_, fun j hj => ?_⟩, ?_, fun _ => hp ▸ hfree, fun k u hu hwaits => ?_⟩
  · rw [hp]
    refine List.nodup_append.mpr ⟨hl.nodup, List.nodup_singleton i, fun a ha b hb => ?_⟩
    rw [List.mem_singleton.mp hb]
    exact (hne a ha).symm
  · rw [hp] at hj
    rw [htasks]
    rcases List.mem_append.mp hj with hj | hj
    · rw [List.getElem?_set_ne (hne j hj)]
      exact hl.waits j hj
    · rw [List.mem_singleton.mp hj]
      exact ⟨t', v, List.getElem?_set_self hlt, hphase⟩
  · rw [hp, hsame]
    exact hl.total
  · rw [hp]
    rw [htasks] at hu
    by_cases hk : i = k
    · exact List.mem_append_right _ (List.mem_singleton.mpr hk.symm)
    · rw [List.getElem?_set_ne hk] at hu
      exact List.mem_append_left _ (hl.queued k u hu hwaits)

/-- The task that gives its permit back still counts as its holder until it is told. -/
theorem exists_giveBack (ht : r.tasks[i]? = some t) (hholds : t.phase.holdsPermit = true) :
    ∃ u, r.giveBack.tasks[i]? = some u ∧ u.phase.holdsPermit = true ∧
      u.phase.isQueued = false := by
  obtain ⟨_, _, _, hkept⟩ := r.giveBack_kept
  have hi := hkept i
  rw [ht] at hi
  generalize r.giveBack.tasks[i]? = x at hi
  cases hi with
  | some hk =>
    cases hk with
    | same =>
      refine ⟨t, rfl, hholds, Bool.eq_false_iff.mpr fun hq => ?_⟩
      obtain ⟨v, hphase⟩ := Phase.eq_of_isQueued hq
      rw [hphase] at hholds
      cases hholds
    | admitted hphase => exact ⟨_, rfl, rfl, rfl⟩

theorem uses (hl : Limited n r) (ht : r.tasks[i]? = some t) (hu : PermitUse i t t' r r') :
    Limited n r' := by
  have htotal := hl.total
  cases hu with
  | keeps hp htasks hholds hq hq' =>
    have hcount := permitHolders_set ht htasks
    rw [hholds] at hcount
    exact hl.set ht hq hq' htasks (by rw [hp]) (by rw [hp]; omega) (hp ▸ hl.busy)
  | takes hp htasks hfree hholds hholds' hq hq' =>
    have hcount := permitHolders_set ht htasks
    rw [hholds, hholds'] at hcount
    simp only [Bool.toNat_false, Bool.toNat_true] at hcount
    refine hl.set ht hq hq' htasks (by rw [hp]) (by rw [hp]; dsimp only; omega) fun h => ?_
    rw [hl.busy h] at hfree
    cases hfree
  | joins hp htasks hfree hholds hq hq' => exact hl.join ht hp htasks hfree hholds hq hq'
  | returns hp htasks hholds hholds' hq' =>
    have hgiven := hl.giveBack
    obtain ⟨u, hu, hbusy, hq⟩ := exists_giveBack ht hholds
    have hcount := permitHolders_set hu htasks
    rw [hbusy, hholds'] at hcount
    simp only [Bool.toNat_false, Bool.toNat_true] at hcount
    have htotal' := hgiven.total
    exact hgiven.set hu hq hq' htasks (by rw [hp]) (by rw [hp]; omega)
      (fun h => hp ▸ hgiven.busy h)

theorem quiet (hl : Limited n r) (h : Quiet r r') : Limited n r' := hl.congr h.permits h.tasks

theorem reception (hl : Limited n r) (h : Reception r m r') : Limited n r' := by
  cases h with
  | plain _ hlog => exact hl.quiet (.logsPlain hlog)
  | result _ hlog => exact hl.congr hlog.permits hlog.tasks
  | refused _ _ hlog => exact hl.congr hlog.permits hlog.tasks
  | @accepted _ c p q _ _ hlog =>
    have hlogged : Limited n q := hl.congr hlog.permits hlog.tasks
    -- A new task neither holds a permit nor waits for one.
    refine ⟨⟨hlogged.nodup, fun j hj => ?_⟩, ?_, hlogged.busy, fun k t ht hwaits => ?_⟩
    · obtain ⟨t, v, ht, hphase⟩ := hlogged.waits j hj
      obtain ⟨hlt, _⟩ := List.getElem?_eq_some_iff.mp ht
      exact ⟨t, v, (List.getElem?_append_left hlt).trans ht, hphase⟩
    · refine Eq.trans ?_ hlogged.total
      simp only [spawn, permitHolders, List.countP_append]
      rfl
    · rcases getElem?_concat ht with ht | ⟨_, rfl⟩
      · exact hlogged.queued k t ht hwaits
      · cases hwaits
  | prepared id data =>
    have hpatch := patchCall_untouched id data r
    exact hl.congr hpatch.permits hpatch.tasks
  | failed hlog => exact hl.congr hlog.permits hlog.tasks
  | completed hlog => exact hl.congr hlog.permits hlog.tasks

theorem steps (hl : Limited n r) (h : r.stepTask? i = some r') : Limited n r' := by
  obtain ⟨t, t', sent, ht, hconduct⟩ := stepTask?_conduct h
  exact hl.uses ht (hconduct.permitUse ht)

theorem applyAll (hl : Limited n r) (ms : List Move) : Limited n (r.applyAll ms) := by
  refine applyAll_keeps (I := fun _ q => Limited n q) (g := []) ?_ ?_ ?_ ?_ hl ms
  · exact fun h hq => h.quiet hq
  · exact fun h hr => h.reception hr
  · intro _ q _ rest _ h _ hr
    have htaken : Limited n { q with inbox := rest } := h.congr rfl rfl
    exact htaken.reception hr
  · exact fun h hs => h.steps hs

theorem new (setup : Setup) (store : Store) (archive : Archive) (subscribers : Subscribers) :
    Limited (max setup.config.maxConcurrentTasks 1) (new setup store archive subscribers) where
  nodup := by simp [Run.new, Runner.Permits.new]
  waits := by simp [Run.new, Runner.Permits.new]
  total := by simp [Run.new, Runner.Permits.new, permitHolders]
  busy := by simp [Run.new, Runner.Permits.new]
  queued := by simp [Run.new]

end Limited

end Run

end TagLedger
