import Mathlib.Data.List.Nodup
import Mathlib.Tactic.Common
import TagLedger.Proofs.Runner.Moves

/-!
The limit on a batch. Free permits and those that tasks hold add up to the limit at every moment, a
permit is free only if no task waits for one, and the queue is made of the tasks that wait.
-/

namespace TagLedger.Runner.Batch

variable {n n' i : Nat} {b b' : Batch} {t t' : BatchTask}

def holders (b : Batch) : Nat := b.tasks.countP fun t => t.job.holdsPermit

structure Limited (n : Nat) (b : Batch) : Prop where
  total : b.permits.free + b.holders = n
  busy : b.permits.queue ≠ [] → b.permits.free = 0
  nodup : b.permits.queue.Nodup
  queued : ∀ k, k ∈ b.permits.queue ↔ ∃ t, b.tasks[k]? = some t ∧ t.job = .queued

theorem holders_put (ht : b.tasks[i]? = some t) (t' : BatchTask) :
    (b.put i t').holders + t.job.holdsPermit.toNat = b.holders + t'.job.holdsPermit.toNat :=
  countP_set_add (fun t : BatchTask => t.job.holdsPermit) ht t'

theorem giveBack_nil (h : b.permits.queue = []) :
    b.giveBack = { b with permits := { b.permits with free := b.permits.free + 1 } } := by
  simp [giveBack, Permits.giveBack, h]

theorem giveBack_cons {j : Nat} {rest : List Nat} (h : b.permits.queue = j :: rest)
    (ht : b.tasks[j]? = some t) :
    b.giveBack =
      { b with permits := { b.permits with queue := rest } }.put j { t with job := .admitted 0 } := by
  rw [← setJob_eq (by exact ht)]
  simp [giveBack, Permits.giveBack, h]

theorem getElem?_put_self (ht : b.tasks[i]? = some t) (t' : BatchTask) :
    (b.put i t').tasks[i]? = some t' := by
  obtain ⟨hlt, _⟩ := List.getElem?_eq_some_iff.mp ht
  exact List.getElem?_set_self hlt

theorem getElem?_put_of_ne {k : Nat} (h : i ≠ k) (t' : BatchTask) :
    (b.put i t').tasks[k]? = b.tasks[k]? :=
  List.getElem?_set_ne h

namespace Limited

/-- The task in place `i` changes, which neither waited for a permit nor does so now. -/
theorem put (hl : Limited n b) (ht : b.tasks[i]? = some t) (hq : t.job ≠ .queued)
    (hq' : t'.job ≠ .queued) (hqueue : b'.permits.queue = b.permits.queue)
    (htasks : b'.tasks = b.tasks.set i t') (htotal : b'.permits.free + b'.holders = n')
    (hbusy : b.permits.queue ≠ [] → b'.permits.free = 0) : Limited n' b' where
  total := htotal
  busy := fun h => hbusy (hqueue ▸ h)
  nodup := hqueue ▸ hl.nodup
  queued := fun k => by
    rw [hqueue, hl.queued k, htasks]
    by_cases hk : i = k
    · subst hk
      obtain ⟨hlt, _⟩ := List.getElem?_eq_some_iff.mp ht
      rw [List.getElem?_set_self hlt, ht]
      simp [hq, hq']
    · rw [List.getElem?_set_ne hk]

/-- A permit is given back by a task that is not counted among the holders any more. -/
theorem giveBack (hl : Limited n b) : Limited (n + 1) b.giveBack := by
  have htotal := hl.total
  cases hqueue : b.permits.queue with
  | nil =>
    rw [giveBack_nil hqueue]
    refine ⟨?_, fun h => absurd hqueue h, hl.nodup, hl.queued⟩
    simp only [holders] at htotal ⊢
    omega
  | cons j rest =>
    have hnodup := hl.nodup
    rw [hqueue] at hnodup
    obtain ⟨hj, hrest⟩ := List.nodup_cons.mp hnodup
    obtain ⟨u, hu, hjob⟩ := (hl.queued j).mp (hqueue ▸ List.mem_cons_self)
    rw [giveBack_cons hqueue hu]
    refine ⟨?_, fun _ => ?_, hrest, fun k => ?_⟩
    · have hcount := holders_put hu { u with job := .admitted 0 }
      rw [hjob] at hcount
      simp only [Job.holdsPermit, Bool.toNat_false, Bool.toNat_true] at hcount
      show b.permits.free + (b.put j { u with job := .admitted 0 }).holders = n + 1
      omega
    · exact hl.busy (by simp [hqueue])
    · show k ∈ rest ↔ ∃ t, (b.put j { u with job := .admitted 0 }).tasks[k]? = some t ∧ _
      by_cases hk : j = k
      · subst hk
        rw [getElem?_put_self hu]
        simp [hj]
      · rw [getElem?_put_of_ne hk, ← hl.queued k, hqueue, List.mem_cons]
        simp [Ne.symm hk]

/-- A task that did not wait for a permit begins to wait. -/
theorem join (hl : Limited n b) (ht : b.tasks[i]? = some t) (hfree : b.permits.free = 0)
    (hholds : t.job.holdsPermit = false) (hq : t.job ≠ .queued) (hq' : t'.job = .queued)
    (hfree' : b'.permits.free = b.permits.free)
    (hqueue : b'.permits.queue = b.permits.queue ++ [i])
    (htasks : b'.tasks = b.tasks.set i t') : Limited n b' := by
  have hnot : i ∉ b.permits.queue := by
    intro hmem
    obtain ⟨u, hu, hjob⟩ := (hl.queued i).mp hmem
    rw [ht] at hu
    cases hu
    exact hq hjob
  have hholders : b'.holders = (b.put i t').holders := by simp only [holders, htasks, Batch.put]
  have hcount : (b.put i t').holders = b.holders := by
    have hcount := holders_put ht t'
    rwa [hholds, hq'] at hcount
  refine ⟨?_, fun _ => hfree'.trans hfree, ?_, fun k => ?_⟩
  · rw [hfree', hholders, hcount]
    exact hl.total
  · rw [hqueue]
    exact List.concat_eq_append ▸ hl.nodup.concat hnot
  · rw [hqueue, htasks, List.mem_append, hl.queued k, List.mem_singleton]
    by_cases hk : i = k
    · subst hk
      obtain ⟨hlt, _⟩ := List.getElem?_eq_some_iff.mp ht
      rw [List.getElem?_set_self hlt]
      simp [hq']
    · rw [List.getElem?_set_ne hk]
      simp [Ne.symm hk]

/-- A task goes on that holds a permit, and keeps it. -/
theorem keep (hl : Limited n b) (ht : b.tasks[i]? = some t) (hholds : t.job.holdsPermit = true)
    (hholds' : t'.job.holdsPermit = true) (hp : b'.permits = b.permits)
    (htasks : b'.tasks = b.tasks.set i t') : Limited n b' := by
  have hqueued {job : Job} (h : job.holdsPermit = true) : job ≠ .queued := by
    rintro rfl
    cases h
  have hcount : (b.put i t').holders = b.holders := by
    simpa [hholds, hholds'] using holders_put ht t'
  refine hl.put ht (hqueued hholds) (hqueued hholds') (by rw [hp]) htasks ?_ (hp ▸ hl.busy)
  have hholders : b'.holders = (b.put i t').holders := by simp only [holders, htasks, Batch.put]
  rw [hp, hholders, hcount]
  exact hl.total

/-- Between the end of a task and the return of its permit one permit is missing. -/
theorem ended (hl : Limited n b) (ht : b.tasks[i]? = some t) {outcome : Except RunError Json}
    (h : Ends b t outcome) : ∃ m, m + 1 = n ∧ Limited m (b.put i (b.closed t outcome)) := by
  have htotal := hl.total
  have hholds := h.holdsPermit
  have hcount := holders_put ht (b.closed t outcome)
  rw [hholds] at hcount
  simp only [closed, Job.holdsPermit, Bool.toNat_false, Bool.toNat_true] at hcount
  have hqueued : t.job ≠ .queued := by
    intro hjob
    rw [hjob] at hholds
    cases hholds
  refine ⟨b.permits.free + (b.put i (b.closed t outcome)).holders, ?_, ?_⟩
  · simp only [closed]
    omega
  · exact hl.put ht hqueued (by simp [closed]) rfl rfl rfl hl.busy

theorem acts (hl : Limited n b) (ht : b.tasks[i]? = some t) (h : Acts i b t t' b') :
    Limited n b' := by
  have htotal := hl.total
  cases h with
  | enters hjob hfree =>
    have hcount := holders_put ht { t with job := .admitted 0 }
    rw [hjob] at hcount
    simp only [Job.holdsPermit, Bool.toNat_false, Bool.toNat_true] at hcount
    refine hl.put ht (by simp [hjob]) (by simp) rfl rfl ?_ fun h => ?_
    · show b.permits.free - 1 + (b.put i { t with job := .admitted 0 }).holders = n
      omega
    · rw [hl.busy h] at hfree
      cases hfree
  | queues hjob hfree => exact hl.join ht hfree (hjob ▸ rfl) (by simp [hjob]) rfl rfl rfl rfl
  | begins hjob hc => exact hl.keep ht (hjob ▸ rfl) rfl rfl rfl
  | moves hturn =>
    obtain ⟨hbefore, hafter⟩ := hturn.holdsPermit_of_moves
    exact hl.keep ht hbefore hafter rfl rfl
  | ends hends =>
    obtain ⟨m, rfl, hended⟩ := hl.ended ht hends
    exact hended.giveBack

theorem step (hl : Limited n b) (i : Nat) : Limited n (b.step i) := by
  rcases step_cases b i with ⟨hsame, -⟩ | ⟨t, t', ht, hacts⟩
  · rw [hsame]
    exact hl
  · exact hl.acts ht hacts

theorem apply (hl : Limited n b) (m : Move) : Limited n (b.apply m) := by
  cases m with
  | step i => exact hl.step i
  | wait ms => exact ⟨hl.total, hl.busy, hl.nodup, hl.queued⟩
  | cancel => exact ⟨hl.total, hl.busy, hl.nodup, hl.queued⟩

theorem new (limit baseDelay : Nat)
    (tasks : List (String × Nat × (Nat → Script (Except RunError Json)))) :
    Limited (max limit 1) (new limit baseDelay tasks) where
  total := by simp [Batch.new, Permits.new, holders, Job.holdsPermit]
  busy := fun h => absurd rfl h
  nodup := List.nodup_nil
  queued := fun k => by simp [Batch.new, Permits.new]

end Limited

/-- A permit that is given back changes no task, or lets one in that waited. -/
theorem Limited.giveBack_cases (hl : Limited n b) (k : Nat) :
    b.giveBack.tasks[k]? = b.tasks[k]? ∨ ∃ u, b.tasks[k]? = some u ∧ u.job = .queued ∧
      b.giveBack.tasks[k]? = some { u with job := .admitted 0 } := by
  cases hqueue : b.permits.queue with
  | nil => exact .inl (by rw [giveBack_nil hqueue])
  | cons j rest =>
    obtain ⟨u, hu, hjob⟩ := (hl.queued j).mp (hqueue ▸ List.mem_cons_self)
    rw [giveBack_cons hqueue hu]
    by_cases hk : j = k
    · subst hk
      exact .inr ⟨u, hu, hjob, getElem?_put_self (by exact hu) _⟩
    · exact .inl (getElem?_put_of_ne hk _)

/-- What a step of a task makes of it. -/
theorem Acts.own (h : Acts i b t t' b') (hl : Limited n b) (ht : b.tasks[i]? = some t) :
    b'.tasks[i]? = some t' := by
  cases h with
  | ends hends =>
    obtain ⟨m, -, hended⟩ := hl.ended ht hends
    rcases hended.giveBack_cases i with hsame | ⟨u, hu, hjob, -⟩
    · rw [hsame, getElem?_put_self ht]
    · rw [getElem?_put_self ht] at hu
      cases hu
      cases hjob
  | _ => exact getElem?_put_self (by exact ht) _

/-- To any other task a step does nothing, or it lets it in. -/
theorem Acts.others (h : Acts i b t t' b') (hl : Limited n b) (ht : b.tasks[i]? = some t) {k : Nat}
    (hk : i ≠ k) : b'.tasks[k]? = b.tasks[k]? ∨ ∃ u, b.tasks[k]? = some u ∧ u.job = .queued ∧
      b'.tasks[k]? = some { u with job := .admitted 0 } := by
  cases h with
  | ends hends =>
    obtain ⟨m, -, hended⟩ := hl.ended ht hends
    have hcases := hended.giveBack_cases k
    rwa [getElem?_put_of_ne hk] at hcases
  | _ => exact .inl (getElem?_put_of_ne hk _)

/-- When all tasks have ended all permits are free again. -/
theorem Limited.permits_of_ended (hl : Limited n b) (h : ∀ t ∈ b.tasks, t.job = .ended) :
    b.permits = ⟨n, []⟩ := by
  have hholders : b.holders = 0 := by
    refine List.countP_eq_zero.mpr fun t ht => ?_
    rw [h t ht]
    simp [Job.holdsPermit]
  have hqueue : b.permits.queue = [] := by
    refine List.eq_nil_iff_forall_not_mem.mpr fun k hk => ?_
    obtain ⟨t, ht, hjob⟩ := (hl.queued k).mp hk
    rw [h t (List.mem_of_getElem? ht)] at hjob
    cases hjob
  have htotal := hl.total
  rw [hholders, Nat.add_zero] at htotal
  rw [← htotal, ← hqueue]

end TagLedger.Runner.Batch
