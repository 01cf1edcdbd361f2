import Mathlib.Tactic.Common
import TagLedger.Proofs.Runner.Account

/-!
The log of a batch: the deeds of all its tasks in their order, each with its scene. For every task
it tells the tale that has brought the task where it stands.
-/

namespace TagLedger.Runner.Batch

/-- What is noted of a move, and of which task. -/
def notes (b : Batch) : Move → List (Nat × Note)
  | .step i =>
    match b.tasks[i]? with
    | none => []
    | some t => (t.job.notes b.scene).map fun x => (i, x)
  | .wait _ => []
  | .cancel => []

def log : Batch → List Move → List (Nat × Note)
  | _, [] => []
  | b, m :: ms => b.notes m ++ log (b.apply m) ms

def notesOf (i : Nat) (log : List (Nat × Note)) : List Note :=
  log.filterMap fun x => if x.1 = i then some x.2 else none

def deedsOf (i : Nat) (log : List (Nat × Note)) : List Deed := (notesOf i log).map Note.deed

variable {n i k : Nat} {b b' : Batch} {t t' : BatchTask} {l : List (Nat × Note)}

@[simp] theorem notesOf_append (i : Nat) (l l' : List (Nat × Note)) :
    notesOf i (l ++ l') = notesOf i l ++ notesOf i l' :=
  List.filterMap_append

theorem notes_step (ht : b.tasks[i]? = some t) :
    b.notes (.step i) = (t.job.notes b.scene).map fun x => (i, x) := by
  simp [notes, ht]

theorem notes_of_waits (h : ∀ t, b.tasks[i]? = some t → b.next t = .waits) :
    b.notes (.step i) = [] := by
  cases ht : b.tasks[i]? with
  | none => simp [notes, ht]
  | some t =>
    rw [notes_step ht, Job.notes, Job.deed?_of_waits (h t ht)]
    rfl

theorem notesOf_step_self (ht : b.tasks[i]? = some t) :
    notesOf i (b.notes (.step i)) = t.job.notes b.scene := by
  rw [notes_step ht, notesOf, List.filterMap_map]
  simp

theorem notesOf_step_of_ne (h : i ≠ k) : notesOf k (b.notes (.step i)) = [] := by
  cases ht : b.tasks[i]? with
  | none => simp [notes, ht, notesOf]
  | some t =>
    rw [notes_step ht, notesOf, List.filterMap_map]
    simp [h]

/-- What a move notes is noted in the scene of that moment. -/
theorem scene_of_mem_notes {m : Move} {x : Nat × Note} (hx : x ∈ b.notes m) :
    x.2.scene = b.scene := by
  cases m with
  | step i =>
    cases ht : b.tasks[i]? with
    | none => simp [notes, ht] at hx
    | some t =>
      rw [notes_step ht, Job.notes, List.map_map] at hx
      obtain ⟨d, -, rfl⟩ := List.mem_map.mp hx
      rfl
  | wait ms => cases hx
  | cancel => cases hx

theorem later_apply (b : Batch) (m : Move) : b.scene.Later (b.apply m).scene := by
  cases m with
  | step i =>
    rcases step_cases b i with ⟨hsame, -⟩ | ⟨t, t', ht, hacts⟩
    · rw [Batch.apply, hsame]
      exact .refl rfl rfl
    · exact hacts.later
  | wait ms => exact ⟨Nat.le_add_right _ _, id, rfl, rfl⟩
  | cancel => exact ⟨Nat.le_refl _, fun _ => rfl, rfl, rfl⟩

def Told (l : List (Nat × Note)) (b : Batch) : Prop :=
  ∀ (k : Nat) (t : BatchTask), b.tasks[k]? = some t →
    Tale t.attempt (b.rule t) b.scene (notesOf k l) t.job t.outcome

theorem rule_eq (h : b'.baseDelay = b.baseDelay) (t : BatchTask) : b'.rule t = b.rule t :=
  congrArg (RetryRule.mk t.retries) h

theorem Told.later (h : Told l b) (hl : b.scene.Later b'.scene) (htasks : b'.tasks = b.tasks)
    (hbase : b'.baseDelay = b.baseDelay) : Told l b' := by
  intro k t ht
  rw [htasks] at ht
  rw [rule_eq hbase]
  exact (h k t ht).later hl

/-- The task that acts goes on with its tale. -/
theorem Acts.tale {ns : List Note} (h : Acts i b t t' b')
    (htale : Tale t.attempt (b.rule t) b.scene ns t.job t.outcome) :
    Tale t'.attempt (b'.rule t') b'.scene (ns ++ t.job.notes b.scene) t'.job t'.outcome := by
  have hlater := h.later
  have hbase := h.baseDelay
  cases h with
  | enters hjob hfree =>
    obtain ⟨hns, houtcome⟩ := htale.eq_nil_of_waits (.inl hjob)
    rw [hns, houtcome, hjob]
    exact .admitted .none (Nat.zero_le _)
  | queues hjob hfree =>
    obtain ⟨hns, houtcome⟩ := htale.eq_nil_of_waits (.inl hjob)
    rw [hns, houtcome, hjob]
    exact .waits
  | begins hjob hc =>
    rw [hjob] at htale ⊢
    exact (htale.begins hc).later hlater
  | moves hturn =>
    refine htale.moves hturn ⟨?_, fun hc => hc, rfl, rfl⟩ hlater
    exact Nat.le_of_eq hturn.now_of_moves
  | ends hends =>
    rw [rule_eq hbase]
    refine Tale.later ?_ hlater
    cases hends with
    | ends hturn => exact htale.ends hturn
    | crashes hturn => exact htale.crashes hturn

theorem Told.step (h : Told l b) (hl : Limited n b) (i : Nat) :
    Told (l ++ b.notes (.step i)) (b.step i) := by
  rcases step_cases b i with ⟨hsame, hwaits⟩ | ⟨t, t', ht, hacts⟩
  · rw [hsame, notes_of_waits hwaits, List.append_nil]
    exact h
  · intro k u hu
    rw [notesOf_append]
    by_cases hk : i = k
    · subst hk
      rw [hacts.own hl ht] at hu
      cases hu
      rw [notesOf_step_self ht]
      exact hacts.tale (h i t ht)
    · rw [notesOf_step_of_ne hk, List.append_nil, rule_eq hacts.baseDelay]
      rcases hacts.others hl ht hk with hsame | ⟨v, hv, hjob, hlet⟩
      · exact (h k u (hsame ▸ hu)).later hacts.later
      · rw [hlet] at hu
        cases hu
        obtain ⟨hns, houtcome⟩ := (h k v hv).eq_nil_of_waits (.inr hjob)
        rw [hns, houtcome]
        exact .admitted .none (Nat.zero_le _)

theorem Told.new (limit baseDelay : Nat)
    (tasks : List (String × Nat × (Nat → Script (Except RunError Json)))) :
    Told [] (new limit baseDelay tasks) := by
  intro k t ht
  simp only [Batch.new, List.getElem?_map, Option.map_eq_some_iff] at ht
  obtain ⟨spec, -, rfl⟩ := ht
  exact .asks

abbrev Spec := String × Nat × (Nat → Script (Except RunError Json))

def spec (t : BatchTask) : Spec := (t.name, t.retries, t.attempt)

def specs (b : Batch) : List Spec := b.tasks.map spec

/-- The attempts that a log begins. -/
def beginnings (specs : List Spec) (l : List (Nat × Note)) : List Beginning :=
  l.filterMap fun x => specs[x.1]?.bind fun s =>
    x.2.begun?.map fun n => ⟨s.1, n, x.2.scene.now⟩

/-- An attempt that the log begins comes to the point where it cancels the batch. -/
inductive Cancels (specs : List Spec) (l : List (Nat × Note)) : Prop where
  | mk {i n : Nat} {s : Spec} {scene scene' : Scene} {next : Script (Except RunError Json)}
    (hs : specs[i]? = some s) (hbegun : ⟨scene, .begins n⟩ ∈ notesOf i l)
    (hr : (s.2.2 n).Reaches scene (.cancel next) scene') : Cancels specs l

theorem Acts.spec_eq (h : Acts i b t t' b') : spec t' = spec t := by
  cases h <;> rfl

theorem specs_step (hl : Limited n b) (i : Nat) : (b.step i).specs = b.specs := by
  rcases step_cases b i with ⟨hsame, -⟩ | ⟨t, t', ht, hacts⟩
  · rw [hsame]
  · refine List.ext_getElem? fun k => ?_
    simp only [specs, List.getElem?_map]
    by_cases hk : i = k
    · subst hk
      rw [hacts.own hl ht, ht, Option.map_some, Option.map_some, hacts.spec_eq]
    · rcases hacts.others hl ht hk with hsame | ⟨u, hu, -, hlet⟩
      · rw [hsame]
      · rw [hlet, hu]
        rfl

theorem getElem?_specs (ht : b.tasks[i]? = some t) : b.specs[i]? = some (spec t) := by
  rw [specs, List.getElem?_map, ht, Option.map_some]

/-- No attempt begins in a turn of another kind. -/
theorem begun?_of_turn {rule : RetryRule} {scene : Scene} {job : Job} {s : JobStep}
    (h : job.Turn rule scene s) (hs : ∀ n, s ≠ .begins n) {d : Deed}
    (hd : job.deed? scene = some d) : d.begun? = none := by
  cases h with
  | asks => cases hd
  | begins hc => exact absurd rfl (hs _)
  | attempts hstep => simp [Job.deed?, hstep] at hd
  | fails hstep herr hn | ends hstep hlast | crashes hstep =>
    simp only [Job.deed?, hstep, Option.some.injEq] at hd
    rw [← hd]
    rfl
  | resumes hc ht => simp [Job.deed?, hc] at hd
  | aborts hjob hc =>
    rcases hjob with ⟨n, rfl⟩ | ⟨n, time, rfl⟩ <;>
      simp only [Job.deed?, hc, if_true, Option.some.injEq] at hd <;> rw [← hd] <;> rfl

theorem beginnings_notes (ht : b.tasks[i]? = some t) :
    beginnings b.specs (b.notes (.step i)) =
      ((t.job.deed? b.scene).bind Deed.begun?).toList.map fun n => ⟨t.name, n, b.now⟩ := by
  have hspec := getElem?_specs ht
  rw [notes_step ht, Job.notes]
  cases hd : t.job.deed? b.scene with
  | none => rfl
  | some d => cases hn : d.begun? <;> simp [beginnings, hspec, Note.begun?, hn, spec, scene]

theorem Acts.begun (h : Acts i b t t' b') :
    b'.begun =
      b.begun ++ ((t.job.deed? b.scene).bind Deed.begun?).toList.map
        fun n => ⟨t.name, n, b.now⟩ := by
  have hnone {s : JobStep} (hturn : t.job.Turn (b.rule t) b.scene s) (hs : ∀ n, s ≠ .begins n) :
      (t.job.deed? b.scene).bind Deed.begun? = none := by
    cases hd : t.job.deed? b.scene with
    | none => rfl
    | some d => exact begun?_of_turn hturn hs hd
  cases h with
  | enters hjob hfree => simp [hjob, Job.deed?, put]
  | queues hjob hfree => simp [hjob, Job.deed?, put]
  | begins hjob hc => simp [hjob, Job.deed?, scene, hc, put, Deed.begun?]
  | moves hturn => simp [hnone hturn (by simp), put]
  | ends hends =>
    have hended : (t.job.deed? b.scene).bind Deed.begun? = none := by
      cases hends with
      | ends hturn => exact hnone hturn (by simp)
      | crashes hturn => exact hnone hturn (by simp)
    rw [hended, (giveBack_kept _).2.2]
    exact (List.append_nil _).symm

/-- The attempts that are recorded are those that the log begins. -/
theorem begun_step (b : Batch) (i : Nat) :
    (b.step i).begun = b.begun ++ beginnings b.specs (b.notes (.step i)) := by
  rcases step_cases b i with ⟨hsame, hwaits⟩ | ⟨t, t', ht, hacts⟩
  · rw [hsame, notes_of_waits hwaits, beginnings, List.filterMap_nil, List.append_nil]
  · rw [beginnings_notes ht, hacts.begun]

theorem baseDelay_step (b : Batch) (i : Nat) : (b.step i).baseDelay = b.baseDelay := by
  rcases step_cases b i with ⟨hsame, -⟩ | ⟨t, t', ht, hacts⟩
  · rw [hsame]
  · exact hacts.baseDelay

theorem Cancels.append {tasks : List Spec} (h : Cancels tasks l) (l' : List (Nat × Note)) :
    Cancels tasks (l ++ l') := by
  obtain ⟨hs, hbegun, hr⟩ := h
  refine ⟨hs, ?_, hr⟩
  rw [notesOf_append]
  exact List.mem_append_left _ hbegun

/-- A step that cancels the batch is one of an attempt that the log has begun. -/
theorem Told.cancels (h : Told l b) (hc : b.cancelled = false) (hc' : (b.step i).cancelled = true) :
    Cancels b.specs l := by
  rcases step_cases b i with ⟨hsame, -⟩ | ⟨t, t', ht, hacts⟩
  · rw [hsame, hc] at hc'
    cases hc'
  · obtain ⟨n, next, hjob⟩ := hacts.eq_cancel hc hc'
    have htale := h i t ht
    rw [hjob] at htale
    obtain ⟨scene, hlast, hr⟩ := htale.running
    exact ⟨getElem?_specs ht, List.mem_of_getLast? hlast, hr⟩

/-- The scenes of a log and the present one follow each other. -/
def InOrder (l : List (Nat × Note)) (now : Scene) : Prop :=
  (l.map (fun x => x.2.scene) ++ [now]).Pairwise Scene.Later

theorem InOrder.apply (h : InOrder l b.scene) (m : Move) :
    InOrder (l ++ b.notes m) (b.apply m).scene := by
  obtain ⟨hold, -, hpast⟩ := List.pairwise_append.mp h
  have hnow : b.scene.Later b.scene := .refl rfl rfl
  have hnotes : ∀ scene ∈ (b.notes m).map (fun x => x.2.scene), scene = b.scene := by
    intro scene hscene
    obtain ⟨x, hx, rfl⟩ := List.mem_map.mp hscene
    exact scene_of_mem_notes hx
  have hpast' : ∀ scene ∈ l.map (fun x => x.2.scene), scene.Later b.scene :=
    fun scene hscene => hpast scene hscene _ (List.mem_singleton_self _)
  rw [InOrder, List.map_append, List.append_assoc]
  refine List.pairwise_append.mpr ⟨hold, ?_, ?_⟩
  · refine List.pairwise_append.mpr ⟨?_, List.pairwise_singleton _ _, ?_⟩
    · refine List.pairwise_iff_forall_sublist.mpr fun {x y} hsub => ?_
      rw [hnotes x (hsub.subset (by simp)), hnotes y (hsub.subset (by simp))]
      exact hnow
    · intro x hx y hy
      rw [hnotes x hx, List.mem_singleton.mp hy]
      exact later_apply b m
  · intro x hx y hy
    rcases List.mem_append.mp hy with hy | hy
    · rw [hnotes y hy]
      exact hpast' x hx
    · rw [List.mem_singleton.mp hy]
      exact (hpast' x hx).trans (later_apply b m)

structure Sound (n baseDelay : Nat) (tasks : List Spec) (l : List (Nat × Note)) (b : Batch) :
    Prop where
  limited : Limited n b
  told : Told l b
  specs : b.specs = tasks
  baseDelay : b.baseDelay = baseDelay
  begun : b.begun = beginnings tasks l
  inOrder : InOrder l b.scene

namespace Sound

variable {baseDelay : Nat} {tasks : List Spec}

theorem apply (h : Sound n baseDelay tasks l b) (m : Move) :
    Sound n baseDelay tasks (l ++ b.notes m) (b.apply m) := by
  have hinOrder := h.inOrder.apply m
  cases m with
  | step i =>
    constructor
    case limited => exact h.limited.step i
    case told => exact h.told.step h.limited i
    case specs => exact (specs_step h.limited i).trans h.specs
    case baseDelay => exact (baseDelay_step b i).trans h.baseDelay
    case begun =>
      rw [Batch.apply, begun_step, h.begun, h.specs, beginnings, beginnings, beginnings,
        List.filterMap_append]
    case inOrder => exact hinOrder
  | wait ms =>
    rw [notes, List.append_nil] at hinOrder ⊢
    have htold : Told l (b.wait ms) := h.told.later (later_apply b (.wait ms)) rfl rfl
    exact ⟨h.limited.apply (.wait ms), htold, h.specs, h.baseDelay, h.begun, hinOrder⟩
  | cancel =>
    rw [notes, List.append_nil] at hinOrder ⊢
    have htold : Told l b.cancel := h.told.later (later_apply b .cancel) rfl rfl
    exact ⟨h.limited.apply .cancel, htold, h.specs, h.baseDelay, h.begun, hinOrder⟩

theorem applyAll (h : Sound n baseDelay tasks l b) (ms : List Move) :
    Sound n baseDelay tasks (l ++ b.log ms) (b.applyAll ms) := by
  induction ms generalizing b l with
  | nil =>
    rw [log, List.append_nil]
    exact h
  | cons m ms ih =>
    rw [log, ← List.append_assoc]
    exact ih (h.apply m)

theorem new (limit baseDelay : Nat) (tasks : List Spec) :
    Sound (max limit 1) baseDelay tasks [] (new limit baseDelay tasks) where
  limited := .new limit baseDelay tasks
  told := .new limit baseDelay tasks
  specs := by simp [Batch.specs, Batch.new, Function.comp_def, spec]
  baseDelay := rfl
  begun := rfl
  inOrder := List.pairwise_singleton _ _

/-- A batch that is cancelled was so before, or from outside, or by an attempt of one of its
tasks. -/
theorem cancelled_cases (h : Sound n baseDelay tasks l b) (ms : List Move)
    (hc : (b.applyAll ms).cancelled = true) :
    b.cancelled = true ∨ Move.cancel ∈ ms ∨ Cancels tasks (l ++ b.log ms) := by
  induction ms generalizing b l with
  | nil => exact .inl hc
  | cons m ms ih =>
    rw [log, ← List.append_assoc]
    rcases ih (h.apply m) hc with hfirst | hcancel | hcancels
    · by_cases hbefore : b.cancelled = true
      · exact .inl hbefore
      cases m with
      | step i =>
        have hcancels := h.told.cancels (by simpa using hbefore) hfirst
        rw [h.specs] at hcancels
        exact .inr (.inr ((hcancels.append _).append _))
      | wait ms => exact absurd hfirst hbefore
      | cancel => exact .inr (.inl List.mem_cons_self)
    · exact .inr (.inl (List.mem_cons_of_mem _ hcancel))
    · exact .inr (.inr hcancels)

end Sound

theorem later_applyAll (b : Batch) (ms : List Move) : b.scene.Later (b.applyAll ms).scene := by
  induction ms generalizing b with
  | nil => exact .refl rfl rfl
  | cons m ms ih => exact (later_apply b m).trans (ih (b.apply m))

/-- A cancellation from outside stays. -/
theorem cancelled_of_mem {ms : List Move} (h : Move.cancel ∈ ms) :
    (b.applyAll ms).cancelled = true := by
  obtain ⟨before, after, rfl⟩ := List.append_of_mem h
  rw [applyAll_append, applyAll_cons]
  exact (later_applyAll _ after).cancelled rfl

/-- A cancellation that is found before an attempt or in a pause ends the task at once. -/
theorem step_of_cancelled (hl : Limited n b) (ht : b.tasks[i]? = some t) (hc : b.cancelled = true)
    (hjob : (∃ k, t.job = .admitted k) ∨ ∃ k time, t.job = .pausing k time) :
    (b.step i).tasks[i]? = some (b.closed t (.error .aborted)) := by
  have hnext : b.next t = .ends (.error .aborted) := by
    rcases hjob with ⟨k, hk⟩ | ⟨k, time, hk⟩ <;> simp [next, hk, Job.next, scene, hc]
  have hstep : b.step i = b.finish i (.error .aborted) := by simp [step, ht, hnext]
  have hends : Ends b t (.error .aborted) := .ends (.aborts hjob hc)
  rw [hstep, finish_eq ht]
  exact (Acts.ends hends).own hl ht

end TagLedger.Runner.Batch
