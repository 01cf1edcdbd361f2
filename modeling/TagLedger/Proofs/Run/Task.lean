import Mathlib.Data.Option.Basic
import Mathlib.Tactic.Common
import TagLedger.Run.Task

/-!
What one step of a task can do. A step never touches the ledger: it changes the task itself, may
hand a permit to one other task, and sends messages. Either the task goes on and sends posts or the
complete payload of its call, or it ends and sends exactly one end of its call.
-/

namespace TagLedger

/-- A task after the step of another: as before, or let in after waiting for a permit. -/
inductive CallTask.Kept : CallTask → CallTask → Prop where
  | same (t : CallTask) : Kept t t
  | admitted {t : CallTask} {slice : Json} {job : Runner.Job} (h : t.phase = .working slice job) :
    Kept t { t with phase := .working slice (.admitted 0) }

theorem CallTask.Kept.isOver_eq {t u : CallTask} (h : t.Kept u) :
    u.call = t.call ∧ u.isOver = t.isOver := by
  cases h with
  | same => exact ⟨rfl, rfl⟩
  | admitted h =>
    refine ⟨rfl, ?_⟩
    simp [CallTask.isOver, h]

/-- The errors that can keep a call from its action once it is dispatched. -/
def RunError.IsRejectionOf (callId : Uuid) (err : RunError) : Prop :=
  (∃ text, err = .failure .template text) ∨
    ∃ c text, err = .malformed (.call c) text ∧ c.id = callId

def Message.IsPush (m : Message) : Prop := ∃ e, m = .push e

/-- What comes of sending a post. An event gets its identifier and its time then. -/
def Post.IsSentAs : Post → Message → Prop
  | .entry e, m => m = .push e
  | .event name data, m =>
    ∃ id now, m = .push (.event { Entry.Event.final id now name data [] with processed := true })

theorem Post.IsSentAs.push {p : Post} {m : Message} (h : p.IsSentAs m) : m.IsPush := by
  cases p with
  | entry e => exact ⟨e, h⟩
  | event name data =>
    obtain ⟨id, now, rfl⟩ := h
    exact ⟨_, rfl⟩

theorem Post.isPush_of_isSentAs {posts : List Post} {sent : List Message}
    (h : List.Forall₂ IsSentAs posts sent) : ∀ m ∈ sent, m.IsPush := by
  induction h with
  | nil => simp
  | cons hp _ ih => exact List.forall_mem_cons.mpr ⟨hp.push, ih⟩

/-- A result that waits for the hook after a success is that of the task's call. -/
def CallTask.OwnsResult (t : CallTask) : Prop :=
  ∀ slice result script, t.phase = .succeeding slice result script → result.callId = t.call.id

inductive CallTask.Progress (t : CallTask) : CallTask → List Message → Prop where
  | goesOn {p : Phase} {sent : List Message} (hp : { t with phase := p }.isOver = false)
    (hown : { t with phase := p }.OwnsResult) (hsent : ∀ m ∈ sent, m.IsPush) :
    Progress t { t with phase := p } sent
  | prepared (data : Json) :
    Progress t { t with call := { t.call with data := some data }, phase := .loading }
      [.prepared t.call.id data]
  | rejected {err : RunError} (h : err.IsRejectionOf t.call.id) :
    Progress t { t with phase := .ended } [.failed t.call.id err]
  | completed {result : Entry.Result} (h : result.callId = t.call.id) :
    Progress t { t with phase := .ended } [.completed result]

namespace Run

structure Steps (i : Nat) (t t' : CallTask) (sent : List Message) (r r' : Run) : Prop where
  setup : r'.setup = r.setup
  ledger : r'.ledger = r.ledger
  before : r.tasks[i]? = some t
  after : r'.tasks[i]? = some t'
  others : ∀ j, j ≠ i → Option.Rel CallTask.Kept r.tasks[j]? r'.tasks[j]?
  inbox : r'.inbox = r.inbox ++ sent

structure Sends (sent : List Message) (r r' : Run) : Prop where
  setup : r'.setup = r.setup
  ledger : r'.ledger = r.ledger
  tasks : r'.tasks = r.tasks
  inbox : r'.inbox = r.inbox ++ sent

/-- Taking over a scene touches the cancellation, the messages and the count of identifiers. -/
theorem absorb_frame (s : Scene) (r : Run) :
    r.absorb s =
      { r with
        cancelled := r.cancelled || s.cancelled
        drawn := (r.absorb s).drawn
        inbox := (r.absorb s).inbox } := by
  have hposts (posts : List Post) (q : Run) :
      posts.foldl (fun r p => r.sendPost p) q =
        { q with
          drawn := (posts.foldl (fun r p => r.sendPost p) q).drawn
          inbox := (posts.foldl (fun r p => r.sendPost p) q).inbox } := by
    induction posts generalizing q with
    | nil => rfl
    | cons p posts ih =>
      refine (ih (q.sendPost p)).trans ?_
      cases p <;> rfl
  exact hposts s.posts _

/-- A permit that is given back touches the permits and the tasks. -/
theorem giveBack_frame (r : Run) :
    r.giveBack = { r with permits := r.giveBack.permits, tasks := r.giveBack.tasks } := by
  unfold giveBack
  split <;> rfl

/-- The keeping of a slice touches the store. -/
theorem keepSlice_frame (a : Action) (slice : Json) (r : Run) :
    r.keepSlice a slice = { r with store := (r.keepSlice a slice).store } := by
  unfold keepSlice
  split <;> rfl

theorem kept_refl (ts : List CallTask) (j : Nat) : Option.Rel CallTask.Kept ts[j]? ts[j]? := by
  cases ts[j]? with
  | none => exact .none
  | some t => exact .some (.same t)

theorem Sends.of_eq {r r' : Run} (hs : r'.setup = r.setup) (hl : r'.ledger = r.ledger)
    (ht : r'.tasks = r.tasks) (hi : r'.inbox = r.inbox) : Sends [] r r' :=
  ⟨hs, hl, ht, hi.trans (List.append_nil _).symm⟩

theorem draw_sends (count : Nat) (r : Run) : Sends [] r (r.draw count) :=
  Sends.of_eq rfl rfl rfl rfl

theorem rel_eq_none_iff {a b : Option CallTask} (h : Option.Rel CallTask.Kept a b) :
    b = none ↔ a = none := by
  cases h <;> simp

theorem Steps.exists_kept {i j : Nat} {t t' u : CallTask} {sent : List Message} {r r' : Run}
    (h : Steps i t t' sent r r') (hj : j ≠ i) (hu : r'.tasks[j]? = some u) :
    ∃ v, r.tasks[j]? = some v ∧ v.Kept u := by
  have hrel := h.others j hj
  rw [hu] at hrel
  cases hv : r.tasks[j]? with
  | none =>
    rw [hv] at hrel
    cases hrel
  | some v =>
    rw [hv] at hrel
    cases hrel with
    | some hkept => exact ⟨v, rfl, hkept⟩

/-- A task after the step: the one that took it, or another one, at most let in. -/
theorem Steps.mem_cases {i : Nat} {t t' u : CallTask} {sent : List Message} {r r' : Run}
    (h : Steps i t t' sent r r') (hu : u ∈ r'.tasks) : u = t' ∨ ∃ v ∈ r.tasks, v.Kept u := by
  obtain ⟨j, hj⟩ := List.mem_iff_getElem?.mp hu
  by_cases hji : j = i
  · subst hji
    exact .inl (Option.some.inj (hj.symm.trans h.after))
  · obtain ⟨v, hv, hkept⟩ := h.exists_kept hji hj
    exact .inr ⟨v, List.mem_of_getElem? hv, hkept⟩

theorem Steps.exists_later {i j : Nat} {t t' u : CallTask} {sent : List Message} {r r' : Run}
    (h : Steps i t t' sent r r') (hj : j ≠ i) (hu : r.tasks[j]? = some u) :
    ∃ v, r'.tasks[j]? = some v ∧ u.Kept v := by
  have hrel := h.others j hj
  rw [hu] at hrel
  generalize r'.tasks[j]? = after at hrel
  cases hrel with
  | some hkept => exact ⟨_, rfl, hkept⟩

theorem Steps.length_eq {i : Nat} {t t' : CallTask} {sent : List Message} {r r' : Run}
    (h : Steps i t t' sent r r') : r'.tasks.length = r.tasks.length := by
  have hnone (k : Nat) : r'.tasks[k]? = none ↔ r.tasks[k]? = none := by
    by_cases hk : k = i
    · simp [hk, h.after, h.before]
    · exact rel_eq_none_iff (h.others k hk)
  simp only [List.getElem?_eq_none_iff] at hnone
  exact Nat.le_antisymm ((hnone _).mpr (Nat.le_refl _)) ((hnone _).mp (Nat.le_refl _))

theorem Sends.trans {sent sent' : List Message} {r r' r'' : Run} (h : Sends sent r r')
    (h' : Sends sent' r' r'') : Sends (sent ++ sent') r r'' where
  setup := h'.setup.trans h.setup
  ledger := h'.ledger.trans h.ledger
  tasks := h'.tasks.trans h.tasks
  inbox := by rw [h'.inbox, h.inbox, List.append_assoc]

/-- Every post is sent, once and in its turn. -/
theorem sendPosts_sends (posts : List Post) (r : Run) :
    ∃ sent, Sends sent r (posts.foldl (fun r p => r.sendPost p) r) ∧
      List.Forall₂ Post.IsSentAs posts sent := by
  induction posts generalizing r with
  | nil => exact ⟨[], Sends.of_eq rfl rfl rfl rfl, .nil⟩
  | cons p posts ih =>
    obtain ⟨m, hm, hp⟩ : ∃ m, Sends [m] r (r.sendPost p) ∧ p.IsSentAs m := by
      cases p with
      | entry e => exact ⟨.push e, ⟨rfl, rfl, rfl, rfl⟩, rfl⟩
      | event name data => exact ⟨.push _, ⟨rfl, rfl, rfl, rfl⟩, _, _, rfl⟩
    obtain ⟨more, hmore, hposts⟩ := ih (r.sendPost p)
    exact ⟨m :: more, hm.trans hmore, .cons hp hposts⟩

theorem absorb_sends (s : Scene) (r : Run) :
    ∃ sent, Sends sent r (r.absorb s) ∧ List.Forall₂ Post.IsSentAs s.posts sent := by
  obtain ⟨sent, h, hposts⟩ :=
    sendPosts_sends s.posts { r with cancelled := r.cancelled || s.cancelled }
  exact ⟨sent, ⟨h.setup, h.ledger, h.tasks, h.inbox⟩, hposts⟩

theorem getElem?_setPhase_self {i : Nat} {t : CallTask} {r : Run} (h : r.tasks[i]? = some t)
    (p : Phase) : (r.setPhase i p).tasks[i]? = some { t with phase := p } := by
  simp [setPhase, h]

theorem getElem?_setPhase_of_ne {i j : Nat} (h : j ≠ i) (r : Run) (p : Phase) :
    (r.setPhase i p).tasks[j]? = r.tasks[j]? := by
  simp [setPhase, h.symm]

theorem Sends.setPhase {sent : List Message} {r r' : Run} (h : Sends sent r r') {i : Nat}
    {t : CallTask} (ht : r.tasks[i]? = some t) (p : Phase) :
    Steps i t { t with phase := p } sent r (r'.setPhase i p) where
  setup := h.setup
  ledger := h.ledger
  before := ht
  after := getElem?_setPhase_self (h.tasks.symm ▸ ht) p
  others := fun j hj => by
    rw [getElem?_setPhase_of_ne hj, h.tasks]
    exact kept_refl _ j
  inbox := h.inbox

theorem setPhase_steps {i : Nat} {t : CallTask} {r : Run} (ht : r.tasks[i]? = some t) (p : Phase) :
    Steps i t { t with phase := p } [] r (r.setPhase i p) :=
  (Sends.of_eq rfl rfl rfl rfl).setPhase ht p

theorem setTask_steps {i : Nat} {t : CallTask} {r : Run} (ht : r.tasks[i]? = some t)
    (t' : CallTask) : Steps i t t' [] r (r.setTask i t') where
  setup := rfl
  ledger := rfl
  before := ht
  after := by
    obtain ⟨hi, _⟩ := List.getElem?_eq_some_iff.mp ht
    simp [setTask, hi]
  others := fun j hj => by
    simp only [setTask, List.getElem?_set_ne hj.symm]
    exact kept_refl _ j
  inbox := (List.append_nil _).symm

theorem Steps.trans_sends {sent sent' : List Message} {r r' r'' : Run} {i : Nat} {t t' : CallTask}
    (h : Steps i t t' sent r r') (h' : Sends sent' r' r'') :
    Steps i t t' (sent ++ sent') r r'' where
  setup := h'.setup.trans h.setup
  ledger := h'.ledger.trans h.ledger
  before := h.before
  after := h'.tasks ▸ h.after
  others := fun j hj => h'.tasks ▸ h.others j hj
  inbox := by rw [h'.inbox, h.inbox, List.append_assoc]

theorem send_sends (m : Message) (r : Run) : Sends [m] r (r.send m) := ⟨rfl, rfl, rfl, rfl⟩

theorem reject_steps {i : Nat} {t : CallTask} {r : Run} (ht : r.tasks[i]? = some t)
    (err : RunError) :
    Steps i t { t with phase := .ended } [.failed t.call.id err] r (r.reject i t err) :=
  (setPhase_steps ht .ended).trans_sends (send_sends _ _)

/-- A permit that is given back changes at most the task that gets it. -/
theorem giveBack_kept (r : Run) :
    r.giveBack.setup = r.setup ∧ r.giveBack.ledger = r.ledger ∧ r.giveBack.inbox = r.inbox ∧
      ∀ j : Nat, Option.Rel CallTask.Kept r.tasks[j]? r.giveBack.tasks[j]? := by
  unfold giveBack
  split
  · exact ⟨rfl, rfl, rfl, kept_refl _⟩
  · rename_i k permits heq
    refine ⟨rfl, rfl, rfl, fun j => ?_⟩
    simp only [List.getElem?_modify]
    cases hj : r.tasks[j]? with
    | none => exact .none
    | some t =>
      refine .some ?_
      by_cases hk : k = j
      · simp only [hk, ↓reduceIte]
        split
        · rename_i slice job hphase
          exact .admitted hphase
        · exact .same t
      · simp only [hk, ↓reduceIte]
        exact .same t

theorem giveBack_setPhase_steps {i : Nat} {t : CallTask} {r : Run} (ht : r.tasks[i]? = some t)
    (p : Phase) : Steps i t { t with phase := p } [] r (r.giveBack.setPhase i p) := by
  obtain ⟨hsetup, hledger, hinbox, htasks⟩ := r.giveBack_kept
  refine ⟨hsetup, hledger, ht, ?_, fun j hj => ?_, hinbox.trans (List.append_nil _).symm⟩
  · have hi := htasks i
    rw [ht] at hi
    cases hg : r.giveBack.tasks[i]? with
    | none =>
      rw [hg] at hi
      cases hi
    | some t' =>
      rw [hg] at hi
      rw [getElem?_setPhase_self hg]
      cases hi with
      | some hkept => cases hkept <;> rfl
  · rw [getElem?_setPhase_of_ne hj]
    exact htasks j

theorem complete_steps {i : Nat} {t : CallTask} {r : Run} (q : Run)
    (h : Steps i t { t with phase := .ended } [] r (q.setPhase i .ended)) (result : Entry.Result) :
    Steps i t { t with phase := .ended } [.completed result] r (q.complete i result) :=
  h.trans_sends (send_sends _ _)

def TasksOwn (r : Run) : Prop := ∀ t ∈ r.tasks, t.OwnsResult

def Advances (i : Nat) (r r' : Run) : Prop :=
  ∃ t t' sent, Steps i t t' sent r r' ∧ t.isOver = false ∧ t.Progress t' sent

end Run

end TagLedger
