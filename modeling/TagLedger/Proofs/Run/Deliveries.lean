import Mathlib.Data.List.Forall2
import Mathlib.Data.List.Induction
import Mathlib.Tactic.Common
import TagLedger.Proofs.Run.Posts
import TagLedger.Proofs.Run.Progress

/-!
The way from a task to the dispatcher. All messages go through one queue: what the dispatcher has
taken from it and what is still in it are, together and in order, what the tasks have sent. So what
was taken from one task is what it has sent, in order, but for what is waiting.
-/

namespace TagLedger

theorem Script.isSome_post? {α : Type} {script : Script α} (scene : Scene)
    (h : script.post?.isSome = true) :
    ∃ script' scene', script.step scene = .moved script' scene' := by
  cases script with
  | post p next => exact ⟨_, _, rfl⟩
  | _ => cases h

namespace Run

variable {α : Type} {i j k : Nat} {t t' : CallTask} {sent : List Message} {r : Run} {m : Move}
  {ms : List Move} {y : Run × Message}

def gathered (f : Run → Move → List α) : List Move → Run → List α
  | [], _ => []
  | m :: ms, r => f r m ++ gathered f ms (r.apply m)

/-- The post that the script of a task makes in a move, with the place of the task. -/
def postedBy (r : Run) : Move → List (Nat × Post)
  | .task i => (r.tasks[i]?.bind CallTask.post?).toList.map (i, ·)
  | _ => []

def sentBy (r : Run) : Move → List (Nat × Message)
  | .task i => ((r.apply (.task i)).inbox.drop r.inbox.length).map (i, ·)
  | _ => []

/-- The message that the dispatcher takes from the queue in a move, with the run as it is then. -/
def deliveredBy (r : Run) : Move → List (Run × Message)
  | .deliver => r.taken .deliver
  | _ => []

def posted (ms : List Move) (r : Run) : List (Nat × Post) := gathered postedBy ms r

def sentIn (ms : List Move) (r : Run) : List (Nat × Message) := gathered sentBy ms r

def delivered (ms : List Move) (r : Run) : List (Run × Message) := gathered deliveredBy ms r

def fromTask (k : Nat) (xs : List (Nat × α)) : List α := (xs.filter fun x => x.1 == k).map (·.2)

theorem gathered_append (f : Run → Move → List α) (ms ms' : List Move) (r : Run) :
    gathered f (ms ++ ms') r = gathered f ms r ++ gathered f ms' (r.applyAll ms) := by
  induction ms generalizing r with
  | nil => rfl
  | cons m ms ih =>
    rw [List.cons_append, gathered, gathered, ih, List.append_assoc]
    rfl

theorem gathered_concat (f : Run → Move → List α) (ms : List Move) (m : Move) (r : Run) :
    gathered f (ms ++ [m]) r = gathered f ms r ++ f (r.applyAll ms) m := by
  rw [gathered_append]
  exact congrArg _ (List.append_nil _)

theorem fromTask_append (k : Nat) (xs ys : List (Nat × α)) :
    fromTask k (xs ++ ys) = fromTask k xs ++ fromTask k ys := by
  simp [fromTask]

theorem fromTask_self (k : Nat) (xs : List α) : fromTask k (xs.map (k, ·)) = xs := by
  simp [fromTask, List.filter_map, Function.comp_def]

theorem fromTask_of_ne (h : i ≠ k) (xs : List α) : fromTask k (xs.map (i, ·)) = [] := by
  simp [fromTask, List.filter_map, Function.comp_def, h]

theorem mem_fromTask {x : α} {xs : List (Nat × α)} : x ∈ fromTask k xs ↔ (k, x) ∈ xs := by
  simp [fromTask]

/-- The messages that are delivered are among those that the dispatcher takes in. -/
theorem delivered_sublist (ms : List Move) (r : Run) :
    (delivered ms r).Sublist (history ms r) := by
  induction ms generalizing r with
  | nil => exact .slnil
  | cons m ms ih =>
    refine List.Sublist.append ?_ (ih (r.apply m))
    cases m with
    | deliver => exact .refl _
    | _ => exact List.nil_sublist _

theorem takeElement_inbox (x : Markup.Element) (r : Run) : (r.takeElement x).inbox = r.inbox := by
  have hx := r.takeElement_notices x
  generalize r.elementTaken x = taken, r.takeElement x = r' at hx ⊢
  cases hx with
  | routes _ hdone _ => exact (route_reception (Entry.finished_withElement hdone _) _).inbox
  | _ => rfl

theorem takeEvents_inbox (events : List Markup.ElementEvent) (r : Run) :
    (r.takeEvents events).inbox = r.inbox := by
  induction events generalizing r with
  | nil => rfl
  | cons ev events ih => exact (ih _).trans (r.takeElement_inbox ev.element)

theorem TakesPiece.inbox {taken : List (Run × Message)} {r' : Run} (hp : TakesPiece r taken r') :
    r'.inbox = r.inbox := by
  cases hp with
  | nothing _ => rfl
  | events p events => exact takeEvents_inbox events _

/-- Only tasks send messages, and only deliveries take them. -/
theorem apply_inbox (htask : ∀ i, m ≠ .task i) (hdeliver : m ≠ .deliver) (r : Run) :
    (r.apply m).inbox = r.inbox := by
  have hcancel (cancels : Bool) : (if cancels then r.cancel else r).inbox = r.inbox := by
    split <;> rfl
  have hmove := r.apply_happens m
  generalize r.taken m = taken, r.apply m = r' at hmove ⊢
  cases hmove with
  | start _ => exact (Quiet.start r).inbox
  | nextStep _ => exact (Quiet.logsPlain r.nextStep_logs).inbox
  | push e _ => exact (receive_reception (.push e) r).inbox
  | feed chunk cancels _ => exact (feed_takesPiece chunk _).inbox.trans (hcancel cancels)
  | closeStream cancels _ => exact (closeStream_takesPiece _).inbox.trans (hcancel cancels)
  | deliver _ => exact absurd rfl hdeliver
  | task _ => exact absurd rfl (htask _)
  | _ => rfl

theorem eventsTaken_isPush (events : List Markup.ElementEvent) (r : Run)
    (hy : y ∈ eventsTaken events r) : y.2.IsPush := by
  induction events generalizing r with
  | nil => cases hy
  | cons ev events ih =>
    rcases List.mem_append.mp hy with hy | hy
    · have hx := r.takeElement_notices ev.element
      generalize r.elementTaken ev.element = taken, r.takeElement ev.element = r' at hx hy
      cases hx with
      | routes _ _ _ =>
        rw [List.mem_singleton.mp hy]
        exact ⟨_, rfl⟩
      | _ => cases hy
    · exact ih _ hy

theorem TakesPiece.isPush {taken : List (Run × Message)} {r' : Run} (hp : TakesPiece r taken r')
    (hy : y ∈ taken) : y.2.IsPush := by
  cases hp with
  | nothing _ => cases hy
  | events p events => exact eventsTaken_isPush events _ hy

/-- What is taken from elsewhere than the queue is an entry of the host or of the stream. -/
theorem isPush_of_mem_taken (hdeliver : m ≠ .deliver) (hy : y ∈ r.taken m) : y.2.IsPush := by
  have hmove := r.apply_happens m
  generalize r.taken m = taken, r.apply m = r' at hmove hy
  cases hmove with
  | push e _ =>
    rw [List.mem_singleton.mp hy]
    exact ⟨e, rfl⟩
  | feed chunk cancels _ => exact (feed_takesPiece chunk _).isPush hy
  | closeStream cancels _ => exact (closeStream_takesPiece _).isPush hy
  | deliver _ => exact absurd rfl hdeliver
  | _ => cases hy

inductive Passes (r : Run) (m : Move) : Prop where
  | sends {i : Nat} {t t' : CallTask} {sent : List Message} (hm : m = .task i)
    (ht : r.tasks[i]? = some t) (hstep : r.stepTask? i = some (r.apply m))
    (hconduct : Conduct i r t t' sent (r.apply m)) (hsent : r.sentBy m = sent.map (i, ·))
  | takes {x : Message} {rest : List Message} (hm : m = .deliver) (hinbox : r.inbox = x :: rest)
    (htaken : r.deliveredBy m = [({ r with inbox := rest }, x)])
    (happly : r.apply m = receive x { r with inbox := rest })
  | rests (hposted : r.postedBy m = []) (hsent : r.sentBy m = []) (htaken : r.deliveredBy m = [])
    (hinbox : (r.apply m).inbox = r.inbox)
    (htasks : (∃ i, m = .task i) → r.apply m = r)

/-- A task whose script posts next can take a step. -/
theorem isSome_stepTask?_of_post? (ht : r.tasks[i]? = some t) (h : t.post?.isSome = true) :
    (r.stepTask? i).isSome = true := by
  unfold CallTask.post? at h
  simp only [stepTask?, ht, Option.bind_some]
  split at h
  · rename_i slice job hphase
    cases job with
    | attempting n script =>
      obtain ⟨script', scene', hs⟩ := Script.isSome_post? (r.scene slice) h
      simp [hphase, stepWorking?, Runner.Job.next, hs]
    | _ => cases h
  · rename_i slice script hphase
    obtain ⟨script', scene', hs⟩ := Script.isSome_post? (r.scene slice) h
    simp [hphase, stepRecovering?, hs]
  · rename_i slice result script hphase
    obtain ⟨script', scene', hs⟩ := Script.isSome_post? (r.scene slice) h
    simp [hphase, stepSucceeding?, hs]
  · cases h

theorem passes (r : Run) (m : Move) : Passes r m := by
  by_cases htask : ∃ i, m = .task i
  · obtain ⟨i, rfl⟩ := htask
    cases hs : r.stepTask? i with
    | none =>
      have hsame : r.apply (.task i) = r := by rw [apply, stepTask, hs, Option.getD_none]
      refine .rests ?_ (by simp [sentBy, hsame]) rfl (by rw [hsame]) fun _ => hsame
      cases ht : r.tasks[i]? with
      | none => simp [postedBy, ht]
      | some t =>
        have hpost : t.post? = none := by
          by_contra hpost
          have hstep := isSome_stepTask?_of_post? ht (Option.isSome_iff_ne_none.mpr hpost)
          simp [hs] at hstep
        simp [postedBy, ht, hpost]
    | some r' =>
      have happly : r.apply (.task i) = r' := by rw [apply, stepTask, hs, Option.getD_some]
      obtain ⟨t, t', sent, ht, hconduct⟩ := stepTask?_conduct hs
      refine .sends rfl ht (happly ▸ hs) (happly.symm ▸ hconduct) ?_
      rw [sentBy, happly, (hconduct.steps ht).inbox, List.drop_left]
  · have htask (i : Nat) : m ≠ .task i := fun hm => htask ⟨i, hm⟩
    have hposted : r.postedBy m = [] := by
      cases m with
      | task i => exact absurd rfl (htask i)
      | _ => rfl
    have hsent : r.sentBy m = [] := by
      cases m with
      | task i => exact absurd rfl (htask i)
      | _ => rfl
    have hnotask : (∃ i, m = .task i) → r.apply m = r := by
      rintro ⟨i, hm⟩
      exact absurd hm (htask i)
    by_cases hdeliver : m = .deliver
    · subst hdeliver
      have hmove := r.apply_happens .deliver
      have htaken : r.deliveredBy .deliver = r.taken .deliver := rfl
      generalize r.taken .deliver = taken, happly : r.apply .deliver = r' at hmove htaken
      cases hmove with
      | nothing => exact .rests hposted hsent htaken (by rw [happly]) hnotask
      | deliver hinbox => exact .takes rfl hinbox htaken happly
    · refine .rests hposted hsent ?_ (apply_inbox htask hdeliver r) hnotask
      cases m with
      | deliver => exact absurd rfl hdeliver
      | _ => rfl

/-- What is in the queue and what is sent is taken first or is there afterwards, in order. -/
theorem inbox_apply (r : Run) (m : Move) :
    r.inbox ++ (r.sentBy m).map (·.2) = (r.deliveredBy m).map (·.2) ++ (r.apply m).inbox := by
  cases r.passes m with
  | sends hm ht hstep hconduct hsent =>
    subst hm
    rw [hsent, (hconduct.steps ht).inbox]
    simp [deliveredBy, Function.comp_def]
  | takes hm hinbox htaken happly =>
    subst hm
    rw [htaken, happly, (receive_reception _ _).inbox, hinbox]
    simp [sentBy]
  | rests _ hsent htaken hinbox _ => simp [hsent, htaken, hinbox]

/-- Messages are taken in the order in which they were sent. -/
theorem inbox_applyAll (hr : r.inbox = []) (ms : List Move) :
    (sentIn ms r).map (·.2) = (delivered ms r).map (·.2) ++ (r.applyAll ms).inbox := by
  induction ms using List.reverseRecOn with
  | nil => exact hr.symm
  | append_singleton ms m ih =>
    rw [sentIn, delivered] at ih ⊢
    rw [gathered_concat, gathered_concat, applyAll_concat, List.map_append, List.map_append, ih,
      List.append_assoc, List.append_assoc, inbox_apply]

/-- What the scripts of a task have posted as events are the events that it has sent. -/
theorem posted_events (k : Nat) (ms : List Move) (r : Run) :
    List.Forall₂ Post.IsCommittedAs ((fromTask k (posted ms r)).filter Post.isEvent)
      ((fromTask k (sentIn ms r)).filterMap Message.event?) := by
  induction ms using List.reverseRecOn with
  | nil => exact .nil
  | append_singleton ms m ih =>
    rw [posted, sentIn] at ih ⊢
    rw [gathered_concat, gathered_concat, fromTask_append, fromTask_append, List.filter_append,
      List.filterMap_append]
    refine List.rel_append ih ?_
    cases (r.applyAll ms).passes m with
    | @sends i t t' sent hm ht hstep hconduct hsent =>
      subst hm
      rw [hsent, postedBy, ht, Option.bind_some]
      by_cases hk : i = k
      · subst hk
        rw [fromTask_self, fromTask_self]
        exact hconduct.events
      · rw [fromTask_of_ne hk, fromTask_of_ne hk]
        exact .nil
    | takes hm hinbox htaken happly =>
      subst hm
      exact .nil
    | rests hposted hsent _ _ _ =>
      rw [hposted, hsent]
      exact .nil

/-- The place and the time of a delivery: which move it is, and which task has sent the message. -/
theorem exists_delivery (hr : r.inbox = []) {j : Nat} {d : Run × Message}
    (hd : (delivered ms r)[j]? = some d) :
    ∃ before after rest i, ms = before ++ .deliver :: after ∧
      d.1 = { r.applyAll before with inbox := rest } ∧
      (r.applyAll before).apply .deliver = receive d.2 d.1 ∧
      (sentIn before r)[j]? = some (i, d.2) := by
  induction ms using List.reverseRecOn with
  | nil => cases hd
  | append_singleton ms m ih =>
    have hlater (hd : (gathered deliveredBy ms r)[j]? = some d) :
        ∃ before after rest i, ms ++ [m] = before ++ .deliver :: after ∧
          d.1 = { r.applyAll before with inbox := rest } ∧
          (r.applyAll before).apply .deliver = receive d.2 d.1 ∧
          (sentIn before r)[j]? = some (i, d.2) := by
      obtain ⟨before, after, rest, i, rfl, hrest⟩ := ih hd
      exact ⟨before, after ++ [m], rest, i, by simp, hrest⟩
    rw [delivered, gathered_concat] at hd
    cases (r.applyAll ms).passes m with
    | sends hm ht hstep hconduct hsent =>
      have hnone : (r.applyAll ms).deliveredBy m = [] := hm ▸ rfl
      rw [hnone, List.append_nil] at hd
      exact hlater hd
    | @takes x rest hm hinbox htaken happly =>
      rw [htaken] at hd
      rcases getElem?_concat hd with hd | ⟨hj, rfl⟩
      · exact hlater hd
      · have hlength : j = ((delivered ms r).map (·.2)).length := by rw [List.length_map, hj]; rfl
        have hqueue := congrArg (·[j]?) (inbox_applyAll hr ms)
        simp only [hinbox, hlength, List.getElem?_append_right (Nat.le_refl _), Nat.sub_self,
          List.getElem?_cons_zero, List.getElem?_map] at hqueue
        obtain ⟨y, hy, hyx⟩ := Option.map_eq_some_iff.mp hqueue
        refine ⟨ms, [], rest, y.1, by rw [hm], rfl, hm ▸ happly, ?_⟩
        rw [hlength, hy, ← hyx]
    | rests _ _ htaken _ _ =>
      rw [htaken, List.append_nil] at hd
      exact hlater hd

/-- What is not delivered is an entry from the host or from the stream. -/
theorem isPush_of_notMem_delivered (hy : y ∈ history ms r) (hd : y ∉ delivered ms r) :
    y.2.IsPush := by
  induction ms generalizing r with
  | nil => cases hy
  | cons m ms ih =>
    rw [delivered, gathered, List.mem_append, not_or] at hd
    rcases List.mem_append.mp hy with hy | hy
    · refine isPush_of_mem_taken ?_ hy
      rintro rfl
      exact hd.1 hy
    · exact ih hy hd.2

/-- The messages of task `k` that were taken, in the order of sending, with the runs in which they
were taken. The queue keeps the order of all messages, so the takings are those of the first that
were sent. -/
def takenFrom (k : Nat) (ms : List Move) (r : Run) : List (Run × Message) :=
  fromTask k (((sentIn ms r).map (·.1)).zip (delivered ms r))

def waitingFrom (k : Nat) (ms : List Move) (r : Run) : List Message :=
  fromTask k ((sentIn ms r).drop (delivered ms r).length)

theorem fromTask_zip {xs : List (Nat × Message)} {ys : List (Run × Message)} {zs : List Message}
    (h : xs.map (·.2) = ys.map (·.2) ++ zs) (k : Nat) :
    (fromTask k ((xs.map (·.1)).zip ys)).map (·.2) ++ fromTask k (xs.drop ys.length) =
      fromTask k xs := by
  induction ys generalizing xs with
  | nil => simp [fromTask]
  | cons y ys ih =>
    cases xs with
    | nil => cases h
    | cons x xs =>
      simp only [List.map_cons, List.cons_append, List.cons.injEq] at h
      have hrest := ih h.2
      by_cases hk : x.1 = k <;> simp [fromTask, hk, h.1] at hrest ⊢ <;> exact hrest

section

variable (hr : r.inbox = [])

include hr

theorem takenFrom_append_waitingFrom (k : Nat) (ms : List Move) :
    (takenFrom k ms r).map (·.2) ++ waitingFrom k ms r = fromTask k (sentIn ms r) :=
  fromTask_zip (inbox_applyAll hr ms) k

theorem delivered_length_le (ms : List Move) : (delivered ms r).length ≤ (sentIn ms r).length := by
  have hlength := congrArg List.length (inbox_applyAll hr ms)
  rw [List.length_append, List.length_map, List.length_map] at hlength
  exact Nat.le.intro hlength.symm

theorem takenFrom_sublist (k : Nat) (ms : List Move) :
    (takenFrom k ms r).Sublist (delivered ms r) := by
  have hzip : (((sentIn ms r).map (·.1)).zip (delivered ms r)).map (·.2) = delivered ms r :=
    List.map_snd_zip (by rw [List.length_map]; exact delivered_length_le hr ms)
  rw [← hzip]
  exact List.filter_sublist.map _

/-- Every delivery has its sender. -/
theorem exists_sender (hy : (delivered ms r)[j]? = some y) :
    ∃ i, (sentIn ms r)[j]? = some (i, y.2) := by
  have hqueue := congrArg (·[j]?) (inbox_applyAll hr ms)
  obtain ⟨hlt, _⟩ := List.getElem?_eq_some_iff.mp hy
  simp only [List.getElem?_map] at hqueue
  rw [List.getElem?_append_left (by rwa [List.length_map]), List.getElem?_map, hy,
    Option.map_some] at hqueue
  obtain ⟨x, hx, hxy⟩ := Option.map_eq_some_iff.mp hqueue
  exact ⟨x.1, by rw [hx, ← hxy]⟩

/-- Task `k` has sent what is taken from it. -/
theorem mem_takenFrom : y ∈ takenFrom k ms r ↔
    ∃ j : Nat, (delivered ms r)[j]? = some y ∧ (sentIn ms r)[j]? = some (k, y.2) := by
  rw [takenFrom, mem_fromTask, List.mem_iff_getElem?]
  simp only [List.getElem?_zip_eq_some, List.getElem?_map, Option.map_eq_some_iff]
  constructor
  · rintro ⟨j, ⟨x, hx, rfl⟩, hy⟩
    obtain ⟨i, hi⟩ := exists_sender hr hy
    obtain rfl := Option.some.inj (hx.symm.trans hi)
    exact ⟨j, hy, hi⟩
  · rintro ⟨j, hy, hk⟩
    exact ⟨j, ⟨_, hk, rfl⟩, hy⟩

end

end Run

end TagLedger
