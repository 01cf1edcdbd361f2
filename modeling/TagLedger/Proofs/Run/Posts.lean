import Mathlib.Tactic.Common
import TagLedger.Proofs.Action.Moves
import TagLedger.Proofs.Run.Conduct
import TagLedger.Proofs.Run.Trace

/-!
What scripts post, message by message. A step of a task sends what its script posts in that step, in
the order of posting, and every post that is an event becomes one message with that event.
-/

namespace TagLedger

namespace Script

variable {α : Type}

def post? : Script α → Option Post
  | .post p _ => some p
  | _ => none

theorem posts_of_moved {script script' : Script α} {scene scene' : Scene}
    (h : script.step scene = .moved script' scene') :
    scene'.posts = scene.posts ++ script.post?.toList := by
  cases moves_of_step h with
  | post => rfl
  | _ => exact (List.append_nil _).symm

theorem post?_of_finished {script : Script α} {scene : Scene} {a : α}
    (h : script.step scene = .finished a) : script.post? = none := by
  obtain rfl := eq_done_of_step h
  rfl

theorem post?_of_crashed {script : Script α} {scene : Scene} (h : script.step scene = .crashed) :
    script.post? = none := by
  obtain rfl := eq_crash_of_step h
  rfl

end Script

namespace Runner.Job

def post? : Job → Option Post
  | .attempting _ script => script.post?
  | _ => none

variable {rule : RetryRule} {scene scene' : Scene} {job job' : Job}

theorem Turn.posts_of_moves (h : job.Turn rule scene (.moves job' scene')) :
    scene'.posts = scene.posts ++ job.post?.toList := by
  cases h with
  | attempts hs => exact Script.posts_of_moved hs
  | fails hs _ _ =>
    rw [post?, Script.post?_of_finished hs]
    exact (List.append_nil _).symm
  | resumes _ _ => exact (List.append_nil _).symm

theorem Turn.post?_of_ends {outcome : Except RunError Json}
    (h : job.Turn rule scene (.ends outcome)) : job.post? = none := by
  cases h with
  | aborts hjob _ => rcases hjob with ⟨n, rfl⟩ | ⟨n, time, rfl⟩ <;> rfl
  | ends hs _ => exact Script.post?_of_finished hs

theorem Turn.post?_of_crashes (h : job.Turn rule scene .crashes) : job.post? = none := by
  cases h with
  | crashes hs => exact Script.post?_of_crashed hs

end Runner.Job

def CallTask.post? (t : CallTask) : Option Post :=
  match t.phase with
  | .working _ job => job.post?
  | .recovering _ script => script.post?
  | .succeeding _ _ script => script.post?
  | _ => none

namespace Post

def isEvent : Post → Bool
  | .event _ _ => true
  | .entry e => e.kind == .event

/-- The event that a post stands for. One that is given by name gets its identifier and its time
when it is sent. -/
def IsCommittedAs : Post → Entry.Event → Prop
  | .event name data, e =>
    ∃ id now, e = { Entry.Event.final id now name data [] with processed := true }
  | .entry x, e => x.finished = .event e

end Post

def Message.event? : Message → Option Entry.Event
  | .push e =>
    match e.finished with
    | .event ev => some ev
    | _ => none
  | _ => none

theorem Message.event?_push {e : Entry} {ev : Entry.Event} :
    (Message.push e).event? = some ev ↔ e.finished = .event ev := by
  unfold event?
  dsimp only
  split
  · rename_i x hx
    rw [hx, Option.some.injEq, Entry.event.injEq]
  · rename_i hx
    exact ⟨nofun, fun h => absurd h (hx ev)⟩

def Message.isPush : Message → Bool
  | .push _ => true
  | _ => false

theorem Message.IsPush.isPush_eq {m : Message} (h : m.IsPush) : m.isPush = true := by
  obtain ⟨e, rfl⟩ := h
  rfl

/-- A post that is an event is sent as that event, and no other post is sent as one. -/
theorem Post.IsSentAs.event?_eq {p : Post} {m : Message} (h : p.IsSentAs m) :
    if p.isEvent then ∃ ev, m.event? = some ev ∧ p.IsCommittedAs ev else m.event? = none := by
  cases p with
  | event name data =>
    obtain ⟨id, now, rfl⟩ := h
    exact ⟨_, rfl, id, now, rfl⟩
  | entry e =>
    obtain rfl : m = .push e := h
    cases e with
    | event ev => exact ⟨_, rfl, rfl⟩
    | _ => rfl

namespace Run

variable {i : Nat} {t t' : CallTask} {sent : List Message} {r r' : Run} {posts : List Post}

/-- Every post of a scene is sent, once and in its turn. -/
theorem absorb_one_each {s : Scene} (h : Sends sent r (r.absorb s)) :
    List.Forall₂ Post.IsSentAs s.posts sent := by
  obtain ⟨sent', h', hposts⟩ := r.absorb_sends s
  have hsame : sent' = sent := List.append_cancel_left (h'.inbox.symm.trans h.inbox)
  exact hsame ▸ hposts

theorem events_of_posts (h : List.Forall₂ Post.IsSentAs posts sent) :
    List.Forall₂ Post.IsCommittedAs (posts.filter Post.isEvent)
      (sent.filterMap Message.event?) := by
  induction h with
  | nil => exact .nil
  | @cons p m posts sent hpm _ ih =>
    have hevent := hpm.event?_eq
    split at hevent
    · rename_i hp
      obtain ⟨ev, hev, hcommitted⟩ := hevent
      rw [List.filter_cons_of_pos hp, List.filterMap_cons_some hev]
      exact .cons hcommitted ih
    · rename_i hp
      rwa [List.filter_cons_of_neg hp, List.filterMap_cons_none hevent]

/-- The entries that a step sends are those that its script posts. -/
theorem Conduct.pushes (h : Conduct i r t t' sent r') :
    List.Forall₂ Post.IsSentAs t.post?.toList (sent.filter Message.isPush) := by
  have hposted {p : Option Post} {s : Scene} (hp : t.post? = p)
      (hsends : Sends sent r (r.absorb s)) (hposts : s.posts = [] ++ p.toList) :
      List.Forall₂ Post.IsSentAs t.post?.toList (sent.filter Message.isPush) := by
    rw [List.nil_append, ← hp] at hposts
    have hsent := absorb_one_each hsends
    have hpushes : ∀ m ∈ sent, m.isPush = true := fun m hm =>
      (Post.isPush_of_isSentAs hsent m hm).isPush_eq
    rw [List.filter_eq_self.mpr hpushes, ← hposts]
    exact hsent
  have hnone {p : Option Post} (hp : t.post? = p) (hpost : p = none)
      (hsent : sent.filter Message.isPush = []) :
      List.Forall₂ Post.IsSentAs t.post?.toList (sent.filter Message.isPush) := by
    rw [hp, hpost, hsent]
    exact .nil
  have hworking {slice : Json} {job : Runner.Job} (hp : t.phase = .working slice job) :
      t.post? = job.post? := by rw [CallTask.post?, hp]
  have hrecovering {slice : Json} {script : Script (Except RunError Json)}
      (hp : t.phase = .recovering slice script) : t.post? = script.post? := by
    rw [CallTask.post?, hp]
  have hsucceeding {slice : Json} {result : Entry.Result} {script : Script (Except RunError Unit)}
      (hp : t.phase = .succeeding slice result script) : t.post? = script.post? := by
    rw [CallTask.post?, hp]
  cases h with
  | works hp hturn hsends _ => exact hposted (hworking hp) hsends hturn.posts_of_moves
  | recovers hp hs hsends _ => exact hposted (hrecovering hp) hsends (Script.posts_of_moved hs)
  | follows hp hs hsends _ => exact hposted (hsucceeding hp) hsends (Script.posts_of_moved hs)
  | succeeds hp hturn => exact hnone (hworking hp) hturn.post?_of_ends rfl
  | fails hp hturn => exact hnone (hworking hp) hturn.post?_of_ends rfl
  | crashes hp hturn _ => exact hnone (hworking hp) hturn.post?_of_crashes rfl
  | recovered hp hs => exact hnone (hrecovering hp) (Script.post?_of_finished hs) rfl
  | recoveryBreaks hp hs _ => exact hnone (hrecovering hp) (Script.post?_of_crashed hs) rfl
  | finishes hp hs => exact hnone (hsucceeding hp) (Script.post?_of_finished hs) rfl
  | followBreaks hp hs _ => exact hnone (hsucceeding hp) (Script.post?_of_crashed hs) rfl
  | enters hp _ => exact hnone (hworking hp) rfl rfl
  | queues hp _ => exact hnone (hworking hp) rfl rfl
  | begins hp _ => exact hnone (hworking hp) rfl rfl
  | rejects hp _ => exact hnone (by rw [CallTask.post?, hp]) rfl rfl
  | fills hp _ _ _ => exact hnone (by rw [CallTask.post?, hp]) rfl rfl
  | prepares hp _ => exact hnone (by rw [CallTask.post?, hp]) rfl rfl
  | loads hp => exact hnone (by rw [CallTask.post?, hp]) rfl rfl
  | concludes hp _ _ _ => exact hnone (by rw [CallTask.post?, hp]) rfl rfl
  | concludesError hp _ _ _ => exact hnone (by rw [CallTask.post?, hp]) rfl rfl

/-- The events that a step sends are those that its script posts. -/
theorem Conduct.events (h : Conduct i r t t' sent r') :
    List.Forall₂ Post.IsCommittedAs (t.post?.toList.filter Post.isEvent)
      (sent.filterMap Message.event?) := by
  have hall : (fun m : Message => if m.isPush = true then m.event? else none) = Message.event? := by
    funext m
    cases m <;> rfl
  have hevents := events_of_posts h.pushes
  rwa [List.filterMap_filter, hall] at hevents

end Run

end TagLedger
