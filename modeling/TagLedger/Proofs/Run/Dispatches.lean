import Mathlib.Tactic.Common
import TagLedger.Proofs.Run.Outcomes
import TagLedger.Proofs.Run.Posts
import TagLedger.Proofs.Run.Senders
import TagLedger.Proofs.Run.Settling

/-!
Calls that hooks dispatch. In a cancelled run only hooks begin; if neither they nor the scripts that
run already post calls, then no more calls are dispatched than messages are there to bring them. But
if the hook after a failure posts another call, whatever its action, then there is no end to them.
-/

namespace TagLedger

def Script.PostsNoCalls {α : Type} : Script α → Prop
  | .done _ => True
  | .crash => True
  | .sleep _ next => next.PostsNoCalls
  | .sleepUntil _ next => next.PostsNoCalls
  | .awaitCancel next => next.PostsNoCalls
  | .readMemory next => ∀ v, (next v).PostsNoCalls
  | .writeMemory _ next => next.PostsNoCalls
  | .post p next => p.IsNoCall ∧ next.PostsNoCalls
  | .cancel next => next.PostsNoCalls
  | .isCancelled next => ∀ b, (next b).PostsNoCalls

namespace Script.PostsNoCalls

variable {α : Type} {s s' : Script α} {p : Post}

theorem of_moved {scene scene' : Scene} (h : s.PostsNoCalls)
    (hs : s.step scene = .moved s' scene') : s'.PostsNoCalls := by
  cases moves_of_step hs with
  | readMemory => exact h _
  | isCancelled => exact h _
  | post => exact h.2
  | _ => exact h

theorem isNoCall (h : s.PostsNoCalls) (hp : s.post? = some p) : p.IsNoCall := by
  cases s with
  | post p next =>
    cases hp
    exact h.1
  | _ => cases hp

end Script.PostsNoCalls

structure Action.HooksPostNoCalls (a : Action) : Prop where
  onError : ∀ err view, (a.onError err view).PostsNoCalls
  onSuccess : ∀ result view, (a.onSuccess result view).PostsNoCalls

def Phase.PostsNoCalls : Phase → Prop
  | .working _ (.attempting _ script) => script.PostsNoCalls
  | .recovering _ script => script.PostsNoCalls
  | .succeeding _ _ script => script.PostsNoCalls
  | _ => True

/-- Between two scripts there is nothing that would have to return, and nothing that posts. -/
theorem Phase.idle_of_stage {p : Phase} (h : p.stage ≠ 1 ∧ p.stage ≠ 3 ∧ p.stage ≠ 5)
    (cancelled : Bool) : p.Returns cancelled ∧ p.PostsNoCalls := by
  cases p with
  | working slice job =>
    cases job with
    | attempting n script => exact absurd rfl h.2.2
    | _ => exact ⟨trivial, trivial⟩
  | recovering slice script => exact absurd rfl h.2.1
  | succeeding slice result script => exact absurd rfl h.1
  | _ => exact ⟨trivial, trivial⟩

namespace Run

variable {i : Nat} {t t' : CallTask} {sent : List Message} {r r' : Run} {m : Message}

theorem Conduct.postsNoCalls (h : Conduct i r t t' sent r') (hc : r.cancelled = true)
    (ha : t.action.action.HooksPostNoCalls) (hp : t.phase.PostsNoCalls) :
    t'.phase.PostsNoCalls := by
  cases h with
  | begins _ hnot => cases hnot.symm.trans hc
  | @works slice job job' scene _ hphase hturn _ _ =>
    rw [hphase] at hp
    cases hturn with
    | attempts hs =>
      have hscript : Script.PostsNoCalls _ := hp
      exact hscript.of_moved hs
    | _ => trivial
  | fails _ _ => exact ha.onError _ _
  | @recovers _ _ _ _ _ hphase hs _ _ =>
    rw [hphase] at hp
    have hscript : Script.PostsNoCalls _ := hp
    exact hscript.of_moved hs
  | concludes _ _ _ => exact ha.onSuccess _ _
  | @follows _ _ _ _ _ _ hphase hs _ _ =>
    rw [hphase] at hp
    have hscript : Script.PostsNoCalls _ := hp
    exact hscript.of_moved hs
  | _ => trivial

theorem isNoCall_of_post? {p : Post} (h : t.phase.PostsNoCalls) (hp : t.post? = some p) :
    p.IsNoCall := by
  unfold CallTask.post? at hp
  cases hphase : t.phase with
  | working slice job =>
    rw [hphase] at h hp
    cases job with
    | attempting n script => exact Script.PostsNoCalls.isNoCall h hp
    | _ => cases hp
  | recovering slice script =>
    rw [hphase] at h hp
    exact Script.PostsNoCalls.isNoCall h hp
  | succeeding slice result script =>
    rw [hphase] at h hp
    exact Script.PostsNoCalls.isNoCall h hp
  | _ =>
    rw [hphase] at hp
    cases hp

/-- A step sends calls only if the script that runs posts them. -/
theorem Conduct.call?_eq_none (h : Conduct i r t t' sent r') (hp : t.phase.PostsNoCalls)
    (hm : m ∈ sent) : m.call? = none := by
  cases hpush : m.isPush with
  | false =>
    cases m with
    | push e => cases hpush
    | _ => rfl
  | true =>
    have hpushes := h.pushes
    cases hpost : t.post? with
    | none =>
      rw [hpost] at hpushes
      have hnone := List.forall₂_nil_left_iff.mp hpushes
      have hmem := List.mem_filter.mpr ⟨hm, hpush⟩
      rw [hnone] at hmem
      cases hmem
    | some p =>
      rw [hpost] at hpushes
      obtain ⟨x, xs, hx, hxs, hsent⟩ := List.forall₂_cons_left_iff.mp hpushes
      have hmem := List.mem_filter.mpr ⟨hm, hpush⟩
      rw [hsent, List.forall₂_nil_left_iff.mp hxs, List.mem_singleton] at hmem
      exact hmem ▸ hx.call?_eq (isNoCall_of_post? hp hpost)

def callsComing (r : Run) : Nat := r.inbox.countP (·.call?.isSome)

theorem Enlists.call?_of_more {q : Run} {c : Entry.Call}
    (haccepted : ∀ h, acceptedCalls (h ++ [(q, m)]) = acceptedCalls h ++ [(q, c)]) :
    m.call?.isSome = true := by
  by_contra hnone
  have hsame := acceptedCalls_concat_of_none [] q (by simpa using hnone : m.call? = none)
  rw [haccepted] at hsame
  simp at hsame

/-- A turn adds a task only for a call that is there already. -/
theorem Turns.noCalls (h : Turns r r') (hc : r.cancelled = true)
    (ha : ∀ t ∈ r.tasks, t.action.action.HooksPostNoCalls)
    (hp : ∀ t ∈ r.tasks, t.phase.PostsNoCalls) :
    (∀ t ∈ r'.tasks, t.phase.PostsNoCalls) ∧
      r'.tasks.length + r'.callsComing ≤ r.tasks.length + r.callsComing := by
  cases h with
  | takes hinbox hm =>
    rw [callsComing, callsComing, hm.inbox, hinbox, List.countP_cons]
    cases hm.enlists with
    | same _ htasks =>
      have htasks : r'.tasks = r.tasks := htasks
      rw [htasks]
      exact ⟨hp, Nat.add_le_add_left (Nat.le_add_right _ _) _⟩
    | more haccepted _ htasks =>
      rw [htasks, List.length_append, Enlists.call?_of_more haccepted]
      refine ⟨fun t ht => ?_, ?_⟩
      · rcases List.mem_append.mp ht with ht | ht
        · exact hp t ht
        · rw [List.mem_singleton.mp ht]
          trivial
      · simp only [wait, List.length_singleton, ↓reduceIte]
        omega
  | @steps ms i t t' sent ht hconduct =>
    have hsteps := hconduct.steps (r := r.wait ms) ht
    have hmem := List.mem_of_getElem? ht
    refine ⟨fun u hu => ?_, ?_⟩
    · rcases hsteps.mem_cases hu with rfl | ⟨v, hv, hkept⟩
      · exact hconduct.postsNoCalls hc (ha t hmem) (hp t hmem)
      · cases hkept with
        | same => exact hp u hv
        | admitted _ => trivial
    · have hnone : sent.countP (·.call?.isSome) = 0 := List.countP_eq_zero.mpr fun m hm => by
        simp [hconduct.call?_eq_none (hp t hmem) hm]
      rw [hsteps.length_eq, callsComing, hsteps.inbox, List.countP_append, hnone]
      exact Nat.le_refl _

/-- So the calls that can still be dispatched in a cancelled run are those that are on their way. -/
theorem dispatchesFinitely_of_noCalls {setup : Setup} {store : Store} {archive : Archive}
    {subscribers : Subscribers} {ms : List Move}
    (hr : r = (new setup store archive subscribers).applyAll ms) (hc : r.cancelled = true)
    (hstream : r.stream = none) (hhooks : ∀ a ∈ setup.catalog.actions, a.HooksPostNoCalls)
    (hscripts : ∀ t ∈ r.tasks, t.phase.PostsNoCalls) : DispatchesFinitely r := by
  intro f hzero hf
  refine ⟨r.tasks.length + r.callsComing, fun n => ?_⟩
  suffices h : (∀ t ∈ (f n).tasks, t.phase.PostsNoCalls) ∧
      (f n).tasks.length + (f n).callsComing ≤ r.tasks.length + r.callsComing by
    exact Nat.le_of_add_right_le h.2
  induction n with
  | zero => exact ⟨hzero ▸ hscripts, hzero ▸ Nat.le_refl _⟩
  | succ n ih =>
    obtain ⟨hsame, before, hbefore⟩ := exists_applyAll_of_proceeds hf n
    rw [hzero] at hsame hbefore
    have hcancelled : (f n).cancelled = true := hbefore ▸ cancelled_applyAll hc before
    have hbound := (bound_applyAll_new setup store archive subscribers (ms ++ before)).1
    rw [applyAll_append, ← hr, ← hbefore] at hbound
    have hsetup : (f n).setup = setup := by
      rw [hbefore, hr, ← applyAll_append]
      exact ((new setup store archive subscribers).applyAll_grows _).setup
    have hturns := (hf n).turns (hsame.trans hstream)
    have hactions : ∀ t ∈ (f n).tasks, t.action.action.HooksPostNoCalls := fun t ht =>
      hhooks _ (hsetup ▸ hbound.tasks t ht)
    obtain ⟨hphases, hle⟩ := hturns.noCalls hcancelled hactions ih.1
    exact ⟨hphases, hle.trans ih.2⟩

end Run

/-- Whatever action fails, its hook first posts that entry, a call that asks for nothing; and every
payload is valid. -/
structure Redispatches (actions : List BoundAction) (e : Entry) : Prop where
  accepted : ∃ c p, e.finished = .call c ∧ PreparedCall.ofCall actions c = .ok p ∧ p.templates = []
  valid : ∀ b ∈ actions, ∀ call payload err,
    PreparedCall.validated b.action call payload ≠ .error err
  posts : ∀ b ∈ actions, ∀ err view, ∃ next, b.action.onError err view = .post (.entry e) next

/-- In a cancelled run a task in this phase will post the entry. -/
inductive Phase.WillPost (e : Entry) : Phase → Prop where
  | resolving {payload : Json} : WillPost e (.resolving payload [])
  | loading : WillPost e .loading
  | asking {slice : Json} : WillPost e (.working slice .asking)
  | queued {slice : Json} : WillPost e (.working slice .queued)
  | admitted {slice : Json} {n : Nat} : WillPost e (.working slice (.admitted n))
  | recovering {slice : Json} {next : Script (Except RunError Json)} :
    WillPost e (.recovering slice (.post (.entry e) next))

theorem Phase.WillPost.isOver_eq {t : CallTask} {e : Entry} (h : t.phase.WillPost e) :
    t.isOver = false := by
  unfold CallTask.isOver
  generalize t.phase = p at h
  cases h <;> rfl

namespace Run

variable {i : Nat} {t t' : CallTask} {sent : List Message} {r r' : Run} {m : Message}
  {actions : List BoundAction} {e : Entry}

theorem Conduct.exists_isEnd (h : Conduct i r t t' sent r') (hover : t'.isOver = true) :
    ∃ m ∈ sent, m.isEnd = true := by
  cases h with
  | rejects _ _ => exact ⟨_, List.mem_singleton_self _, rfl⟩
  | crashes _ _ _ => exact ⟨_, List.mem_singleton_self _, rfl⟩
  | recoveryBreaks _ _ _ => exact ⟨_, List.mem_singleton_self _, rfl⟩
  | concludesError _ _ _ _ => exact ⟨_, List.mem_singleton_self _, rfl⟩
  | finishes _ _ => exact ⟨_, List.mem_singleton_self _, rfl⟩
  | followBreaks _ _ _ => exact ⟨_, List.mem_singleton_self _, rfl⟩
  | _ => cases hover

/-- A task that will post the entry goes on to do so, or posts it. -/
theorem Conduct.willPost (hd : Redispatches actions e) (h : Conduct i r t t' sent r')
    (hc : r.cancelled = true) (ha : t.action ∈ actions) (hp : t.phase.WillPost e) :
    t'.phase.WillPost e ∨ t'.isOver = false ∧ .push e ∈ sent := by
  have hpushes := h.pushes
  cases h with
  | rejects hphase hrejects =>
    rw [hphase] at hp
    cases hp
    cases hrejects with
    | invalid hinvalid => exact absurd hinvalid (hd.valid _ ha _ _ _)
  | prepares _ _ => exact .inl .loading
  | loads _ => exact .inl .asking
  | enters _ _ => exact .inl .admitted
  | queues _ _ => exact .inl .queued
  | begins _ hnot => cases hnot.symm.trans hc
  | @fails slice _ err _ _ =>
    obtain ⟨next, hnext⟩ := hd.posts _ ha err t.view
    exact .inl (hnext ▸ .recovering)
  | recovers hphase _ _ _ =>
    rw [hphase] at hp
    cases hp
    refine .inr ⟨rfl, ?_⟩
    rw [CallTask.post?, hphase] at hpushes
    obtain ⟨m, ms, hm, _, hsent⟩ := List.forall₂_cons_left_iff.mp hpushes
    obtain rfl : m = .push e := hm
    exact (List.mem_filter.mp (hsent ▸ List.mem_cons_self)).1
  | works hphase hturn _ _ | succeeds hphase hturn | crashes hphase hturn _ =>
    rw [hphase] at hp
    cases hp <;> cases hturn
  | recovered hphase hs | recoveryBreaks hphase hs _ =>
    -- A script that begins with a post is not at its end.
    rw [hphase] at hp
    cases hp
    cases hs
  | fills hphase _ _ _ | concludes hphase _ _ _ | concludesError hphase _ _ _
  | follows hphase _ _ _ | finishes hphase _ | followBreaks hphase _ _ =>
    rw [hphase] at hp
    cases hp

inductive Coming (actions : List BoundAction) (e : Entry) (r : Run) : Prop where
  | willPost {i : Nat} {t : CallTask} (ht : r.tasks[i]? = some t) (ha : t.action ∈ actions)
    (hp : t.phase.WillPost e)
  | posted (before after : List Message) (hinbox : r.inbox = before ++ .push e :: after)
    (h : (∃ t ∈ r.tasks, t.isOver = false) ∨ ∃ m ∈ after, m.isEnd = true)

theorem Coming.inFlight_pos (h : Coming actions e r) (hc : Counted r) : 0 < r.ledger.inFlight := by
  have htask (h : ∃ t ∈ r.tasks, t.isOver = false) :
      0 < r.tasks.countP (fun t => !t.isOver) := by
    obtain ⟨t, ht, hover⟩ := h
    exact List.countP_pos_iff.mpr ⟨t, ht, by simp [hover]⟩
  rw [hc]
  cases h with
  | willPost ht _ hp =>
    exact Nat.add_pos_left (htask ⟨_, List.mem_of_getElem? ht, hp.isOver_eq⟩) _
  | posted _ _ hinbox h =>
    rcases h with h | ⟨m, hm, hend⟩
    · exact Nat.add_pos_left (htask h) _
    · refine Nat.add_pos_right _ (List.countP_pos_iff.mpr ⟨m, ?_, hend⟩)
      rw [hinbox]
      exact List.mem_append_right _ (List.mem_cons_of_mem _ hm)

/-- The entry is dispatched, and will be posted again. -/
theorem Coming.takes (hd : Redispatches actions e) {q : Run} (hactions : q.ledger.actions = actions)
    (hc : Coming actions e { q with inbox := m :: q.inbox }) (hm : Reception q m r') :
    Coming actions e r' := by
  obtain ⟨new, htasks, hnew⟩ := hm.tasks_append
  cases hc with
  | @willPost i t ht ha hp =>
    have hlt := (List.getElem?_eq_some_iff.mp ht).1
    exact .willPost (by rw [htasks, List.getElem?_append_left hlt, ht]) ha hp
  | posted before after hinbox h =>
    cases before with
    | cons m' before =>
      obtain ⟨rfl, hrest⟩ := List.cons.inj hinbox
      refine .posted _ _ (hm.inbox.trans hrest) (h.imp_left ?_)
      rintro ⟨t, ht, hover⟩
      exact ⟨t, htasks ▸ List.mem_append_left _ ht, hover⟩
    | nil =>
      obtain ⟨rfl, hrest⟩ := List.cons.inj hinbox
      obtain ⟨c, p, he, hp, htemplates⟩ := hd.accepted
      have hp' : PreparedCall.ofCall q.ledger.actions c = .ok p := hactions ▸ hp
      cases hm.enlists with
      | same haccepted _ =>
        have hsame := haccepted []
        rw [acceptedCalls_concat_accepted [] he hp'] at hsame
        simp at hsame
      | @more c' p' context memory haccepted hready htasks' =>
        have hone := haccepted []
        rw [acceptedCalls_concat_accepted [] he hp', List.append_cancel_left_eq] at hone
        cases hone
        obtain rfl := Except.ok.inj (hready.symm.trans hp')
        refine .willPost (i := q.tasks.length) (by rw [htasks', List.getElem?_concat_length]) ?_ ?_
        · exact hactions ▸ PreparedCall.mem_of_ofCall hp'
        · rw [htemplates]
          exact .resolving

theorem Coming.steps (hd : Redispatches actions e) (hc : r.cancelled = true)
    (hcoming : Coming actions e r) (ht : r.tasks[i]? = some t) (h : Conduct i r t t' sent r') :
    Coming actions e r' := by
  have hsteps := h.steps ht
  cases hcoming with
  | @willPost k u hu ha hp =>
    by_cases hk : k = i
    · subst hk
      obtain rfl := Option.some.inj (ht.symm.trans hu)
      rcases h.willPost hd hc ha hp with hp' | ⟨hover, hpush⟩
      · exact .willPost hsteps.after (h.task_follows.action ▸ ha) hp'
      · obtain ⟨before, after, hsplit⟩ := List.append_of_mem hpush
        refine .posted (r.inbox ++ before) after ?_
          (.inl ⟨t', List.mem_of_getElem? hsteps.after, hover⟩)
        rw [hsteps.inbox, hsplit, List.append_assoc]
    · obtain ⟨v, hv, hkept⟩ := hsteps.exists_later hk hu
      cases hkept with
      | same => exact .willPost hv ha hp
      | admitted _ => exact .willPost hv ha .admitted
  | posted before after hinbox hwaits =>
    refine .posted before (after ++ sent) ?_ ?_
    · rw [hsteps.inbox, hinbox, List.append_assoc, List.cons_append]
    · rcases hwaits with ⟨u, hu, hover⟩ | ⟨m, hm, hend⟩
      · obtain ⟨k, hu⟩ := List.mem_iff_getElem?.mp hu
        by_cases hk : k = i
        · cases hover' : t'.isOver with
          | false => exact .inl ⟨t', List.mem_of_getElem? hsteps.after, hover'⟩
          | true =>
            obtain ⟨m, hm, hend⟩ := h.exists_isEnd hover'
            exact .inr ⟨m, List.mem_append_right _ hm, hend⟩
        · obtain ⟨v, hv, hkept⟩ := hsteps.exists_later hk hu
          exact .inl ⟨v, List.mem_of_getElem? hv, hkept.isOver_eq.2.trans hover⟩
      · exact .inr ⟨m, List.mem_append_left _ hm, hend⟩

theorem Turns.coming (hd : Redispatches actions e) (h : Turns r r') (hc : r.cancelled = true)
    (hactions : r.ledger.actions = actions) (hcoming : Coming actions e r) :
    r'.ledger.actions = actions ∧ Coming actions e r' := by
  cases h with
  | @takes ms m rest hinbox hm =>
    refine ⟨hm.bound.2.trans hactions,
      Coming.takes (q := { r.wait ms with inbox := rest }) hd hactions ?_ hm⟩
    cases hcoming with
    | willPost ht ha hp => exact .willPost ht ha hp
    | posted before after hsplit h =>
      exact .posted before after (hinbox.symm.trans hsplit) h
  | @steps ms i t t' sent ht hconduct =>
    have hwaiting : Coming actions e (r.wait ms) := by
      cases hcoming with
      | willPost ht ha hp => exact .willPost ht ha hp
      | posted before after hsplit h => exact .posted before after hsplit h
    have ht : (r.wait ms).tasks[i]? = some t := ht
    have hledger : r'.ledger = r.ledger := (hconduct.steps ht).ledger
    exact ⟨hledger ▸ hactions, Coming.steps (r := r.wait ms) hd hc hwaiting ht hconduct⟩

/-- However long turns are taken, a call is in flight. -/
theorem inFlight_pos_of_redispatches {setup : Setup} {store : Store} {archive : Archive}
    {subscribers : Subscribers} {ms : List Move}
    (hr : r = (new setup store archive subscribers).applyAll ms) (hc : r.cancelled = true)
    (hstream : r.stream = none) (hd : Redispatches r.ledger.actions e)
    (hcoming : Coming r.ledger.actions e r) (h : Relation.ReflTransGen Proceeds r r') :
    0 < r'.ledger.inFlight := by
  suffices h : ∃ ms', r' = r.applyAll ms' ∧ r'.stream = none ∧
      r'.ledger.actions = r.ledger.actions ∧ Coming r.ledger.actions e r' by
    obtain ⟨ms', hr', _, _, hcoming⟩ := h
    refine hcoming.inFlight_pos ?_
    rw [hr', hr, ← applyAll_append]
    exact counted_applyAll_new setup store archive subscribers _
  induction h with
  | refl => exact ⟨[], rfl, hstream, rfl, hcoming⟩
  | tail _ hq ih =>
    obtain ⟨before, rfl, hstream, hactions, hcoming⟩ := ih
    obtain ⟨hactions, hcoming⟩ :=
      (hq.turns hstream).coming hd (cancelled_applyAll hc before) hactions hcoming
    obtain ⟨after, rfl⟩ := hq.exists_applyAll
    exact ⟨before ++ after, (applyAll_append r before after).symm, hq.stream.trans hstream,
      hactions, hcoming⟩

end Run

end TagLedger
