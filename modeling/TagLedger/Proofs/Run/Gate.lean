import Mathlib.Tactic.Common
import TagLedger.Proofs.Call.Verdict
import TagLedger.Proofs.Run.Handling
import TagLedger.Proofs.Run.Roster

/-!
The gate before an action. As long as the templates of a call are being replaced, what is left to do
leads to the same verdict as the payload that the call came with; a task that is past the gate has
the data of the verdict, for good, and one that was rejected has none.
-/

namespace TagLedger

/-- How a task stands to the verdict on its call. -/
inductive CallTask.Gated (p : PreparedCall) (c : Entry.Call) (s : Sources) (t : CallTask) : Prop
    where
  /-- What is left to do leads to the same payload. -/
  | undecided {payload : Json} {todo : List Template} (hp : t.phase = .resolving payload todo)
    (hc : t.call = c) (hrest : ∀ s' : Sources, s.Grows s' →
      s'.complete c.name p.payload p.templates = s'.complete c.name payload todo)
  | passed {data : Json} (hp : t.phase.isResolving = false)
    (hv : p.verdict c s = some (.ok data)) (hc : t.call = { c with data := some data })
  | rejected {err : RunError} (hp : t.phase = .ended) (hv : p.verdict c s = some (.error err))
    (hc : t.call = c)

namespace CallTask.Gated

variable {p : PreparedCall} {c : Entry.Call} {s s' : Sources} {t t' : CallTask}

theorem grows (h : t.Gated p c s) (hs : s.Grows s') : t.Gated p c s' := by
  cases h with
  | undecided hp hc hrest => exact .undecided hp hc fun s'' h => hrest s'' (hs.trans h)
  | passed hp hv hc => exact .passed hp (PreparedCall.verdict_grows hs hv) hc
  | rejected hp hv hc => exact .rejected hp (PreparedCall.verdict_grows hs hv) hc

theorem kept (h : t.Gated p c s) (hk : t.Kept t') : t'.Gated p c s := by
  cases hk with
  | same => exact h
  | admitted hphase =>
    cases h with
    | undecided hp hc hrest =>
      rw [hphase] at hp
      cases hp
    | passed hp hv hc => exact .passed rfl hv hc
    | rejected hp hv hc =>
      rw [hphase] at hp
      cases hp

/-- What is left to do tells the verdict. -/
theorem verdict_eq (h : t.Gated p c s) {payload : Json} {todo : List Template}
    (hp : t.phase = .resolving payload todo) :
    t.call = c ∧ p.verdict c s = (s.complete c.name payload todo).map fun x =>
      x.bind (PreparedCall.validated p.action.action c) := by
  cases h with
  | undecided hp' hc hrest =>
    obtain ⟨rfl, rfl⟩ := Phase.resolving.inj (hp'.symm.trans hp)
    exact ⟨hc, by rw [PreparedCall.verdict, hrest s (.refl s)]⟩
  | passed hresolving _ _ =>
    rw [hp] at hresolving
    cases hresolving
  | rejected hended _ _ => cases hp.symm.trans hended

/-- A task that works, or has worked, is past the gate. -/
theorem passed_of_phase (h : t.Gated p c s) (hresolving : t.phase.isResolving = false)
    (hover : t.isOver = false) :
    ∃ data, p.verdict c s = some (.ok data) ∧ t.call = { c with data := some data } := by
  cases h with
  | undecided hp hc hrest =>
    rw [hp] at hresolving
    cases hresolving
  | passed hp hv hc => exact ⟨_, hv, hc⟩
  | rejected hp hv hc => simp [CallTask.isOver, hp] at hover

end CallTask.Gated

namespace Run

variable {i : Nat} {t t' : CallTask} {sent : List Message} {r r' q : Run} {m : Message}
  {h : List (Run × Message)} {p : PreparedCall} {c : Entry.Call}

/-- Past the gate the call of a task does not change. -/
theorem Conduct.passes (hconduct : Conduct i r t t' sent r') (hp : t.phase.isResolving = false) :
    t'.phase.isResolving = false ∧ t'.call = t.call := by
  cases hconduct with
  | rejects hphase _ =>
    rw [hphase] at hp
    cases hp
  | fills hphase _ _ _ =>
    rw [hphase] at hp
    cases hp
  | prepares hphase _ =>
    rw [hphase] at hp
    cases hp
  | _ => exact ⟨rfl, rfl⟩

/-- The task in place `k` is past the gate, with the call `c`. -/
def PastGate (k : Nat) (c : Entry.Call) (r : Run) : Prop :=
  ∃ t, r.tasks[k]? = some t ∧ t.phase.isResolving = false ∧ t.call = c

/-- A task that is past the gate stays there with its call. -/
theorem PastGate.applyAll {k : Nat} (h : PastGate k c r) (ms : List Move) :
    PastGate k c (r.applyAll ms) := by
  refine applyAll_keeps (I := fun _ q => PastGate k c q) (g := []) ?_ ?_ ?_ ?_ h ms
  · rintro _ q q' ⟨t, ht, hpast⟩ hq
    exact ⟨t, hq.tasks ▸ ht, hpast⟩
  · rintro _ q e q' ⟨t, ht, hpast⟩ hm
    exact ⟨t, hm.getElem?_tasks ht, hpast⟩
  · rintro _ q m rest q' ⟨t, ht, hpast⟩ _ hm
    exact ⟨t, hm.getElem?_tasks ht, hpast⟩
  · rintro _ q i q' ⟨t, ht, hp, hc⟩ hs
    obtain ⟨u, u', sent, hu, hconduct⟩ := stepTask?_conduct hs
    have hsteps := hconduct.steps hu
    by_cases hk : k = i
    · subst hk
      obtain rfl : t = u := Option.some.inj (ht.symm.trans hu)
      obtain ⟨hp', hc'⟩ := hconduct.passes hp
      exact ⟨u', hsteps.after, hp', hc'.trans hc⟩
    · have hrel := hsteps.others k hk
      rw [ht] at hrel
      generalize hafter : q'.tasks[k]? = after at hrel
      cases hrel with
      | @some _ t' hkept =>
        refine ⟨t', hafter, ?_, hkept.isOver_eq.1.trans hc⟩
        cases hkept with
        | same => exact hp
        | admitted _ => rfl

theorem Steps.sources_eq (hsteps : Steps i t t' sent r r') (hslot : t'.slot = t.slot) :
    r'.sources t' = r.sources t := by
  simp only [sources, contexts, hsteps.ledger, hsteps.setup, hslot]

theorem Rejects.verdict {payload : Json} {todo : List Template} {err : RunError}
    (hp : t.phase = .resolving payload todo) (ha : t.action = p.action)
    (hg : t.Gated p c (r.sources t)) (h : Rejects t (r.sources t) payload todo err) :
    p.verdict c (r.sources t) = some (.error err) := by
  obtain ⟨hc, hv⟩ := hg.verdict_eq hp
  rw [hv, ← hc, ← ha]
  exact h.complete

theorem verdict_of_validated {payload data : Json} (hp : t.phase = .resolving payload [])
    (ha : t.action = p.action) (hg : t.Gated p c (r.sources t))
    (h : PreparedCall.validated t.action.action t.call payload = .ok data) :
    p.verdict c (r.sources t) = some (.ok data) := by
  obtain ⟨hc, hv⟩ := hg.verdict_eq hp
  rw [hv, ← hc, ← ha]
  exact congrArg some h

/-- A step takes a task through the gate, or turns it away there, as the verdict says. -/
theorem Conduct.gated (hconduct : Conduct i r t t' sent r') (ha : t.action = p.action)
    (hg : t.Gated p c (r.sources t)) : t'.Gated p c (r.sources t) := by
  cases hg with
  | passed hp hv hc =>
    obtain ⟨hp', hcall⟩ := hconduct.passes hp
    exact .passed hp' hv (hcall.trans hc)
  | rejected hp hv hc =>
    have hover := hconduct.isOver_eq
    simp [CallTask.isOver, hp] at hover
  | undecided hp hc hrest =>
    have hg : t.Gated p c (r.sources t) := .undecided hp hc hrest
    cases hconduct with
    | rejects hphase hrejects => exact .rejected rfl (hrejects.verdict hphase ha hg) hc
    | fills hphase hkey hask hfill =>
      obtain ⟨rfl, rfl⟩ := Phase.resolving.inj (hp.symm.trans hphase)
      refine .undecided rfl hc fun s' hs' => ?_
      rw [hrest s' hs', Sources.complete_cons hkey (Sources.ask_grows hs' hask) hfill]
    | prepares hphase hdata =>
      exact .passed rfl (verdict_of_validated hphase ha hg hdata) (by rw [hc])
    | _ => cases hp.symm.trans ‹t.phase = _›

structure Gate (h : List (Run × Message)) (r : Run) : Prop extends Roster h r where
  gated : ∀ (k : Nat) x t p, (acceptedCalls h)[k]? = some x → r.tasks[k]? = some t →
    PreparedCall.ofCall x.1.ledger.actions x.2 = .ok p → t.Gated p x.2 (r.sources t)

namespace Gate

theorem sources_grows (hg : Roster h r) (hgrows : Grows r r') {k : Nat} {x : Run × Entry.Call}
    (hx : (acceptedCalls h)[k]? = some x) (ht : r.tasks[k]? = some t) :
    (r.sources t).Grows (r'.sources t) := by
  refine hgrows.sources (.refl t) ?_
  rw [(hg.serves k x t hx ht).slot, hg.length_slots]
  obtain ⟨hlt, _⟩ := List.getElem?_eq_some_iff.mp hx
  exact Nat.le_of_lt hlt

/-- A change that starts no tasks and leaves the present ones as they are. -/
theorem grows (hg : Gate h r) {h' : List (Run × Message)} (hr : Roster h' r')
    (haccepted : acceptedCalls h' = acceptedCalls h) (hgrows : Grows r r')
    (ht : r'.tasks = r.tasks) : Gate h' r' where
  toRoster := hr
  gated := fun k x t p hx htask hp => by
    rw [haccepted] at hx
    rw [ht] at htask
    exact (hg.gated k x t p hx htask hp).grows (sources_grows hg.toRoster hgrows hx htask)

theorem quiet (hg : Gate h r) (hq : Quiet r r') : Gate h r' :=
  hg.grows (hg.toRoster.quiet hq) rfl (.quiet hq) hq.tasks

theorem reception (hg : Gate h q) (hm : Reception q m r') : Gate (h ++ [(q, m)]) r' := by
  have hroster := hg.toRoster.reception hm
  have hgrows := Grows.reception hm
  cases hm.enlists with
  | same haccepted htasks => exact hg.grows hroster (haccepted h) hgrows htasks
  | more haccepted hp htasks =>
    refine ⟨hroster, fun k x t p' hx ht hp' => ?_⟩
    rw [haccepted] at hx
    rw [htasks] at ht
    rcases getElem?_concat ht with ht | ⟨hk, rfl⟩
    · obtain ⟨hlt, _⟩ := List.getElem?_eq_some_iff.mp ht
      rw [hg.tasks] at hlt
      rw [List.getElem?_append_left hlt] at hx
      exact (hg.gated k x t p' hx ht hp').grows (sources_grows hg.toRoster hgrows hx ht)
    · rw [hk, hg.tasks, List.getElem?_concat_length] at hx
      obtain rfl := Option.some.inj hx
      obtain rfl := Except.ok.inj (hp.symm.trans hp')
      exact .undecided rfl rfl fun _ _ => rfl

theorem steps (hg : Gate h r) (hs : r.stepTask? i = some r') : Gate h r' := by
  obtain ⟨t, t', sent, ht, hconduct⟩ := stepTask?_conduct hs
  have hsteps := hconduct.steps ht
  refine ⟨hg.toRoster.steps hs, fun k x u p hx hu hp => ?_⟩
  by_cases hk : k = i
  · subst hk
    obtain rfl : t' = u := Option.some.inj (hsteps.after.symm.trans hu)
    obtain ⟨p', hp', ha⟩ := (hg.serves k x t hx ht).prepared
    obtain rfl := Except.ok.inj (hp.symm.trans hp')
    rw [hsteps.sources_eq hconduct.task_follows.slot]
    exact hconduct.gated ha (hg.gated k x t p hx ht hp)
  · obtain ⟨v, hv, hkept⟩ := hsteps.exists_kept hk hu
    have hsources : r'.sources u = r.sources v := by
      simp only [sources, contexts, hsteps.ledger, hsteps.setup, hkept.follows.slot]
    rw [hsources]
    exact (hg.gated k x v p hx hv hp).kept hkept

theorem applyAll (hg : Gate h r) (ms : List Move) : Gate (h ++ history ms r) (r.applyAll ms) := by
  refine applyAll_keeps (I := Gate) ?_ ?_ ?_ ?_ hg ms
  · exact fun hg hq => hg.quiet hq
  · exact fun hg hm => hg.reception hm
  · intro g q m rest _ hg _ hm
    have htaken : Gate g { q with inbox := rest } :=
      hg.grows (hg.toRoster.congr rfl rfl rfl) rfl (.of_eq rfl rfl rfl) rfl
    exact htaken.reception hm
  · exact fun hg hs => hg.steps hs

theorem new (setup : Setup) (store : Store) (archive : Archive) (subscribers : Subscribers) :
    Gate [] (new setup store archive subscribers) where
  toRoster := .new setup store archive subscribers
  gated := by simp [acceptedCalls, routedCalls]

/-- Of every task it is known which call it serves, and how it stands to the verdict on it. -/
theorem exists_gated (hg : Gate h r) {k : Nat} (ht : r.tasks[k]? = some t) :
    ∃ x p, (acceptedCalls h)[k]? = some x ∧ t.Serves k x ∧
      PreparedCall.ofCall x.1.ledger.actions x.2 = .ok p ∧ t.action = p.action ∧
      t.Gated p x.2 (r.sources t) := by
  obtain ⟨x, _, hx, _, hserves, _⟩ := hg.toRoster.exists_served ht
  obtain ⟨p, hp, ha⟩ := hserves.prepared
  exact ⟨x, p, hx, hserves, hp, ha, hg.gated k x t p hx ht hp⟩

end Gate

end Run

end TagLedger
