import Mathlib.Data.List.Forall2
import Mathlib.Tactic.Common
import TagLedger.Proofs.Call.Agreement
import TagLedger.Proofs.Run.Admission
import TagLedger.Proofs.Run.Outcomes
import TagLedger.Proofs.Run.Pairing

/-!
The log does not depend on chunking or scheduling. Two runs that take in the same text, cut into
pieces and scheduled in any way, add the same entries for its elements in the same order; they
dispatch the same calls, and what becomes of these is the same. Results, noted data and events may
land anywhere in between, but nothing of them is looked at when elements are routed, calls are
numbered or templates are replaced.
-/

namespace TagLedger

/-- Handlers see the data alone, the archive fails alike at any time, and actions do to data what
their behaviour says. -/
structure Setup.Determined (setup : Setup) (archive : Archive) (b : Action → Behaviour) : Prop where
  inputs : ∀ h ∈ setup.catalog.inputs, h.OnData
  outputs : ∀ h ∈ setup.catalog.outputs, h.OnData
  archive : archive.Steady setup.context.id
  actions : ∀ a ∈ setup.catalog.actions, (b a).Describes a

namespace Run

variable {k : Nat} {r r' : Run} {ms ms' : List Move} {h h' : List (Run × Message)}
  {ys zs : List (Run × Message)} {x x' : Run × Entry.Call} {b : Action → Behaviour}
  {s s' : CallSlot} {t t' : CallTask} {p : PreparedCall}

/-- The host starts the run and has it take in the pieces, each when it is asked for; the run is not
cancelled, and no two calls have the same identifier. -/
structure TakesIn (chunks : List Text) (ms : List Move) (r : Run) : Prop where
  hosts : Hosts chunks ms
  timely : timely ms r = true
  uncancelled : (r.applyAll ms).cancelled = false
  distinct : DistinctCalls (history ms r)

theorem Hosts.push_notMem {chunks : List Text} (hms : Hosts chunks ms) (e : Entry) :
    Move.push e ∉ ms := by
  intro hmem
  have hkept : Move.push e ∈ ms.filter fun m => !m.isInner := List.mem_filter.mpr ⟨hmem, rfl⟩
  rw [hms] at hkept
  simp [intake] at hkept

/-- The templates of a routed call that can be prepared. -/
def templatesOf (x : Run × Entry.Call) : List Template :=
  match PreparedCall.ofCall x.1.ledger.actions x.2 with
  | .ok p => p.templates
  | .error _ => []

/-- The templates of accepted calls ask for calls only to reach into the data of their results. -/
def AskForData (h : List (Run × Message)) : Prop :=
  ∀ x ∈ acceptedCalls h, ∀ t ∈ templatesOf x, t.AsksForData

instance (h : List (Run × Message)) : Decidable (AskForData h) :=
  inferInstanceAs (Decidable (∀ x ∈ acceptedCalls h, ∀ t ∈ templatesOf x, t.AsksForData))

structure SameCall (x x' : Run × Entry.Call) : Prop where
  call : ∃ id now, x'.2 = { x.2 with id, timestamp := now }
  actions : x'.1.ledger.actions = x.1.ledger.actions

theorem SameCall.ofCall (hx : SameCall x x') :
    ∃ id now, PreparedCall.ofCall x'.1.ledger.actions x'.2 =
      (PreparedCall.ofCall x.1.ledger.actions x.2).mapError (RunError.reissued id now) := by
  obtain ⟨id, now, hcall⟩ := hx.call
  exact ⟨id, now, by rw [hcall, hx.actions, PreparedCall.ofCall_reissued]⟩

/-- Calls that are taken alike are the same. -/
theorem TakenAlike.call? {y z : Run × Message} (h : TakenAlike y z) :
    Option.Rel SameCall (y.2.call?.map fun c => (y.1, c)) (z.2.call?.map fun c => (z.1, c)) := by
  obtain ⟨e, id, now, hy, hz⟩ := h.entry
  rw [hy, hz]
  cases e with
  | call c => exact .some ⟨⟨id, now, rfl⟩, h.same.actions⟩
  | _ => exact .none

theorem acceptedCalls_alike (h : List.Forall₂ SameCall (routedCalls ys) (routedCalls zs)) :
    List.Forall₂ SameCall (acceptedCalls ys) (acceptedCalls zs) := by
  refine List.rel_filter (fun x x' hx => ?_) h
  obtain ⟨id, now, hof⟩ := hx.ofCall
  dsimp only
  rw [hof]
  cases PreparedCall.ofCall x.1.ledger.actions x.2 <;> rfl

theorem routedCalls_alike (h : List.Forall₂ TakenAlike ys zs) :
    List.Forall₂ SameCall (routedCalls ys) (routedCalls zs) :=
  List.rel_filterMap (fun _ _ h => h.call?) h

structure Twins (b : Action → Behaviour) (h h' : List (Run × Message)) (r r' : Run) : Prop where
  mail : Mail h r
  mail' : Mail h' r'
  distinct : DistinctCalls h
  distinct' : DistinctCalls h'
  behaves : Behaves b r
  behaves' : Behaves b r'
  setup : ∃ ids epoch, r'.setup = { r.setup with ids, epoch }
  calls : List.Forall₂ SameCall (acceptedCalls h) (acceptedCalls h')
  asks : AskForData h

namespace Twins

theorem length_slots (ht : Twins b h h' r r') :
    r'.ledger.slots.length = r.ledger.slots.length := by
  rw [ht.mail.toRoster.length_slots, ht.mail'.toRoster.length_slots, ht.calls.length_eq]

/-- In each place the same call was accepted. -/
theorem exists_sameCall (ht : Twins b h h' r r') (hs : r.ledger.slots[k]? = some s) :
    ∃ x x', (acceptedCalls h)[k]? = some x ∧ (acceptedCalls h')[k]? = some x' ∧ SameCall x x' := by
  obtain ⟨hlt, _⟩ := List.getElem?_eq_some_iff.mp hs
  rw [ht.mail.toRoster.length_slots] at hlt
  have hlt' : k < (acceptedCalls h').length := ht.calls.length_eq ▸ hlt
  exact ⟨_, _, List.getElem?_eq_getElem hlt, List.getElem?_eq_getElem hlt',
    (List.forall₂_iff_get.mp ht.calls).2 k hlt hlt'⟩

/-- Sources of tasks in the same place agree, if the calls before have come to the same end. -/
theorem sources_agree (ht : Twins b h h' r r') (hagree : CallSlot.AgreeBelow k r.ledger.slots
    r'.ledger.slots) (hslot : t.slot = k) (hslot' : t'.slot = k) :
    Sources.Agree k r.ledger.slots r'.ledger.slots (r.sources t) (r'.sources t') := by
  obtain ⟨ids, epoch, hsetup⟩ := ht.setup
  refine ⟨congrArg r.ledger.slots.take hslot, congrArg r'.ledger.slots.take hslot', hagree,
    ?_, ?_, ?_⟩
  · simp only [sources, contexts, hsetup]
  · simp only [sources, hsetup]
  · simp only [sources, hsetup]

/-- Two calls that have come to an end have come to the same, with the same data. -/
theorem sameEnd_of_stands (hsame : SameCall x x') (hsetup : ∃ ids epoch, r'.setup =
      { r.setup with ids, epoch })
    (hverdict : ∀ y y', p.verdict x.2 (r.sources t) = some y →
      p.verdict x'.2 (r'.sources t') = some y' →
      y'.mapError RunError.message = y.mapError RunError.message)
    (hstands : Stands b r p x.2 s t) (hstands' : Stands b r' p x'.2 s' t')
    (hends : s.state ≠ .waiting) (hends' : s'.state ≠ .waiting) :
    s.state.SameEnd s'.state ∧ t'.call.data = t.call.data := by
  obtain ⟨ids, epoch, hsetup⟩ := hsetup
  obtain ⟨id, now, hcall⟩ := hsame.call
  cases hstands with
  | waits h => exact absurd h hends
  | completed hv hs hdata hc =>
    cases hstands' with
    | waits h => exact absurd h hends'
    | completed hv' hs' hdata' hc' =>
      have hsame := Except.ok.inj (hverdict _ _ hv hv')
      have hretries : r'.retryRule p.action.action = r.retryRule p.action.action := by
        simp only [retryRule, hsetup]
      rw [hs, hs', hc, hc', hsame]
      refine ⟨.completed ?_, rfl⟩
      rw [hdata, hdata', hsame, hretries]
    | failed hv' _ _ => cases hverdict _ _ hv hv'
  | failed hv hs hc =>
    cases hstands' with
    | waits h => exact absurd h hends'
    | completed hv' _ _ _ => cases hverdict _ _ hv hv'
    | failed hv' hs' hc' =>
      have hsame := Except.error.inj (hverdict _ _ hv hv')
      rw [hs, hs', hc, hc', hsame, hcall]
      exact ⟨.failed _, rfl⟩

/-- If the calls before have come to the same end, so have the two calls in a place. -/
theorem sameEnd (htwins : Twins b h h' r r')
    (hagree : CallSlot.AgreeBelow k r.ledger.slots r'.ledger.slots)
    (hs : r.ledger.slots[k]? = some s) (hs' : r'.ledger.slots[k]? = some s')
    (hends : s.state ≠ .waiting) (hends' : s'.state ≠ .waiting) :
    s.state.SameEnd s'.state ∧ ∃ t t', r.tasks[k]? = some t ∧ r'.tasks[k]? = some t' ∧
      t'.call.data = t.call.data := by
  obtain ⟨x, x', hx, hx', hsame⟩ := htwins.exists_sameCall hs
  obtain ⟨t, w, p, ht, hw, hp, hserves, hstands⟩ :=
    exists_stands htwins.mail htwins.distinct htwins.behaves hx
  obtain ⟨t', w', p', ht', hw', hp', hserves', hstands'⟩ :=
    exists_stands htwins.mail' htwins.distinct' htwins.behaves' hx'
  obtain rfl := Option.some.inj (hs.symm.trans hw)
  obtain rfl := Option.some.inj (hs'.symm.trans hw')
  obtain rfl : p = p' := by
    obtain ⟨id, now, hof⟩ := hsame.ofCall
    rw [hp, hp'] at hof
    exact (Except.ok.inj hof).symm
  have hasks : ∀ template ∈ p.templates, template.AsksForData := by
    have hall := htwins.asks x (List.mem_of_getElem? hx)
    rwa [templatesOf, hp] at hall
  have hsources := htwins.sources_agree hagree hserves.slot hserves'.slot
  have hverdict (y y' : Except RunError Json) (hv : p.verdict x.2 (r.sources t) = some y)
      (hv' : p.verdict x'.2 (r'.sources t') = some y') :
      y'.mapError RunError.message = y.mapError RunError.message := by
    obtain ⟨id, now, hcall⟩ := hsame.call
    exact PreparedCall.verdict_agree hsources hasks hv (hcall ▸ hv')
  obtain ⟨hend, hdata⟩ :=
    sameEnd_of_stands hsame htwins.setup hverdict hstands hstands' hends hends'
  exact ⟨hend, t, t', ht, ht', hdata⟩

/-- By induction on the place: what a call comes to depends on the calls before only, and of these
on the data of their results. -/
theorem agreeBelow (htwins : Twins b h h' r r') (k : Nat) :
    CallSlot.AgreeBelow k r.ledger.slots r'.ledger.slots := by
  induction k with
  | zero => exact ⟨htwins.length_slots, fun i hi => absurd hi (Nat.not_lt_zero i)⟩
  | succ k ih =>
    refine ⟨htwins.length_slots, fun i hi s s' hs hs' hends hends' => ?_⟩
    rcases Nat.lt_succ_iff_lt_or_eq.mp hi with hi | rfl
    · exact ih.ends i hi s s' hs hs' hends hends'
    · exact (htwins.sameEnd ih hs hs' hends hends').1

end Twins

structure Closes (r : Run) : Prop where
  /-- Calls have come to an end when none is in flight. -/
  ended : r.ledger.inFlight = 0 → ∀ s ∈ r.ledger.slots, s.state ≠ .waiting
  /-- When all messages are taken, the chain has the calls with the data of their tasks. -/
  noted : DistinctIds r → r.inbox = [] → ∀ (k : Nat) s t, r.ledger.slots[k]? = some s →
    r.tasks[k]? = some t → chainCall? s.callId r.ledger.chain = some t.call

theorem closes_applyAll_new (setup : Setup) (store : Store) (archive : Archive)
    (subscribers : Subscribers) (ms : List Move) :
    Closes ((new setup store archive subscribers).applyAll ms) where
  ended := fun hzero s hs => by
    obtain ⟨k, hk⟩ := List.mem_iff_getElem?.mp hs
    exact ((Attended.new setup store archive subscribers).applyAll ms).ne_waiting
      (counted_applyAll_new setup store archive subscribers ms) hzero hk
  noted := fun hids hempty k s t hs ht => by
    have hnoted := (Noted.new setup store archive subscribers).applyAll ms hids
    obtain ⟨x, s', hx, hs', _, _, hid⟩ := hnoted.toRoster.exists_served ht
    obtain rfl := Option.some.inj (hs.symm.trans hs')
    rw [hid]
    refine (hnoted.noted k x t hx ht).resolve_right ?_
    rintro ⟨_, data, _, hcoming⟩
    rw [hempty] at hcoming
    cases hcoming

/-- What two runs of the same text have in common. -/
structure SameLog (ms ms' : List Move) (r r' : Run) : Prop where
  /-- For the elements of the text the same entries were added in the same order, but for their
  identifiers and times and the data of calls. Where an entry names another, the two name entries in
  the same place. -/
  direct : List.Forall₂ (Entry.Alike (SamePlace (directEntries ms r) (directEntries ms' r')))
    (directEntries ms r) (directEntries ms' r')
  /-- The same calls were dispatched in the same order. -/
  names : (r'.applyAll ms').ledger.slots.map (·.name) = (r.applyAll ms).ledger.slots.map (·.name)
  /-- Calls in the same place have come to the same end, with the same data, if both have come to
  an end. -/
  ends : ∀ (k : Nat) s s', (r.applyAll ms).ledger.slots[k]? = some s →
    (r'.applyAll ms').ledger.slots[k]? = some s' → s.state ≠ .waiting → s'.state ≠ .waiting →
    s.state.SameEnd s'.state ∧ ∃ t t', (r.applyAll ms).tasks[k]? = some t ∧
      (r'.applyAll ms').tasks[k]? = some t' ∧ t'.call.data = t.call.data
  closes : Closes (r.applyAll ms) ∧ Closes (r'.applyAll ms')

theorem Twins.names (htwins : Twins b h h' r r') :
    r'.ledger.slots.map (·.name) = r.ledger.slots.map (·.name) := by
  have hslots {h : List (Run × Message)} {r : Run} (hr : Roster h r) :
      r.ledger.slots.map (·.name) = (acceptedCalls h).map (·.2.name) := by
    have hboth := congrArg (List.map Prod.fst) hr.slots
    simpa only [List.map_map, Function.comp_def] using hboth
  rw [hslots htwins.mail.toRoster, hslots htwins.mail'.toRoster, ← List.forall₂_eq_eq_eq,
    List.forall₂_map_left_iff, List.forall₂_map_right_iff]
  refine htwins.calls.flip.imp fun x' x hsame => ?_
  obtain ⟨id, now, hcall⟩ := hsame.call
  rw [hcall]

/-- Two runs of the same setup that take in the same text have the same log, however the text is
cut, whatever the schedules are, and whatever identifiers and times are given out. -/
theorem applyAll_sameLog {setup : Setup} {archive : Archive} {b : Action → Behaviour}
    (hsetup : setup.Determined archive b) (store : Store) (subscribers subscribers' : Subscribers)
    (ids : Nat → Uuid) (epoch : Timestamp) {chunks chunks' : List Text}
    (htext : chunks.flatten = chunks'.flatten) {ms ms' : List Move}
    (hms : TakesIn chunks ms (new setup store archive subscribers))
    (hms' : TakesIn chunks' ms' (new { setup with ids, epoch } store archive subscribers'))
    (hasks : AskForData (history ms (new setup store archive subscribers))) :
    SameLog ms ms' (new setup store archive subscribers)
      (new { setup with ids, epoch } store archive subscribers') := by
  have hstreams := streamed_alike hsetup.inputs hsetup.outputs hsetup.archive ids epoch htext
    hms.hosts hms'.hosts hms.timely hms'.timely
  have hbefore : Behaves b (new setup store archive subscribers) := .new hsetup.actions _ _ _
  have hactions : ∀ a ∈ ({ setup with ids, epoch } : Setup).catalog.actions, (b a).Describes a :=
    hsetup.actions
  have hbefore' : Behaves b (new { setup with ids, epoch } store archive subscribers') :=
    .new hactions _ _ _
  have htwins : Twins b (history ms (new setup store archive subscribers))
      (history ms' (new { setup with ids, epoch } store archive subscribers'))
      ((new setup store archive subscribers).applyAll ms)
      ((new { setup with ids, epoch } store archive subscribers').applyAll ms') :=
    { mail := (Mail.new _ _ _ _).applyAll ms hms.distinct
      mail' := (Mail.new _ _ _ _).applyAll ms' hms'.distinct
      distinct := hms.distinct
      distinct' := hms'.distinct
      behaves := hbefore.applyAll ms hms.uncancelled
      behaves' := hbefore'.applyAll ms' hms'.uncancelled
      setup := by
        rw [(applyAll_grows _ ms).setup, (applyAll_grows _ ms').setup]
        exact ⟨ids, epoch, rfl⟩
      calls := by
        refine acceptedCalls_alike ?_
        rw [routedCalls_streamed hbefore hms.hosts.push_notMem hms.uncancelled,
          routedCalls_streamed hbefore' hms'.hosts.push_notMem hms'.uncancelled]
        exact routedCalls_alike hstreams
      asks := hasks }
  exact
    { direct := directEntries_alike hstreams
      names := htwins.names
      ends := fun k s s' hs hs' => htwins.sameEnd (htwins.agreeBelow k) hs hs'
      closes := ⟨closes_applyAll_new _ _ _ _ ms, closes_applyAll_new _ _ _ _ ms'⟩ }

end Run

namespace Sample

def echo : Behaviour where
  attempt := fun data _ => some (.ok data)
  recover := fun _ err => some (.error err)
  breaks := fun _ _ => false

theorem noteAction_describes : echo.Describes noteAction where
  execute := fun _ _ _ _ _ => rfl
  onError := fun _ _ => rfl
  onSuccess := fun _ _ => rfl

theorem noteSetup_determined : noteSetup.Determined Archive.empty fun _ => echo where
  inputs := fun _ h => by cases h
  outputs := fun _ h => by cases h
  archive := fun _ _ => rfl
  actions := fun a h => by
    rw [List.mem_singleton.mp h]
    exact noteAction_describes

/-- A text with two calls, the second of which asks for the data of the first, cut inside a tag. -/
def callsHead : Text := "<action_call name=\"note\">[1]</action_call><action_ca".toList

def callsTail : Text :=
  "ll name=\"note\">[\"\x7b\x7bcalls.0.data\x7d\x7d\"]</action_call>".toList

end Sample

open Sample in
/-- In one run the text comes as a whole, before any task takes a step; in the other it comes in two
pieces, and the result of the first call is there before the second is dispatched. -/
theorem Run.applyAll_sameLog_cut_inside_tag :
    let ids := fun n => Uuid.numbered (n + 100)
    let r' := Run.new { noteSetup with ids, epoch := ⟨5, 0⟩ } Store.empty Archive.empty
      Subscribers.empty
    let ms : List Move := List.flatten
      [[.start, .openStream, .feed (callsHead ++ callsTail) false, .closeStream false],
        List.replicate 9 (.task 0), [.deliver, .deliver], List.replicate 10 (.task 1),
        [.deliver, .deliver]]
    let ms' : List Move := List.flatten
      [[.start, .openStream, .feed callsHead false], List.replicate 9 (.task 0),
        [.deliver, .deliver, .feed callsTail false, .closeStream false],
        List.replicate 10 (.task 1), [.deliver, .deliver]]
    noteSetup.Determined Archive.empty (fun _ => echo) ∧
      TakesIn [callsHead ++ callsTail] ms noteRun ∧ TakesIn [callsHead, callsTail] ms' r' ∧
      AskForData (history ms noteRun) ∧ directPlaces ms noteRun = [2, 3] ∧
      directPlaces ms' r' = [2, 4] ∧ SameLog ms ms' noteRun r' := by
  intro ids r' ms ms'
  have hms : TakesIn [callsHead ++ callsTail] ms noteRun := by
    refine ⟨rfl, ?_, ?_, ?_⟩
    · decide +kernel
    · decide +kernel
    · unfold DistinctCalls
      decide +kernel
  have hms' : TakesIn [callsHead, callsTail] ms' r' := by
    refine ⟨rfl, ?_, ?_, ?_⟩
    · decide +kernel
    · decide +kernel
    · unfold DistinctCalls
      decide +kernel
  have hasks : AskForData (history ms noteRun) := by decide +kernel
  have hplaces : directPlaces ms noteRun = [2, 3] := by decide +kernel
  have hplaces' : directPlaces ms' r' = [2, 4] := by decide +kernel
  have htext : [callsHead ++ callsTail].flatten = [callsHead, callsTail].flatten := by
    simp only [List.flatten_cons, List.flatten_nil, List.append_nil]
  exact ⟨noteSetup_determined, hms, hms', hasks, hplaces, hplaces',
    applyAll_sameLog noteSetup_determined Store.empty Subscribers.empty Subscribers.empty ids ⟨5, 0⟩
      htext hms hms' hasks⟩

end TagLedger
