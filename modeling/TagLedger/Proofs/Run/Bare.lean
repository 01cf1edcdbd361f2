import Mathlib.Tactic.Common
import TagLedger.Proofs.Run.Opening
import TagLedger.Proofs.Run.Places
import TagLedger.Proofs.Run.Roster

/-!
The stream brings calls without data. An element has none to give, so neither the open entries nor
those that are routed for the stream have any; and what routing adds is no call but the routed one.
-/

namespace TagLedger

namespace Entry

theorem withoutData_withElement (x : Markup.Element) (e : Entry) :
    (e.withElement x).withoutData = e.withoutData.withElement x := by
  cases e <;> rfl

theorem withoutData_streaming (kind : EntryKind) (id : Uuid) (index : Nat) (now : Timestamp) :
    (streaming kind id index now).withoutData = streaming kind id index now := by
  cases kind <;> rfl

end Entry

namespace Run

variable {r r' q : Run} {m : Move} {ms : List Move} {y : Run × Message} {k : Nat}
  {c : Entry.Call}

def OpenBare (r : Run) : Prop := ∀ p ∈ r.ledger.openEntries.entries, p.2.withoutData = p.2

/-- The entry of an element is taken in, and has no data if it is a call. -/
def TakenBare (y : Run × Message) : Prop :=
  ∃ e, y.2 = .push e ∧ e.isDone = true ∧ e.withoutData = e

theorem OpenBare.withElement (hr : OpenBare r) (kind : EntryKind) (x : Markup.Element) (id : Uuid)
    (now : Timestamp) :
    ((r.ledger.openEntries.getOrCreate x.index kind id now).1.withElement x).withoutData =
      (r.ledger.openEntries.getOrCreate x.index kind id now).1.withElement x := by
  rw [Entry.withoutData_withElement]
  congr 1
  rcases r.ledger.openEntries.getOrCreate_cases x.index kind id now with hmem | hbegun
  · exact hr _ hmem
  · rw [hbegun]
    exact Entry.withoutData_streaming kind id x.index now

theorem takeElement_bare (hr : OpenBare r) (x : Markup.Element) :
    OpenBare (r.takeElement x) ∧ ∀ y ∈ r.elementTaken x, TakenBare y := by
  have hx := r.takeElement_notices x
  generalize r.elementTaken x = taken, r.takeElement x = r' at hx ⊢
  cases hx with
  | unknown _ => exact ⟨hr, by simp⟩
  | @shows kind _ _ _ hfound =>
    subst hfound
    refine ⟨fun p hp => ?_, by simp⟩
    have hset : (p.1, p.2) ∈ OpenEntries.setEntry x.index _ r.ledger.openEntries.entries :=
      OpenEntries.entries_set_getOrCreate _ ▸ hp
    rcases OpenEntries.mem_setEntry hset with ⟨_, hp⟩ | hp
    · rw [hp]
      exact hr.withElement kind x r.nextId r.time
    · exact hr p hp
  | @routes kind _ _ hdone hfound =>
    subst hfound
    refine ⟨fun p hp => ?_, fun y hy => ?_⟩
    · rw [(Framed.route _ _).openEntries] at hp
      exact hr p (OpenEntries.mem_of_remove_getOrCreate hp)
    · obtain rfl := List.mem_singleton.mp hy
      exact ⟨_, rfl, (Entry.isDone_withElement x _).trans hdone,
        hr.withElement kind x r.nextId r.time⟩

/-- What a piece of the stream takes in, and what it leaves open, has no data. -/
theorem takeEvents_bare (hr : OpenBare r) (events : List Markup.ElementEvent) :
    OpenBare (r.takeEvents events) ∧ ∀ y ∈ eventsTaken events r, TakenBare y := by
  induction events generalizing r with
  | nil => exact ⟨hr, by simp [eventsTaken]⟩
  | cons ev events ih =>
    obtain ⟨hnext, hfirst⟩ := takeElement_bare hr ev.element
    obtain ⟨hopen, htaken⟩ := ih hnext
    refine ⟨hopen, fun y hy => ?_⟩
    rcases List.mem_append.mp hy with hy | hy
    · exact hfirst y hy
    · exact htaken y hy

theorem TakesPiece.bare {taken : List (Run × Message)} (hp : TakesPiece r taken r')
    (hr : OpenBare r) : OpenBare r' ∧ ∀ y ∈ taken, TakenBare y := by
  cases hp with
  | nothing _ => exact ⟨hr, by simp⟩
  | events p events => exact takeEvents_bare (r := { r with stream := p }) hr events

/-- Only pieces of the stream touch the open entries. -/
theorem openEntries_apply (hm : m.isPiece = false) (r : Run) :
    (r.apply m).ledger.openEntries = r.ledger.openEntries := by
  have hmove := r.apply_happens m
  generalize r.taken m = taken, r.apply m = r' at hmove ⊢
  cases hmove with
  | start _ => exact r.start_framed.openEntries.trans r.openEntries_bound
  | nextStep _ => exact (Framed.commit _ _).openEntries
  | push e _ => exact (Framed.route _ _).openEntries
  | feed _ _ _ | closeStream _ _ => cases hm
  | deliver _ => exact (Framed.receive _ _).openEntries
  | task hs => exact (Framed.steps hs).openEntries
  | _ => rfl

theorem apply_bare (hr : OpenBare r) (m : Move) :
    OpenBare (r.apply m) ∧ (m.isPiece = true → ∀ y ∈ r.taken m, TakenBare y) := by
  have hcancel (cancels : Bool) : OpenBare (if cancels then r.cancel else r) := by
    split <;> exact hr
  by_cases hm : m.isPiece = true
  · have hmove := r.apply_happens m
    generalize r.taken m = taken, r.apply m = r' at hmove ⊢
    cases hmove with
    | nothing => exact ⟨hr, by simp⟩
    | feed chunk cancels _ =>
      exact ((feed_takesPiece chunk _).bare (hcancel cancels)).imp_right fun h _ => h
    | closeStream cancels _ =>
      exact ((closeStream_takesPiece _).bare (hcancel cancels)).imp_right fun h _ => h
    | _ => cases hm
  · rw [Bool.not_eq_true] at hm
    refine ⟨fun p hp => ?_, by simp [hm]⟩
    rw [openEntries_apply hm] at hp
    exact hr p hp

theorem takenBare_of_mem_streamed (hr : OpenBare r) (hy : y ∈ streamed ms r) : TakenBare y := by
  induction ms generalizing r with
  | nil => cases hy
  | cons m ms ih =>
    obtain ⟨hopen, htaken⟩ := apply_bare hr m
    rcases List.mem_append.mp hy with hy | hy
    · split at hy
      · rename_i hm
        exact htaken hm y hy
      · cases hy
    · exact ih hopen hy

theorem mem_history_of_mem_streamed (hy : y ∈ streamed ms r) : y ∈ history ms r := by
  induction ms generalizing r with
  | nil => cases hy
  | cons m ms ih =>
    refine List.mem_append.mpr ((List.mem_append.mp hy).imp (fun hy => ?_) ih)
    split at hy
    · exact hy
    · cases hy

/-- Routing an entry adds no call but the entry. -/
theorem eq_of_call_mem_entriesFor {e : Entry} (h : .call c ∈ r.entriesFor e) : e = .call c := by
  have hplain {es : List Entry} (hes : ∀ x ∈ es, x.IsPlain) (hmem : .call c ∈ es) : False :=
    (hes _ hmem).1 rfl
  cases e with
  | input e =>
    obtain ⟨o, _, ho⟩ := Option.map_eq_some_iff.mp (Option.mem_toList.mp h)
    cases ho
  | output e =>
    dsimp only [entriesFor] at h
    split at h
    · obtain ⟨o, _, ho⟩ := List.mem_map.mp h
      cases ho
    · split at h
      · exact (hplain (fun _ => Entry.isPlain_of_mem_ofError) h).elim
      · exact (hplain (fun _ => Entry.isPlain_of_mem_ofFailedHandler) h).elim
  | call d =>
    dsimp only [entriesFor] at h
    split at h
    · exact (List.mem_singleton.mp h).symm
    · rcases List.mem_cons.mp h with h | h
      · exact h.symm
      · exact (hplain (fun _ => Entry.isPlain_of_mem_ofError) h).elim
  | _ => exact (List.mem_singleton.mp h).symm

/-- A call in a place of the stream was routed without data. -/
theorem exists_routed_of_directPlaces (hr : OpenBare r) (hk : k ∈ directPlaces ms r)
    (hc : (r.applyAll ms).ledger.chain[k]? = some (.call c)) :
    ∃ x ∈ routedCalls (history ms r), x.2.id = c.id ∧ x.2.data = none := by
  have hplace : Entry.withoutData (.call c) ∈
      ((streamed ms r).flatMap addedBy).map Entry.withoutData := by
    rw [← places_withoutData rfl]
    refine List.mem_filterMap.mpr ⟨k, hk, ?_⟩
    rw [chainWithoutData, List.getElem?_map, hc]
    rfl
  obtain ⟨e, hmem, hsame⟩ := List.mem_map.mp hplace
  obtain ⟨d, rfl, hid⟩ : ∃ d, e = .call d ∧ d.id = c.id := by
    cases e with
    | call d => exact ⟨d, rfl, congrArg Entry.id hsame⟩
    | _ => cases hsame
  obtain ⟨⟨q, m⟩, hy, hadded⟩ := List.mem_flatMap.mp hmem
  obtain ⟨e, hpush, hdone, hbare⟩ := takenBare_of_mem_streamed hr hy
  obtain rfl : m = .push e := hpush
  obtain rfl : e = .call d := eq_of_call_mem_entriesFor hadded
  refine ⟨(q, d), List.mem_filterMap.mpr ⟨_, mem_history_of_mem_streamed hy, ?_⟩, hid, ?_⟩
  · simp only [Message.call?, Entry.finished_of_isDone hdone]
    rfl
  · exact (congrArg Entry.Call.data (Entry.call.inj hbare)).symm

end Run

end TagLedger
