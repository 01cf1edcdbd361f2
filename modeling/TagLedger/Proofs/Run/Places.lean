import Mathlib.Tactic.Common
import TagLedger.Proofs.Run.Intake

/-!
The places of a stream in the chain. Entries that a piece of the stream adds stay in their places,
whatever the schedule adds or patches later; so after the schedule these places hold what was added
there, but for the data of calls.
-/

namespace TagLedger.Run

variable {r r' q : Run} {m : Message} {ms : List Move}

/-- Where the entries stand that the pieces of a stream add to the chain. -/
def directPlaces : List Move → Run → List Nat
  | [], _ => []
  | m :: ms, r =>
    (if m.isPiece then
      List.range' r.ledger.chain.length ((r.apply m).ledger.chain.length - r.ledger.chain.length)
    else []) ++ directPlaces ms (r.apply m)

/-- The entries in these places after the schedule. -/
def directEntries (ms : List Move) (r : Run) : List Entry :=
  (directPlaces ms r).filterMap fun k => (r.applyAll ms).ledger.chain[k]?

theorem TakesPiece.chain {taken : List (Run × Message)} (hp : TakesPiece r taken r') :
    r'.ledger.chain = r.ledger.chain ++ taken.flatMap addedBy := by
  cases hp with
  | nothing _ => exact (List.append_nil _).symm
  | events p events => exact takeEvents_chain events _

/-- A piece of the stream adds what is routed for it, and nothing else. -/
theorem apply_piece_chain {m : Move} (hm : m.isPiece = true) (r : Run) :
    (r.apply m).ledger.chain = r.ledger.chain ++ (r.taken m).flatMap addedBy := by
  have hcancel (cancels : Bool) : (if cancels then r.cancel else r).ledger = r.ledger := by
    split <;> rfl
  have hmove := r.apply_happens m
  generalize r.taken m = taken, r.apply m = r' at hmove ⊢
  cases hmove with
  | nothing => exact (List.append_nil _).symm
  | feed chunk cancels _ => rw [(feed_takesPiece chunk _).chain, hcancel]
  | closeStream cancels _ => rw [(closeStream_takesPiece _).chain, hcancel]
  | _ => cases hm

theorem Logs.chainWithoutData {own : List String} {es : List Entry} (hl : Logs own es r r') :
    ∃ fs, r'.chainWithoutData = r.chainWithoutData ++ fs :=
  ⟨es.map Entry.withoutData, by rw [Run.chainWithoutData, hl.chain, List.map_append]; rfl⟩

theorem Reception.chainWithoutData (hm : Reception r m r') :
    ∃ es, r'.chainWithoutData = r.chainWithoutData ++ es := by
  cases hm with
  | plain _ hl =>
    obtain ⟨_, _, hl, _⟩ := hl
    exact hl.chainWithoutData
  | result _ hl => exact hl.chainWithoutData
  | refused _ _ hl => exact hl.chainWithoutData
  | accepted _ _ hl => exact hl.chainWithoutData
  | prepared id data => exact (Framed.patchCall id data r).chain
  | failed hl => exact hl.chainWithoutData
  | completed hl => exact hl.chainWithoutData

/-- Whatever the schedule, the chain grows at its end. -/
theorem applyAll_chainWithoutData (r : Run) (ms : List Move) :
    ∃ es, (r.applyAll ms).chainWithoutData = r.chainWithoutData ++ es := by
  have htrans {q q' : Run} (h : ∃ es, q.chainWithoutData = r.chainWithoutData ++ es)
      (h' : ∃ es, q'.chainWithoutData = q.chainWithoutData ++ es) :
      ∃ es, q'.chainWithoutData = r.chainWithoutData ++ es := by
    obtain ⟨es, hes⟩ := h
    obtain ⟨fs, hfs⟩ := h'
    exact ⟨es ++ fs, by rw [hfs, hes, List.append_assoc]⟩
  refine applyAll_keeps
    (I := fun _ q => ∃ es, q.chainWithoutData = r.chainWithoutData ++ es) (g := []) ?_ ?_ ?_ ?_
    ⟨[], (List.append_nil _).symm⟩ ms
  · intro _ q q' h hquiet
    obtain ⟨es, hes, _⟩ := hquiet.chain
    refine htrans h ⟨es.map Entry.withoutData, ?_⟩
    rw [chainWithoutData, hes, List.map_append]
    rfl
  · exact fun h hm => htrans h hm.chainWithoutData
  · intro _ q m rest q' h _ hm
    have hsame : { q with inbox := rest }.chainWithoutData = q.chainWithoutData := rfl
    exact htrans h (hsame ▸ hm.chainWithoutData)
  · intro _ q i q' h hs
    obtain ⟨t, t', sent, ht, hconduct⟩ := stepTask?_conduct hs
    rwa [chainWithoutData, (hconduct.steps ht).ledger]

theorem filterMap_getElem?_range' {α : Type} (xs ys zs : List α) :
    (List.range' xs.length ys.length).filterMap (fun k => (xs ++ ys ++ zs)[k]?) = ys := by
  induction ys generalizing xs with
  | nil => rfl
  | cons y ys ih =>
    have hhere : (xs ++ y :: ys ++ zs)[xs.length]? = some y := by simp
    have hmore := ih (xs ++ [y])
    rw [List.append_assoc xs [y] ys, List.singleton_append, List.length_append,
      List.length_singleton] at hmore
    rw [List.length_cons, List.range'_succ, List.filterMap_cons_some hhere, hmore]

theorem places_withoutData (hq : r.applyAll ms = q) :
    (directPlaces ms r).filterMap (fun k => q.chainWithoutData[k]?) =
      ((streamed ms r).flatMap addedBy).map Entry.withoutData := by
  induction ms generalizing r with
  | nil => rfl
  | cons m ms ih =>
    have hrest := ih (r := r.apply m) hq
    rw [directPlaces, streamed, List.filterMap_append, List.flatMap_append, List.map_append, hrest]
    congr 1
    split
    · rename_i hm
      have hchain := apply_piece_chain hm r
      obtain ⟨es, hes⟩ := (r.apply m).applyAll_chainWithoutData ms
      have hlater : q.chainWithoutData = r.chainWithoutData ++
          ((r.taken m).flatMap addedBy).map Entry.withoutData ++ es := by
        rw [← hq]
        refine hes.trans ?_
        rw [chainWithoutData, hchain, List.map_append]
        rfl
      have hcount : (r.apply m).ledger.chain.length - r.ledger.chain.length =
          (((r.taken m).flatMap addedBy).map Entry.withoutData).length := by
        rw [hchain, List.length_append, List.length_map, Nat.add_sub_cancel_left]
      have hstart : r.ledger.chain.length = r.chainWithoutData.length := by
        rw [chainWithoutData, List.length_map]
      rw [hcount, hlater, hstart]
      exact filterMap_getElem?_range' _ _ _
    · rfl

/-- After the schedule the places of the stream hold what was added there. -/
theorem directEntries_withoutData (ms : List Move) (r : Run) :
    (directEntries ms r).map Entry.withoutData =
      ((streamed ms r).flatMap addedBy).map Entry.withoutData := by
  rw [← places_withoutData rfl, directEntries, List.map_filterMap]
  simp only [chainWithoutData, List.getElem?_map]

end TagLedger.Run
