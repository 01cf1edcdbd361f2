import Mathlib.Tactic.Common
import TagLedger.Proofs.Call.Replies
import TagLedger.Proofs.Call.Verdict
import TagLedger.Proofs.Entry.Alike

/-!
Agreement of sources. Two sources that know the same about earlier calls, but for the identity of
their results, cannot be told apart by a template that asks for the data of results only; so the
verdicts on two calls that differ in their identity alone are the same, once they are there.
-/

namespace TagLedger

open Sources (callsKey)

/-- Where the template asks for a call, it asks for something in the data of the result. -/
def Template.AsksForData (t : Template) : Prop :=
  ∀ request ∈ t.request?, request.1 = callsKey →
    ∀ rest ∈ (Path.segments request.2).tail?, rest.head? = some "data"

instance (t : Template) : Decidable t.AsksForData :=
  inferInstanceAs (Decidable (∀ request ∈ t.request?, request.1 = callsKey →
    ∀ rest ∈ (Path.segments request.2).tail?, rest.head? = some "data"))

theorem Template.AsksForData.head?_eq {t : Template} (ht : t.AsksForData) {path first : String}
    {rest : List String} (hrequest : t.request? = some (callsKey, path))
    (hpath : Path.segments path = first :: rest) : rest.head? = some "data" :=
  ht _ hrequest rfl rest (by rw [hpath]; rfl)

inductive CallState.SameEnd : CallState → CallState → Prop where
  | completed {res res' : Entry.Result} (h : res'.data = res.data) :
    SameEnd (.completed res) (.completed res')
  | failed (reason : String) : SameEnd (.failed reason) (.failed reason)

/-- The data of a result is a member of its JSON. -/
theorem Entry.Result.follow?_data (res : Entry.Result) (rest : List String) :
    (Json.obj res.members).follow? ("data" :: rest) = res.data.follow? rest := by
  have hget : Json.Members.get? res.members "data" = some res.data := by
    unfold members Header.members
    cases res.index <;> rfl
  rw [Json.follow?, Json.stepFor?, Option.bind_some, Json.child?, hget, Option.bind_some]

namespace CallSlot

variable {slots slots' : List CallSlot} {k : Nat} {path : String} {a a' : Template.Answer}

structure AgreeBelow (k : Nat) (slots slots' : List CallSlot) : Prop where
  length : slots'.length = slots.length
  ends : ∀ i < k, ∀ s s', slots[i]? = some s → slots'[i]? = some s' → s.state ≠ .waiting →
    s'.state ≠ .waiting → s.state.SameEnd s'.state

/-- What a path into the data of a result stands for is the same. -/
theorem value?_agree (h : AgreeBelow k slots slots')
    (hdata : ∀ first rest, Path.segments path = first :: rest → rest.head? = some "data")
    (hw : ¬ Waits slots k path) (hw' : ¬ Waits slots' k path) :
    value? slots' k path = value? slots k path := by
  unfold value?
  cases hpath : Path.segments path with
  | nil => rfl
  | cons first rest =>
    dsimp only
    obtain ⟨rest, rfl⟩ := List.head?_eq_some_iff.mp (hdata first rest hpath)
    cases hindex : Path.index? first with
    | none => rfl
    | some i =>
      rw [Option.bind_some, Option.bind_some]
      split
      · rename_i hlt
        cases hs : slots[i]? with
        | none =>
          have hs' : slots'[i]? = none := by
            rw [List.getElem?_eq_none_iff] at hs ⊢
            rwa [h.length]
          rw [hs']
        | some s =>
          obtain ⟨s', hs'⟩ : ∃ s', slots'[i]? = some s' := by
            obtain ⟨hlen, _⟩ := List.getElem?_eq_some_iff.mp hs
            exact ⟨_, List.getElem?_eq_getElem (h.length.symm ▸ hlen)⟩
          have hends := h.ends i hlt s s' hs hs'
            (fun hwait => hw ⟨first, _, i, s, hpath, hindex, hlt, hs, hwait⟩)
            (fun hwait => hw' ⟨first, _, i, s', hpath, hindex, hlt, hs', hwait⟩)
          rw [hs', Option.bind_some, Option.bind_some]
          generalize s.state = state at hends
          generalize s'.state = state' at hends
          cases hends with
          | completed hsame =>
            dsimp only
            rw [Entry.Result.follow?_data, Entry.Result.follow?_data, hsame]
          | failed reason => rfl
      · rfl

end CallSlot

namespace Template

variable {slots slots' : List CallSlot} {k : Nat} {path : String} {a a' : Template.Answer}

open CallSlot (Replies)

/-- Answers about calls that agree fill a template alike. -/
theorem fill_agree (h : CallSlot.AgreeBelow k slots slots')
    (hdata : ∀ first rest, Path.segments path = first :: rest → rest.head? = some "data")
    (ha : Replies slots k path (some a)) (ha' : Replies slots' k path (some a')) (t : Template)
    (payload : Json) : t.fill payload a' = t.fill payload a := by
  cases ha with
  | stands hw hv =>
    cases ha' with
    | stands hw' hv' =>
      have hsame := CallSlot.value?_agree h hdata hw hw'
      rw [hv, hv'] at hsame
      rw [Option.some.inj hsame]
    | lacks hw' hv' _ =>
      have hsame := CallSlot.value?_agree h hdata hw hw'
      rw [hv, hv'] at hsame
      cases hsame
  | lacks hw hv hlacks =>
    cases ha' with
    | stands hw' hv' =>
      have hsame := CallSlot.value?_agree h hdata hw hw'
      rw [hv, hv'] at hsame
      cases hsame
    | lacks _ _ hlacks' => rw [t.fill_of_lacks payload hlacks, t.fill_of_lacks payload hlacks']

end Template

structure Sources.Agree (k : Nat) (slots slots' : List CallSlot) (s s' : Sources) : Prop where
  shows : s.slots = slots.take k
  shows' : s'.slots = slots'.take k
  agree : CallSlot.AgreeBelow k slots slots'
  contexts : s'.contexts = s.contexts
  memoryContext : s'.memoryContext = s.memoryContext
  external : s'.external = s.external

inductive Reply.Alike (t : Template) : Reply → Reply → Prop where
  | answer {a a' : Template.Answer} (h : ∀ payload, t.fill payload a' = t.fill payload a) :
    Alike t (.answer a) (.answer a')
  | crashed : Alike t .crashed .crashed

theorem Reply.Alike.refl (t : Template) (reply : Reply) : reply.Alike t reply := by
  cases reply with
  | answer a => exact .answer fun _ => rfl
  | crashed => exact .crashed

namespace Sources

variable {slots slots' : List CallSlot} {s s' : Sources} {k : Nat} {name key path : String}
  {payload : Json} {todo : List Template} {t : Template}

/-- Whatever they reply does the same to a template. -/
theorem Agree.reply (h : Agree k slots slots' s s') (ht : t.AsksForData)
    (hrequest : t.request? = some (key, path)) {reply reply' : Reply}
    (ha : s.ask key path = some reply) (ha' : s'.ask key path = some reply') :
    reply.Alike t reply' := by
  unfold ask at ha ha'
  by_cases hkey : key = callsKey
  · rw [if_pos hkey] at ha ha'
    obtain ⟨a, hcall, rfl⟩ := Option.map_eq_some_iff.mp ha
    obtain ⟨a', hcall', rfl⟩ := Option.map_eq_some_iff.mp ha'
    have hreplies := hcall ▸ askCall_replies h.shows path
    have hreplies' := hcall' ▸ askCall_replies h.shows' path
    subst hkey
    exact .answer fun payload => Template.fill_agree h.agree
      (fun _ _ => ht.head?_eq hrequest) hreplies hreplies' t payload
  · rw [if_neg hkey] at ha ha'
    rw [askMemory, h.contexts, h.memoryContext, h.external] at ha'
    obtain rfl := Option.some.inj (ha.symm.trans ha')
    exact .refl t reply

/-- Payloads come to the same. -/
theorem Agree.complete (h : Agree k slots slots' s s') (hdata : ∀ t ∈ todo, t.AsksForData)
    {x x' : Except RunError Json} (hx : s.complete name payload todo = some x)
    (hx' : s'.complete name payload todo = some x') : x' = x := by
  induction todo generalizing payload with
  | nil => exact Option.some.inj (hx'.symm.trans hx)
  | cons t ts ih =>
    obtain ⟨ht, hts⟩ := List.forall_mem_cons.mp hdata
    unfold Sources.complete at hx hx'
    cases hrequest : t.request? with
    | none =>
      rw [hrequest] at hx hx'
      exact Option.some.inj (hx'.symm.trans hx)
    | some request =>
      obtain ⟨key, path⟩ := request
      rw [hrequest] at hx hx'
      dsimp only at hx hx'
      cases ha : s.ask key path with
      | none =>
        rw [ha] at hx
        cases hx
      | some reply =>
        cases ha' : s'.ask key path with
        | none =>
          rw [ha'] at hx'
          cases hx'
        | some reply' =>
          rw [ha] at hx
          rw [ha'] at hx'
          cases h.reply ht hrequest ha ha' with
          | crashed => exact Option.some.inj (hx'.symm.trans hx)
          | @answer a a' hfill =>
            dsimp only at hx hx'
            rw [hfill payload] at hx'
            cases hfilled : t.fill payload a with
            | mk payload' fault =>
              rw [hfilled] at hx hx'
              cases fault with
              | some fault => exact Option.some.inj (hx'.symm.trans hx)
              | none => exact ih hts hx hx'

end Sources

/-- Verdicts on two calls that differ in identity and time alone give the same data, or errors of
the same text. -/
theorem PreparedCall.verdict_agree {p : PreparedCall} {c : Entry.Call} {id : Uuid}
    {now : Timestamp} {slots slots' : List CallSlot} {s s' : Sources} {k : Nat}
    {y y' : Except RunError Json} (h : Sources.Agree k slots slots' s s')
    (hdata : ∀ t ∈ p.templates, t.AsksForData) (hv : p.verdict c s = some y)
    (hv' : p.verdict { c with id, timestamp := now } s' = some y') :
    y'.mapError RunError.message = y.mapError RunError.message := by
  obtain ⟨x, hx, rfl⟩ := Option.map_eq_some_iff.mp hv
  obtain ⟨x', hx', rfl⟩ := Option.map_eq_some_iff.mp hv'
  obtain rfl := h.complete hdata hx hx'
  cases x' with
  | error err => rfl
  | ok payload =>
    have hsame := validated_reissued p.action.action c payload id now
    simp only [Except.bind, hsame]
    cases validated p.action.action c payload with
    | ok data => rfl
    | error err =>
      simp only [Except.mapError]
      rw [RunError.message_reissued]

end TagLedger
