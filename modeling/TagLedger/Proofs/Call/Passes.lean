import Mathlib.Tactic.Common
import TagLedger.Proofs.Call.Verdict
import TagLedger.Proofs.Template.Places

/-!
What a prepared call has to pass before its action runs: every template of its payload needs a value
from the sources, and the payload with these values has to fit the schema of the action. The verdict
on a call is its data exactly if it passes, and an error if it fails in one of these.
-/

namespace TagLedger

/-- The value that the sources have for a template, if they have one by now. -/
def Sources.value? (s : Sources) (t : Template) : Option Json :=
  t.request?.bind fun (key, path) =>
    match s.ask key path with
    | some (.answer (.ok (some v))) => some v
    | _ => none

theorem Sources.value?_eq_some_iff {s : Sources} {t : Template} {v : Json} :
    s.value? t = some v ↔ ∃ key path, t.request? = some (key, path) ∧
      s.ask key path = some (.answer (.ok (some v))) := by
  constructor
  · intro h
    obtain ⟨⟨key, path⟩, hkey, h⟩ := Option.bind_eq_some_iff.mp h
    refine ⟨key, path, hkey, ?_⟩
    dsimp only at h
    split at h
    · rename_i w hask
      rw [hask, Option.some.inj h]
    · cases h
  · rintro ⟨key, path, hkey, hask⟩
    rw [value?, hkey, Option.bind_some]
    dsimp only
    rw [hask]

/-- A payload with its templates replaced: every template has its value in its place, and what
stands apart from them is as it was. -/
structure Template.Filled (s : Sources) (payload filled : Json) : Prop where
  places : ∀ t ∈ detect payload, ∃ v, s.value? t = some v ∧ filled.at? t.path = some v
  rest : ∀ p : Path, (∀ t ∈ detect payload, t.path.Apart p) → filled.at? p = payload.at? p

namespace PreparedCall

variable {p : PreparedCall} {actions : List BoundAction} {call : Entry.Call} {s s' : Sources}
  {data : Json}

/-- Content writes a payload: blank content an empty object, any other what is read from it. -/
def Writes (content : String) (payload : Json) : Prop :=
  if (Text.trim content.toList).isEmpty then payload = .obj []
  else Json.parseFenced (Text.trim content.toList) = .ok payload

theorem writes_of_readPayload {content : String} {payload : Json}
    (h : readPayload content = .ok payload) : Writes content payload := by
  unfold readPayload at h
  unfold Writes
  dsimp only at h
  split at h
  · rename_i hblank
    rw [if_pos hblank]
    cases h
    rfl
  · rename_i hblank
    rwa [if_neg hblank]

/-- What a call that could be prepared comes with. -/
theorem of_ofCall (h : ofCall actions call = .ok p) :
    p.action ∈ actions ∧ p.action.name = call.name ∧ readPayload call.content = .ok p.payload ∧
      p.templates = Template.detect p.payload := by
  unfold ofCall at h
  split at h
  · cases h
  · rename_i b hfind
    split at h
    · cases h
    · rename_i payload hread
      cases h
      have hname := List.find?_some hfind
      rw [beq_iff_eq] at hname
      exact ⟨List.mem_of_find?_eq_some hfind, hname, hread, rfl⟩

def filled (p : PreparedCall) (s : Sources) : Json :=
  (Template.resolve s.answer p.payload p.templates).payload

/-- A call that passes: its payload is filled, and the schema makes the data of it. -/
structure Passes (p : PreparedCall) (call : Entry.Call) (s : Sources) (data : Json) : Prop where
  filled : Template.Filled s p.payload (p.filled s)
  valid : validated p.action.action call (p.filled s) = .ok data

inductive Fails (p : PreparedCall) (call : Entry.Call) (s : Sources) : Prop where
  | noKey {t : Template} (ht : t ∈ Template.detect p.payload) (h : t.request? = none)
  | noValue {t : Template} {key path : String} {reply : Reply}
    (ht : t ∈ Template.detect p.payload) (hkey : t.request? = some (key, path))
    (hask : s.ask key path = some reply) (h : ∀ v, reply ≠ .answer (.ok (some v)))
  | invalid {err : RunError} (hvalues : ∀ t ∈ Template.detect p.payload, (s.value? t).isSome = true)
    (h : validated p.action.action call (p.filled s) = .error err)

/-- Sources that have all values fill the payload without a fault. -/
theorem filled_of_values (hp : ofCall actions call = .ok p)
    (hvalues : ∀ t ∈ Template.detect p.payload, (s.value? t).isSome = true) :
    (Template.resolve s.answer p.payload p.templates).fault = none ∧
      Template.Filled s p.payload (p.filled s) := by
  obtain ⟨_, _, hread, htemplates⟩ := of_ofCall hp
  obtain ⟨hat, hapart⟩ := Template.detect_stands (Json.tidy_of_readPayload hread)
  have hget (t : Template) (ht : t ∈ Template.detect p.payload) :
      s.value? t = some ((s.value? t).getD .null) := by
    obtain ⟨v, hv⟩ := Option.isSome_iff_exists.mp (hvalues t ht)
    rw [hv, Option.getD_some]
  have hanswer (t : Template) (ht : t ∈ Template.detect p.payload) :
      ∃ key path, t.request? = some (key, path) ∧
        s.answer key path = .ok (some ((s.value? t).getD .null)) := by
    obtain ⟨key, path, hkey, hask⟩ := Sources.value?_eq_some_iff.mp (hget t ht)
    exact ⟨key, path, hkey, by rw [Sources.answer, hask]⟩
  obtain ⟨hfault, hplaces, hrest⟩ :=
    Template.resolve_places (fun t ht => ⟨_, hat t ht⟩) hapart hanswer
  rw [← htemplates] at hfault hplaces hrest
  refine ⟨hfault, ⟨fun t ht => ⟨_, hget t ht, ?_⟩, fun path hpath => ?_⟩⟩
  · exact hplaces t (htemplates ▸ ht)
  · exact hrest path (htemplates ▸ hpath)

/-- A call whose verdict is its data has passed. -/
theorem passes_of_verdict_ok (hp : ofCall actions call = .ok p)
    (h : p.verdict call s = some (.ok data)) : p.Passes call s data := by
  obtain ⟨hvalues, _, hvalid⟩ := passes_of_verdict h
  refine ⟨(filled_of_values hp fun t ht => ?_).2, hvalid⟩
  obtain ⟨_, _, _, htemplates⟩ := of_ofCall hp
  obtain ⟨key, path, v, hkey, hask⟩ := hvalues t (htemplates ▸ ht)
  rw [Sources.value?_eq_some_iff.mpr ⟨key, path, hkey, hask⟩]
  rfl

/-- A call that fails never gets its data, whatever the sources have to say later. -/
theorem Fails.verdict_ne (hp : ofCall actions call = .ok p) (h : p.Fails call s)
    (hs : s.Grows s') : p.verdict call s' ≠ some (.ok data) := by
  intro hv
  obtain ⟨_, _, _, htemplates⟩ := of_ofCall hp
  obtain ⟨hvalues, _, hvalid⟩ := passes_of_verdict hv
  rw [htemplates] at hvalues
  cases h with
  | noKey ht hnone =>
    obtain ⟨key, path, _, hkey, _⟩ := hvalues _ ht
    rw [hnone] at hkey
    cases hkey
  | noValue ht hkey hask hreply =>
    obtain ⟨key', path', v, hkey', hask'⟩ := hvalues _ ht
    obtain ⟨rfl, rfl⟩ := Prod.mk.inj (Option.some.inj (hkey.symm.trans hkey'))
    have hsame := (Sources.ask_grows hs hask).symm.trans hask'
    exact hreply v (Option.some.inj hsame)
  | invalid hall hinvalid =>
    obtain ⟨hfault, _⟩ := filled_of_values hp hall
    -- The sources answer every template alike later, so they fill the payload alike.
    have hsame : Template.resolve s'.answer p.payload p.templates =
        Template.resolve s.answer p.payload p.templates := by
      refine Template.resolve_congr fun t ht key path hkey => ?_
      obtain ⟨v, hv⟩ := Option.isSome_iff_exists.mp (hall t (htemplates ▸ ht))
      obtain ⟨key', path', hkey', hask⟩ := Sources.value?_eq_some_iff.mp hv
      obtain ⟨rfl, rfl⟩ := Prod.mk.inj (Option.some.inj (hkey.symm.trans hkey'))
      rw [Sources.answer, Sources.answer, hask, Sources.ask_grows hs hask]
    rw [hsame] at hvalid
    rw [PreparedCall.filled, hvalid] at hinvalid
    cases hinvalid

end PreparedCall

end TagLedger
