import TagLedger.Proofs.Json.Substitute
import TagLedger.Proofs.Template.Detection

/-!
Replacing the templates of a payload. The source is asked for one template after the other, until
one of them has no key or gets no value; if all get their values, the payload has these in their
places, as if they had been put there at once, and is otherwise as it was. It makes no difference
what the values look like: templates inside them are not replaced.
-/

namespace TagLedger.Template

variable {source : Nat → String → String → Answer} {payload payload' j v : Json} {t : Template}
  {ts : List Template} {f : Path → Option Json} {n : Nat}

def Gets (source : String → String → Answer) (t : Template) (v : Json) : Prop :=
  ∃ key path, Asks t.expression key.toList path.toList ∧ source key path = .ok (some v)

/-- The first `n` templates get values, each from the source as it is when its turn comes. -/
def Supplied (source : Nat → String → String → Answer) (ts : List Template) (n : Nat) : Prop :=
  ∀ m < n, ∀ t, ts[m]? = some t → ∃ v, t.Gets (source m) v

def complaint (t : Template) : Fault :=
  match t.request? with
  | none => t.noKey
  | some _ => .unresolved t.text (Path.dotted t.path)

theorem supplied_zero (source : Nat → String → String → Answer) (ts : List Template) :
    Supplied source ts 0 := by
  intro m hm
  omega

theorem supplied_cons_succ :
    Supplied source (t :: ts) (n + 1) ↔
      (∃ v, t.Gets (source 0) v) ∧ Supplied (fun m => source (m + 1)) ts n := by
  constructor
  · intro h
    refine ⟨h 0 (by omega) t rfl, fun m hm t' ht' => ?_⟩
    exact h (m + 1) (by omega) t' ht'
  · rintro ⟨hfirst, hrest⟩ m hm t' ht'
    cases m with
    | zero =>
      obtain rfl : t = t' := by simpa using ht'
      exact hfirst
    | succ m => exact hrest m (by omega) t' ht'

/-- A template that gets its value is replaced, and the others follow. -/
theorem resolveBy_of_gets (ts : List Template) (hspelled : t.Spelled) (hgets : t.Gets (source 0) v)
    (hfill : t.fill payload (.ok (some v)) = (payload', none)) :
    ∃ q, t.request? = some q ∧ resolveBy source payload (t :: ts) =
      { resolveBy (fun m => source (m + 1)) payload' ts with
        asked := q :: (resolveBy (fun m => source (m + 1)) payload' ts).asked } := by
  obtain ⟨key, path, hasks, hsource⟩ := hgets
  have hkey := (request?_eq_some_iff hspelled).mpr hasks
  exact ⟨(key, path), hkey, by simp [resolveBy, hkey, hsource, hfill]⟩

/-- At a template that gets no value the replacing ends. -/
theorem resolveBy_of_lacks (hspelled : t.Spelled) (hlacks : ¬ ∃ v, t.Gets (source 0) v) :
    resolveBy source payload (t :: ts) =
      ⟨payload, t.request?.toList, some t.complaint⟩ := by
  cases hkey : t.request? with
  | none => simp [resolveBy, complaint, hkey]
  | some q =>
    obtain ⟨key, path⟩ := q
    have hasks := (request?_eq_some_iff hspelled).mp hkey
    have hanswer : ∀ v, source 0 key path ≠ .ok (some v) := fun v hv =>
      hlacks ⟨v, key, path, hasks, hv⟩
    simp [resolveBy, complaint, hkey, fill_of_lacks t payload hanswer]

/-- Templates that are still to be replaced, after `f` has put values in other places: each stands
in the payload, they stand apart, and nothing was put on the way to them. -/
structure Pending (f : Path → Option Json) (j : Json) (ts : List Template) : Prop where
  tidy : j.Tidy
  spelled : ∀ t ∈ ts, t.Spelled
  stands : ∀ t ∈ ts, ∃ old, j.at? t.path = some old
  apart : ts.Pairwise fun t t' => t.path.Apart t'.path
  free : ∀ t ∈ ts, ∀ q, q <+: t.path → f q = none

theorem pending_detect (h : j.Tidy) : Pending (fun _ => none) j (detect j) where
  tidy := h
  spelled _ ht := ((mem_detect_iff h).mp ht).2
  stands _ ht := ⟨_, ((mem_detect_iff h).mp ht).1⟩
  apart := (detect_pairwise h).imp fun hpq => hpq.apart h
  free _ _ _ _ := rfl

namespace Pending

/-- Filling a pending template is substituting at its place. -/
theorem fill_eq (h : Pending f j (t :: ts)) (v : Json) :
    t.fill (Json.substitute f j) (.ok (some v)) =
      (Json.substitute (Function.update f t.path (some v)) j, none) := by
  obtain ⟨old, hold⟩ := h.stands t List.mem_cons_self
  simp [fill, Template.substitute,
    Json.write_substitute h.tidy hold (h.free t List.mem_cons_self) v]

/-- The others are still pending then. -/
theorem tail (h : Pending f j (t :: ts)) (v : Json) :
    Pending (Function.update f t.path (some v)) j ts where
  tidy := h.tidy
  spelled t' ht' := h.spelled t' (List.mem_cons_of_mem t ht')
  stands t' ht' := h.stands t' (List.mem_cons_of_mem t ht')
  apart := (List.pairwise_cons.mp h.apart).2
  free t' ht' q hq := by
    have hapart := (List.pairwise_cons.mp h.apart).1 t' ht'
    have hne : q ≠ t.path := by
      rintro rfl
      exact hapart.1 hq
    rw [Function.update_of_ne hne]
    exact h.free t' (List.mem_cons_of_mem t ht') q hq

/-- A question is asked if its template has a key and all templates before it got their values. -/
theorem asked_iff (h : Pending f j ts) {q : String × String} :
    (resolveBy source (Json.substitute f j) ts).asked[n]? = some q ↔
      (∃ t, ts[n]? = some t ∧ t.request? = some q) ∧ Supplied source ts n := by
  -- filling the first leaves the others pending, with one more place in `f`
  induction ts generalizing f source n with
  | nil => simp [resolveBy]
  | cons t ts ih =>
    have hspelled := h.spelled t List.mem_cons_self
    by_cases hfirst : ∃ v, t.Gets (source 0) v
    · obtain ⟨v, hv⟩ := hfirst
      obtain ⟨q', hq', hresolve⟩ := resolveBy_of_gets ts hspelled hv (h.fill_eq v)
      rw [hresolve]
      cases n with
      | zero => simp [hq', supplied_zero]
      | succ n =>
        have hgets : ∃ v, t.Gets (source 0) v := ⟨v, hv⟩
        simp [supplied_cons_succ, hgets, ih (h.tail v)]
    · rw [resolveBy_of_lacks hspelled hfirst]
      cases n with
      | zero => cases hkey : t.request? <;> simp [supplied_zero, hkey]
      | succ n => cases hkey : t.request? <;> simp [supplied_cons_succ, hfirst]

/-- There is no fault if all templates get their values. -/
theorem fault_none_iff (h : Pending f j ts) :
    (resolveBy source (Json.substitute f j) ts).fault = none ↔ Supplied source ts ts.length := by
  induction ts generalizing f source with
  | nil => simp [resolveBy, supplied_zero]
  | cons t ts ih =>
    have hspelled := h.spelled t List.mem_cons_self
    rw [List.length_cons, supplied_cons_succ]
    by_cases hfirst : ∃ v, t.Gets (source 0) v
    · obtain ⟨v, hv⟩ := hfirst
      obtain ⟨q', hq', hresolve⟩ := resolveBy_of_gets ts hspelled hv (h.fill_eq v)
      have hgets : ∃ v, t.Gets (source 0) v := ⟨v, hv⟩
      simp [hresolve, hgets, ih (h.tail v)]
    · simp [resolveBy_of_lacks hspelled hfirst, hfirst]

/-- The fault is that of the first template without a value. -/
theorem fault_of_lacks (h : Pending f j ts) (ht : ts[n]? = some t) (hbefore : Supplied source ts n)
    (hlacks : ¬ ∃ v, t.Gets (source n) v) :
    (resolveBy source (Json.substitute f j) ts).fault = some t.complaint := by
  induction ts generalizing f source n with
  | nil => simp at ht
  | cons t' ts ih =>
    have hspelled := h.spelled t' List.mem_cons_self
    cases n with
    | zero =>
      obtain rfl : t' = t := by simpa using ht
      rw [resolveBy_of_lacks hspelled hlacks]
    | succ n =>
      obtain ⟨⟨v, hv⟩, hrest⟩ := supplied_cons_succ.mp hbefore
      obtain ⟨q', hq', hresolve⟩ := resolveBy_of_gets ts hspelled hv (h.fill_eq v)
      rw [hresolve]
      exact ih (h.tail v) ht hrest hlacks

/-- Values for all templates are all put in their places, and nothing else is put anywhere. -/
theorem payload_eq (h : Pending f j ts) (hall : Supplied source ts ts.length) :
    ∃ g, (resolveBy source (Json.substitute f j) ts).payload = Json.substitute g j ∧
      (∀ n (t : Template), ts[n]? = some t → ∃ v, t.Gets (source n) v ∧ g t.path = some v) ∧
      ∀ p, (∀ t ∈ ts, t.path ≠ p) → g p = f p := by
  induction ts generalizing f source with
  | nil => exact ⟨f, rfl, by simp, fun _ _ => rfl⟩
  | cons t ts ih =>
    obtain ⟨⟨v, hv⟩, hrest⟩ := supplied_cons_succ.mp hall
    obtain ⟨q', hq', hresolve⟩ :=
      resolveBy_of_gets ts (h.spelled t List.mem_cons_self) hv (h.fill_eq v)
    obtain ⟨g, hpayload, hvalues, hothers⟩ := ih (h.tail v) hrest
    have hfirst : g t.path = some v := by
      rw [hothers t.path fun t' ht' heq => ?_, Function.update_self]
      exact ((List.pairwise_cons.mp h.apart).1 t' ht').1 (heq ▸ List.prefix_refl _)
    refine ⟨g, by rw [hresolve]; exact hpayload, fun n t' ht' => ?_, fun p hp => ?_⟩
    · cases n with
      | zero =>
        obtain rfl : t = t' := by simpa using ht'
        exact ⟨v, hv, hfirst⟩
      | succ n => exact hvalues n t' ht'
    · obtain ⟨hne, hp⟩ := List.forall_mem_cons.mp hp
      rw [hothers p hp, Function.update_of_ne (Ne.symm hne)]

end Pending

/-- What replacing the templates of a payload comes to. The templates are the texts in double
braces, in document order. The source is asked for one after the other what it says, up to the first
that asks for nothing or gets no value. That one is the fault; without such a one there is no fault,
and the payload has the values in the places of the templates and is otherwise as it was. -/
structure Replaced (source : Nat → String → String → Answer) (payload : Json) (o : Outcome) :
    Prop where
  listed : ∀ t, t ∈ detect payload ↔ payload.at? t.path = some (.str t.text) ∧ t.Spelled
  ordered : (detect payload).Pairwise fun t t' => payload.Precedes t.path t'.path
  asked : ∀ n key path, o.asked[n]? = some (key, path) ↔
    (∃ t, (detect payload)[n]? = some t ∧ Asks t.expression key.toList path.toList) ∧
      Supplied source (detect payload) n
  stopped : ∀ n t, (detect payload)[n]? = some t → Supplied source (detect payload) n →
    (¬ ∃ v, t.Gets (source n) v) → o.fault = some t.complaint
  succeeds : o.fault = none ↔ Supplied source (detect payload) (detect payload).length
  filled : o.fault = none → ∃ values : Path → Option Json,
    o.payload = payload.substitute values ∧
      (∀ n (t : Template), (detect payload)[n]? = some t → ∃ v, t.Gets (source n) v ∧
        values t.path = some v) ∧
      ∀ p, (∀ t ∈ detect payload, t.path ≠ p) → values p = none

/-- Replacing templates is one simultaneous substitution, for every payload that names no member
twice and every source. -/
theorem resolveBy_replaced (source : Nat → String → String → Answer) (h : payload.Tidy) :
    Replaced source payload (resolveBy source payload (detect payload)) := by
  have hpending := pending_detect h
  have hstart : resolveBy source payload (detect payload) =
      resolveBy source (Json.substitute (fun _ => none) payload) (detect payload) := by
    rw [Json.substitute_none h]
  have hspelled : ∀ n (t : Template), (detect payload)[n]? = some t → t.Spelled := fun n t ht =>
    hpending.spelled t (List.mem_of_getElem? ht)
  rw [hstart]
  refine ⟨fun t => mem_detect_iff h, detect_pairwise h, fun n key path => ?_,
    fun n t ht hbefore hlacks => hpending.fault_of_lacks ht hbefore hlacks,
    hpending.fault_none_iff, fun hfault => ?_⟩
  · rw [hpending.asked_iff]
    refine and_congr_left fun _ => exists_congr fun t => and_congr_right fun ht => ?_
    exact request?_eq_some_iff (hspelled n t ht)
  · exact hpending.payload_eq (hpending.fault_none_iff.mp hfault)

def nestedPayload : Json :=
  .obj [("market", .str "\x7b\x7bmem.a\x7d\x7d"), ("note", .str ""),
    ("legs", .arr [Json.ofNat 1, .str "\x7b\x7b mem.b[1] \x7d\x7d",
      .obj [("size", .str "\x7b\x7bmem.a\x7d\x7d")]])]

/-- A source that answers each question with its number, and with a template beside it. -/
def countingSource (n : Nat) : String → String → Answer := fun _ path =>
  .ok (some (.obj [(path, .str "\x7b\x7bmem.a\x7d\x7d"), ("turn", Json.ofNat n)]))

theorem nestedPayload_tidy : nestedPayload.Tidy := by
  refine .obj (by decide) ?_
  simp only [List.forall_mem_cons]
  refine ⟨.str _, .str _, .arr ?_, by simp⟩
  simp only [List.forall_mem_cons]
  refine ⟨.num _, .str _, .obj (by decide) ?_, by simp⟩
  simp [Json.Tidy.str]

/-- The same question is asked twice and answered differently. -/
theorem resolveBy_replaced_nested :
    nestedPayload.Tidy ∧
      Replaced countingSource nestedPayload
        (resolveBy countingSource nestedPayload (detect nestedPayload)) ∧
      (resolveBy countingSource nestedPayload (detect nestedPayload)).fault = none :=
  ⟨nestedPayload_tidy, resolveBy_replaced countingSource nestedPayload_tidy, by decide +kernel⟩

end TagLedger.Template
