import Mathlib.Data.List.TakeDrop
import Mathlib.Tactic.Common
import TagLedger.Proofs.Markup.Brackets

/-!
The layers of open elements. A token is dropped, or kept as text of the current element, or it
starts an element or ends some. So all open elements but the innermost are containers, and only an
element of a reentrant tag is ever deep.
-/

namespace TagLedger.Markup

def endings (es : List Element) : List ElementEvent := es.map fun e => ⟨.ended, e.finalized⟩

@[simp] theorem endings_append (es fs : List Element) :
    endings (es ++ fs) = endings es ++ endings fs :=
  List.map_append

namespace Parser

variable {p : Parser}

/-- The end of the text in terms of what is flushed. -/
theorem events_finish (p : Parser) {ts : List Token} (h : (flush p.buffer).toList = ts) :
    p.finish.2 = (p.applyAll ts).2 ++ endings (p.applyAll ts).1.opened := by
  have hflush : { p with buffer := [] }.applyAll ts = _ := applyAll_withBuffer p [] ts
  rw [finish, h, hflush]
  rfl

theorem opened_of_current {e : Element} (h : p.current = some e) : p.opened = e :: p.stack := by
  simp [opened, h]

inductive Effect (p : Parser) : Token → Parser × List ElementEvent → Prop where
  /-- Nothing, outside all elements and between the children of a container. -/
  | dropped {t : Token} (houtside : ∀ e ∈ p.current, p.vocabulary.isContainer e.tag = true) :
    Effect p t (p, [])
  /-- It is text of the current element, which gets deeper only if its tag is reentrant. -/
  | kept {t : Token} {e : Element} (hcurrent : p.current = some e) (depth : Nat)
    (hdepth : depth ≤ e.depth ∨ p.vocabulary.isReentrant e.tag = true) :
    Effect p t ({ p with current := some { e with depth } }.addText t.source)
  /-- It starts an element. -/
  | started {tag raw : Text} {attributes : Attributes} {selfClosing : Bool}
    (houtside : ∀ e ∈ p.current, p.vocabulary.isContainer e.tag = true) :
    Effect p (.opening tag attributes selfClosing raw)
      (p.startElement tag attributes selfClosing)
  /-- It ends the current element, and perhaps some around it. -/
  | ended {tag raw : Text} {e : Element} (hcurrent : p.current = some e)
    (closed rest : List Element) (hstack : p.stack = closed ++ rest) :
    Effect p (.closing tag raw) ({ p with stack := rest }.pop, endings (e :: closed))

/-- Text that leaves the depth as it is. -/
theorem effect_addText {t : Token} {e : Element} (h : p.current = some e) :
    Effect p t (p.addText t.source) := by
  have hsame : { p with current := some { e with depth := e.depth } } = p := by rw [← h]
  have hkept := Effect.kept (t := t) h e.depth (.inl (Nat.le_refl _))
  rwa [hsame] at hkept

theorem effect_openTag (p : Parser) (tag : Text) (attributes : Attributes) (selfClosing : Bool)
    (raw : Text) : Effect p (.opening tag attributes selfClosing raw)
      (p.openTag tag attributes selfClosing raw) := by
  unfold openTag
  split
  · rename_i hc
    exact .started (by simp [hc])
  · rename_i e hc
    split_ifs with htag hdeep hchild
    · subst htag
      simp only [Bool.and_eq_true] at hdeep
      exact .kept hc (e.depth + 1) (.inr hdeep.1)
    · exact effect_addText (t := .opening tag attributes selfClosing raw) hc
    · refine .started fun x hx => ?_
      obtain rfl : e = x := Option.some.inj (hc.symm.trans hx)
      exact hchild
    · exact effect_addText (t := .opening tag attributes selfClosing raw) hc

theorem effect_closeTag (p : Parser) (tag raw : Text) :
    Effect p (.closing tag raw) (p.closeTag tag raw) := by
  unfold closeTag
  split
  · rename_i hc
    exact .dropped (by simp [hc])
  · rename_i e hc
    split
    · split
      · exact .kept hc (e.depth - 1) (.inl (Nat.sub_le _ _))
      · exact .ended hc [] p.stack rfl
    · split
      · split
        · rename_i hcontainer
          refine .dropped fun x hx => ?_
          obtain rfl : e = x := Option.some.inj (hc.symm.trans hx)
          exact hcontainer
        · exact effect_addText (t := .closing tag raw) hc
      · rename_i i _
        exact .ended hc (p.stack.take (i + 1)) (p.stack.drop (i + 1))
          (List.take_append_drop _ _).symm

theorem effect_apply (p : Parser) (t : Token) : Effect p t (p.apply t) := by
  cases t with
  | text t =>
    cases hc : p.current with
    | none =>
      have hsame : p.apply (.text t) = (p, []) := by simp [apply, addText, hc]
      rw [hsame]
      exact .dropped (by simp [hc])
    | some e => exact effect_addText (t := .text t) hc
  | opening name attributes selfClosing raw =>
    exact p.effect_openTag name attributes selfClosing raw
  | closing name raw => exact p.effect_closeTag name raw

end Parser

structure Lasting (v : Vocabulary) (holds : Element → Prop) : Prop where
  changes {e : Element} (content : Text) {depth : Nat}
    (hdepth : depth ≤ e.depth ∨ v.isReentrant e.tag = true) (h : holds e) :
    holds { e with content, depth }
  finalized {e : Element} (h : holds e) : holds e.finalized

/-- The element that a token can start has the property. -/
def Token.Begins (holds : Element → Prop) : Token → Prop
  | .opening name attributes _ _ => ∀ index, holds (Element.begin index name attributes)
  | _ => True

namespace Parser

variable {holds : Element → Prop} {p : Parser}

structure Throughout (holds : Element → Prop) (x : Parser × List ElementEvent) : Prop where
  opened : ∀ e ∈ x.1.opened, holds e
  events : ∀ ev ∈ x.2, holds ev.element

namespace Throughout

variable {x y : Parser × List ElementEvent}

theorem append (h : Throughout holds x) (h' : Throughout holds y) :
    Throughout holds (y.1, x.2 ++ y.2) where
  opened := h'.opened
  events := List.forall_mem_append.mpr ⟨h.events, h'.events⟩

theorem ends (hl : Lasting p.vocabulary holds) {closed : List Element} {q : Parser}
    (hclosed : ∀ e ∈ closed, holds e) (hopen : ∀ e ∈ q.opened, holds e) :
    Throughout holds (q, endings closed) := by
  constructor
  · exact hopen
  · intro ev hev
    obtain ⟨e, he, rfl⟩ := List.mem_map.mp hev
    exact hl.finalized (hclosed e he)

theorem apply (hl : Lasting p.vocabulary holds) (h : ∀ e ∈ p.opened, holds e) {t : Token}
    (ht : t.Begins holds) : Throughout holds (p.apply t) := by
  have heffect := p.effect_apply t
  generalize p.apply t = x at heffect
  cases heffect with
  | dropped houtside =>
    constructor
    · exact h
    · simp
  | @kept _ e hcurrent depth hdepth =>
    rw [opened_of_current hcurrent] at h
    obtain ⟨he, hstack⟩ := List.forall_mem_cons.mp h
    have hgrown := hl.changes (e.content ++ t.source) hdepth he
    constructor
    · exact List.forall_mem_cons.mpr ⟨hgrown, hstack⟩
    · exact List.forall_mem_singleton.mpr hgrown
  | @started tag raw attributes selfClosing houtside =>
    have hnew := ht p.nextIndex
    cases selfClosing with
    | false =>
      constructor
      · exact List.forall_mem_cons.mpr ⟨hnew, h⟩
      · exact List.forall_mem_singleton.mpr hnew
    | true =>
      have hended := hl.finalized hnew
      constructor
      · rwa [startElement, if_pos rfl, opened_pop]
      · exact List.forall_mem_cons.mpr ⟨hnew, List.forall_mem_singleton.mpr hended⟩
  | @ended tag raw e hcurrent closed rest hstack =>
    rw [opened_of_current hcurrent, hstack, ← List.cons_append] at h
    obtain ⟨hclosed, hrest⟩ := List.forall_mem_append.mp h
    exact ends hl hclosed (by rwa [opened_pop])

theorem applyAll (hl : Lasting p.vocabulary holds) (h : ∀ e ∈ p.opened, holds e)
    {ts : List Token} (hts : ∀ t ∈ ts, t.Begins holds) : Throughout holds (p.applyAll ts) := by
  induction ts generalizing p with
  | nil =>
    constructor
    · exact h
    · simp
  | cons t ts ih =>
    obtain ⟨ht, hts⟩ := List.forall_mem_cons.mp hts
    have hone := apply hl h ht
    exact hone.append (ih (by rwa [apply_vocabulary]) hone.opened hts)

theorem feed (hl : Lasting p.vocabulary holds) (h : ∀ e ∈ p.opened, holds e)
    (hread : ∀ b, ∀ t ∈ (drain p.vocabulary.names b).1, t.Begins holds) (chunk : Text) :
    Throughout holds (p.feed chunk) := by
  have hall := applyAll hl h (hread (p.buffer ++ chunk))
  rw [feed_eq p chunk rfl]
  exact ⟨hall.opened, hall.events⟩

theorem finish (hl : Lasting p.vocabulary holds) (h : ∀ e ∈ p.opened, holds e) :
    Throughout holds p.finish := by
  have htext : ∀ t ∈ (flush p.buffer).toList, t.Begins holds := by
    cases p.buffer <;> simp [flush, Token.Begins]
  have hflush := applyAll (p := p.withBuffer []) hl h htext
  have hclosed : ∀ e ∈ p.finish.1.opened, holds e := by
    simp [finish_eq_new, new, Parser.opened]
  exact hflush.append (ends hl hflush.opened hclosed)

theorem serveAll (hl : Lasting p.vocabulary holds) (h : ∀ e ∈ p.opened, holds e)
    (hread : ∀ b, ∀ t ∈ (drain p.vocabulary.names b).1, t.Begins holds) (qs : List Request) :
    Throughout holds (p.serveAll qs) := by
  induction qs generalizing p with
  | nil =>
    constructor
    · exact h
    · simp [Parser.serveAll]
  | cons q qs ih =>
    have hone : Throughout holds (p.serve q) := by
      cases q with
      | feed chunk => exact feed hl h hread chunk
      | finish => exact finish hl h
    have hv := p.serve_vocabulary q
    exact hone.append (ih (by rwa [hv]) hone.opened (by rwa [hv]))

end Throughout

end Parser

end TagLedger.Markup
