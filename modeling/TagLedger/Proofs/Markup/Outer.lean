import TagLedger.Proofs.Markup.Layers

/-!
The close tag of an outer element. It ends everything opened inside the nearest element of its name,
the innermost first, and then that element, however deep it is. A close tag of the innermost element
would only take a deep one a step back. The two agree for all tags but those of containers that are
reentrant as well: no other element is both deep and around another.
-/

namespace TagLedger.Markup

namespace Nesting

variable {v : Vocabulary} {n n' : Nesting} {evs : List ElementEvent}

/-- Elements start inside containers only. -/
theorem Step.outer_containers {ev : ElementEvent} (h : Step v n ev n')
    (hn : ∀ e ∈ n.opened.tail, v.isContainer e.tag = true) :
    ∀ e ∈ n'.opened.tail, v.isContainer e.tag = true := by
  cases h with
  | @started opened next tag attributes hinside =>
    cases opened with
    | nil => simp
    | cons e opened => exact List.forall_mem_cons.mpr ⟨(hinside e rfl).1, hn⟩
  | grew e opened next t depth => exact hn
  | ended e opened next => exact fun x hx => hn x (List.mem_of_mem_tail hx)

theorem Trace.outer_containers (h : Trace v n evs n')
    (hn : ∀ e ∈ n.opened.tail, v.isContainer e.tag = true) :
    ∀ e ∈ n'.opened.tail, v.isContainer e.tag = true := by
  induction h with
  | nil n => exact hn
  | cons hs _ ih => exact ih (hs.outer_containers hn)

end Nesting

def Element.DeepIfReentrant (v : Vocabulary) (e : Element) : Prop :=
  0 < e.depth → v.isReentrant e.tag = true

theorem lasting_deepIfReentrant (v : Vocabulary) : Lasting v (Element.DeepIfReentrant v) where
  changes := by
    intro e content depth hdepth h hpos
    rcases hdepth with hle | hreentrant
    · exact h (Nat.lt_of_lt_of_le hpos hle)
    · exact hreentrant
  finalized h := h

theorem Token.begins_deepIfReentrant (v : Vocabulary) (t : Token) :
    t.Begins (Element.DeepIfReentrant v) := by
  cases t with
  | opening name attributes selfClosing raw =>
    intro index hpos
    exact absurd hpos (Nat.lt_irrefl 0)
  | text t => trivial
  | closing name raw => trivial

namespace Parser

variable {v : Vocabulary} {p : Parser}

/-- What a new parser can be between any two tokens, whatever is asked of it. -/
def Reached (v : Vocabulary) (p : Parser) : Prop :=
  ∃ first qs ts b, p = (((new v first).serveAll qs).1.applyAll ts).1.withBuffer b

namespace Reached

theorem vocabulary_eq (h : Reached v p) : p.vocabulary = v := by
  obtain ⟨first, qs, ts, b, rfl⟩ := h
  simp [new]

theorem traces (h : Reached v p) :
    ∃ first evs, p.Rooted ∧ Nesting.Trace v ⟨[], first⟩ evs p.nesting := by
  obtain ⟨first, qs, ts, b, rfl⟩ := h
  have hserved : Traces (new v first) ((new v first).serveAll qs) :=
    traces_serveAll (fun _ => rfl) qs
  have hall := hserved.append (by simp) (traces_applyAll hserved.rooted ts)
  exact ⟨first, _, hall.rooted, hall.trace⟩

/-- Only containers stand around an element. -/
theorem stack_containers (h : Reached v p) : ∀ e ∈ p.stack, v.isContainer e.tag = true := by
  obtain ⟨first, evs, hrooted, htrace⟩ := h.traces
  have houter := htrace.outer_containers (by simp)
  cases hc : p.current with
  | none => simp [hrooted hc]
  | some e => simpa [nesting, opened_of_current hc] using houter

theorem deepIfReentrant (h : Reached v p) : ∀ e ∈ p.opened, e.DeepIfReentrant v := by
  obtain ⟨first, qs, ts, b, rfl⟩ := h
  have hl := lasting_deepIfReentrant v
  have hserved := Throughout.serveAll (p := new v first) hl (by simp [new, opened])
    (fun _ t _ => t.begins_deepIfReentrant v) qs
  have hv : ((new v first).serveAll qs).1.vocabulary = v := by simp [new]
  have hall : Throughout (Element.DeepIfReentrant v)
      (((new v first).serveAll qs).1.applyAll ts) :=
    Throughout.applyAll (hv.symm ▸ hl) hserved.opened fun t _ => t.begins_deepIfReentrant v
  exact hall.opened

end Reached

/-- The parser back in an outer element, when all elements inside that one have ended. -/
def backTo (p : Parser) (a : Element) (outer : List Element) : Parser :=
  { p with current := some a, stack := outer }

variable {e a : Element} {inner outer : List Element}

theorem closeTag_outer (hcurrent : p.current = some e) (he : e.tag ≠ a.tag)
    (hstack : p.stack = inner ++ a :: outer) (hinner : ∀ x ∈ inner, x.tag ≠ a.tag) (raw : Text) :
    p.closeTag a.tag raw = ((p.backTo a outer).pop, endings (e :: inner) ++ endings [a]) := by
  have hfirst : p.stack.findIdx? (·.tag == a.tag) = some inner.length := by
    have hno : inner.findIdx? (·.tag == a.tag) = none := by simpa using hinner
    simp [hstack, List.findIdx?_append, List.findIdx?_cons, hno]
  simp only [closeTag, hcurrent, if_neg he, hfirst]
  rw [hstack, List.append_cons, List.take_left' (by simp), List.drop_left' (by simp),
    ← endings_append]
  rfl

/-- The close tag of an element that is not deep. -/
theorem closeTag_current (ha : a.depth = 0) (raw : Text) :
    (p.backTo a outer).closeTag a.tag raw = ((p.backTo a outer).pop, endings [a]) := by
  simp [closeTag, backTo, ha, endings]

/-- A close tag whose name an outer element has and the current one has not. All elements inside the
nearest such element end, and that element ends too. If it is not deep, this is what the close tag
does to it when it is the current one; it is deep only if its tag is a container's and reentrant. -/
theorem closing_outer_ends (hp : Reached v p) (hcurrent : p.current = some e) (he : e.tag ≠ a.tag)
    (hstack : p.stack = inner ++ a :: outer) (hinner : ∀ x ∈ inner, x.tag ≠ a.tag) (raw : Text) :
    let q := p.backTo a outer
    let close := Token.closing a.tag raw
    p.apply close = (q.pop, endings (e :: inner) ++ endings [a]) ∧
      (a.depth = 0 →
        p.apply close = ((q.apply close).1, endings (e :: inner) ++ (q.apply close).2)) ∧
      (0 < a.depth → v.isContainer a.tag = true ∧ v.isReentrant a.tag = true) := by
  intro q close
  have hends := closeTag_outer hcurrent he hstack hinner raw
  have hmem : a ∈ p.stack := by simp [hstack]
  have hopened : a ∈ p.opened := by simp [opened, hmem]
  refine ⟨hends, ?_, ?_⟩
  · intro hflat
    have hlast : q.apply close = (q.pop, endings [a]) := closeTag_current hflat raw
    rw [hlast]
    exact hends
  · intro hdeep
    exact ⟨hp.stack_containers a hmem, hp.deepIfReentrant a hopened hdeep⟩

/-- A note in a row is left open when the box around them is closed. -/
theorem closing_outer_ends_box_with_row :
    let v : Vocabulary := [⟨"box".toList, true, true⟩, ⟨"row".toList, false, true⟩,
      ⟨"note".toList, true, false⟩]
    let p := ((new v 0).feed "<box>a<row>b<note>c<note>".toList).1
    let note : Element := ⟨2, "note".toList, [], "c<note>".toList, false, 1⟩
    let row : Element := ⟨1, "row".toList, [], "b".toList, false, 0⟩
    let box : Element := ⟨0, "box".toList, [], "a".toList, false, 0⟩
    let q := p.backTo box []
    let close := Token.closing "box".toList "</box>".toList
    (Reached v p ∧ p.current = some note ∧ note.tag ≠ box.tag ∧ p.stack = [row] ++ box :: [] ∧
        ∀ x ∈ [row], x.tag ≠ box.tag) ∧
      p.apply close = (q.pop, endings [note, row] ++ endings [box]) ∧
      (box.depth = 0 →
        p.apply close = ((q.apply close).1, endings [note, row] ++ (q.apply close).2)) ∧
      (0 < box.depth → v.isContainer box.tag = true ∧ v.isReentrant box.tag = true) := by
  intro v p note row box q close
  have hp : Reached v p := ⟨0, [.feed "<box>a<row>b<note>c<note>".toList], [], p.buffer, rfl⟩
  have hcurrent : p.current = some note := by decide +kernel
  have hnote : note.tag ≠ box.tag := by decide
  have hstack : p.stack = [row] ++ box :: [] := by decide +kernel
  have hrow : ∀ x ∈ [row], x.tag ≠ box.tag := by decide
  exact ⟨⟨hp, hcurrent, hnote, hstack, hrow⟩,
    closing_outer_ends hp hcurrent hnote hstack hrow "</box>".toList⟩

/-- A box that has been opened twice and closed once ends all the same, when a note in it is left
open. As the current element it would have stayed open. -/
theorem deep_outer_element_ends :
    let v : Vocabulary := [⟨"box".toList, true, true⟩, ⟨"note".toList, false, false⟩]
    let p := ((new v 0).feed "<box><box><note>x".toList).1
    let note : Element := ⟨1, "note".toList, [], "x".toList, false, 0⟩
    let box : Element := ⟨0, "box".toList, [], "<box>".toList, false, 1⟩
    let q := p.backTo box []
    let close := Token.closing "box".toList "</box>".toList
    Reached v p ∧ p.current = some note ∧ p.stack = [box] ∧
      (q.apply close).1.current =
        some { box with content := "<box></box>".toList, depth := 0 } ∧
      (p.apply close).1.current = none ∧
      p.apply close ≠ ((q.apply close).1, endings [note] ++ (q.apply close).2) := by
  intro v p note box q close
  have hp : Reached v p := ⟨0, [.feed "<box><box><note>x".toList], [], p.buffer, rfl⟩
  have hstays : (q.apply close).1.current =
      some { box with content := "<box></box>".toList, depth := 0 } := by decide +kernel
  have hends : (p.apply close).1.current = none := by decide +kernel
  refine ⟨hp, by decide +kernel, by decide +kernel, hstays, hends, ?_⟩
  intro hsame
  rw [hsame, hstays] at hends
  cases hends

end Parser

end TagLedger.Markup
