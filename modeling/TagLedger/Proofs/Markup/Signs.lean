import Mathlib.Logic.Function.Basic
import Mathlib.Tactic.Common
import TagLedger.Proofs.Markup.Chunking

/-!
What the events of one element have in common. All events of an index tell of the same tag with the
same attributes, and the element is done exactly in the event of its end. So the elements that are
done, one after the other, are those of the text, however it is cut into pieces.
-/

namespace TagLedger.Markup

def Element.Fits (sig : Nat → Text × Attributes) (bound : Nat) (e : Element) : Prop :=
  e.index < bound ∧ sig e.index = (e.tag, e.attributes)

theorem Element.Fits.update {sig : Nat → Text × Attributes} {bound : Nat} {e : Element}
    (h : e.Fits sig bound) (x : Text × Attributes) :
    e.Fits (Function.update sig bound x) (bound + 1) := by
  refine ⟨Nat.lt_succ_of_lt h.1, ?_⟩
  rw [Function.update_of_ne (Nat.ne_of_lt h.1)]
  exact h.2

namespace Parser

variable {sig : Nat → Text × Attributes} {p q : Parser} {evs more : List ElementEvent}

structure Signed (sig : Nat → Text × Attributes) (p : Parser) (evs : List ElementEvent) :
    Prop where
  opened : ∀ e ∈ p.current.toList ++ p.stack, e.Fits sig p.nextIndex ∧ e.done = false
  events : ∀ ev ∈ evs, ev.element.Fits sig p.nextIndex ∧
    ev.element.done = (ev.kind == .ended)

namespace Signed

/-- Open elements are replaced by others that fit, and events of such elements are added. -/
theorem goesOn (h : Signed sig p evs) (hindex : q.nextIndex = p.nextIndex)
    (hopen : ∀ e ∈ q.current.toList ++ q.stack, e.Fits sig p.nextIndex ∧ e.done = false)
    (hmore : ∀ ev ∈ more, ev.element.Fits sig p.nextIndex ∧
      ev.element.done = (ev.kind == .ended)) : Signed sig q (evs ++ more) := by
  refine ⟨by rwa [hindex], fun ev hev => ?_⟩
  rw [hindex]
  rcases List.mem_append.mp hev with hev | hev
  · exact h.events ev hev
  · exact hmore ev hev

theorem addText (h : Signed sig p evs) (t : Text) :
    Signed sig (p.addText t).1 (evs ++ (p.addText t).2) := by
  obtain ⟨vocabulary, buffer, current, stack, nextIndex⟩ := p
  cases current with
  | none =>
    refine h.goesOn rfl h.opened ?_
    simp [Parser.addText]
  | some e =>
    obtain ⟨hfirst, hstack⟩ := List.forall_mem_cons.mp h.opened
    refine h.goesOn rfl (List.forall_mem_cons.mpr ⟨hfirst, hstack⟩) fun ev hev => ?_
    obtain rfl := List.mem_singleton.mp hev
    exact hfirst

/-- The depth of the current element is no matter. -/
theorem deepen {e : Element} (h : Signed sig p evs) (he : p.current = some e) (depth : Nat) :
    Signed sig { p with current := some { e with depth } } evs := by
  have hopened := h.opened
  rw [he] at hopened
  obtain ⟨hfirst, hstack⟩ := List.forall_mem_cons.mp hopened
  exact ⟨List.forall_mem_cons.mpr ⟨hfirst, hstack⟩, h.events⟩

theorem startElement (h : Signed sig p evs) (tag : Text) (attributes : Attributes)
    (selfClosing : Bool) : ∃ sig', Signed sig' (p.startElement tag attributes selfClosing).1
      (evs ++ (p.startElement tag attributes selfClosing).2) := by
  refine ⟨Function.update sig p.nextIndex (tag, attributes), ?_⟩
  have hnew : (Element.begin p.nextIndex tag attributes).Fits
      (Function.update sig p.nextIndex (tag, attributes)) (p.nextIndex + 1) :=
    ⟨Nat.lt_succ_self _, Function.update_self _ _ _⟩
  have hopened : ∀ e ∈ p.current.toList ++ p.stack,
      e.Fits (Function.update sig p.nextIndex (tag, attributes)) (p.nextIndex + 1) ∧
        e.done = false :=
    fun e he => ⟨(h.opened e he).1.update _, (h.opened e he).2⟩
  have hevents : ∀ ev ∈ evs,
      ev.element.Fits (Function.update sig p.nextIndex (tag, attributes)) (p.nextIndex + 1) ∧
        ev.element.done = (ev.kind == .ended) :=
    fun ev hev => ⟨(h.events ev hev).1.update _, (h.events ev hev).2⟩
  cases selfClosing with
  | true =>
    refine ⟨fun e he => hopened e ?_, fun ev hev => ?_⟩
    · have hsame : ((p.startElement tag attributes true).1.current.toList ++
          (p.startElement tag attributes true).1.stack) = p.current.toList ++ p.stack := by
        simp only [Parser.startElement, if_true, pop]
        cases p.current.toList ++ p.stack <;> rfl
      rwa [hsame] at he
    · rcases List.mem_append.mp hev with hev | hev
      · exact hevents ev hev
      · simp only [Parser.startElement, if_true, List.mem_cons, List.not_mem_nil, or_false] at hev
        rcases hev with rfl | rfl
        · exact ⟨hnew, rfl⟩
        · exact ⟨hnew, rfl⟩
  | false =>
    refine ⟨List.forall_mem_cons.mpr ⟨⟨hnew, rfl⟩, hopened⟩, fun ev hev => ?_⟩
    rcases List.mem_append.mp hev with hev | hev
    · exact hevents ev hev
    · obtain rfl := List.mem_singleton.mp hev
      exact ⟨hnew, rfl⟩

theorem openTag (h : Signed sig p evs) (tag : Text) (attributes : Attributes)
    (selfClosing : Bool) (raw : Text) :
    ∃ sig', Signed sig' (p.openTag tag attributes selfClosing raw).1
      (evs ++ (p.openTag tag attributes selfClosing raw).2) := by
  unfold Parser.openTag
  split
  · exact h.startElement tag attributes selfClosing
  · rename_i e he
    split
    · split
      · exact ⟨sig, (h.deepen he _).addText raw⟩
      · exact ⟨sig, h.addText raw⟩
    · split
      · exact h.startElement tag attributes selfClosing
      · exact ⟨sig, h.addText raw⟩

/-- Open elements that end leave some of the others open. -/
theorem ends (h : Signed sig p evs) (hindex : q.nextIndex = p.nextIndex)
    {closed : List Element} (hclosed : ∀ e ∈ closed, e ∈ p.current.toList ++ p.stack)
    (hopen : ∀ e ∈ q.current.toList ++ q.stack, e ∈ p.current.toList ++ p.stack) :
    Signed sig q (evs ++ closed.map fun e => ⟨.ended, e.finalized⟩) := by
  refine h.goesOn hindex (fun e he => h.opened e (hopen e he)) fun ev hev => ?_
  obtain ⟨e, he, rfl⟩ := List.mem_map.mp hev
  exact ⟨(h.opened e (hclosed e he)).1, rfl⟩

theorem mem_pop {e : Element} (he : e ∈ p.pop.current.toList ++ p.pop.stack) : e ∈ p.stack := by
  obtain ⟨vocabulary, buffer, current, stack, nextIndex⟩ := p
  cases stack with
  | nil => simp [pop] at he
  | cons x stack => simpa [pop] using he

theorem closeTag (h : Signed sig p evs) (tag raw : Text) :
    Signed sig (p.closeTag tag raw).1 (evs ++ (p.closeTag tag raw).2) := by
  have hnothing : Signed sig p (evs ++ []) := by rwa [List.append_nil]
  unfold Parser.closeTag
  split
  · exact hnothing
  · rename_i e he
    have hopened {x : Element} (hx : x = e ∨ x ∈ p.stack) :
        x ∈ p.current.toList ++ p.stack := by
      rw [he]
      exact List.mem_cons.mpr hx
    split
    · split
      · exact (h.deepen he _).addText raw
      · have hclosed : ∀ x ∈ [e], x ∈ p.current.toList ++ p.stack :=
          fun x hx => hopened (.inl (List.mem_singleton.mp hx))
        exact h.ends (q := p.pop) rfl hclosed fun x hx => hopened (.inr (mem_pop hx))
    · split
      · split
        · exact hnothing
        · exact h.addText raw
      · rename_i i _
        have hclosed : ∀ x ∈ e :: p.stack.take (i + 1), x ∈ p.current.toList ++ p.stack := by
          intro x hx
          rcases List.mem_cons.mp hx with rfl | hx
          · exact hopened (.inl rfl)
          · exact hopened (.inr (List.mem_of_mem_take hx))
        exact h.ends (q := { p with stack := p.stack.drop (i + 1) }.pop) rfl hclosed fun x hx =>
          hopened (.inr (List.mem_of_mem_drop (mem_pop hx)))

theorem apply (h : Signed sig p evs) (t : Token) :
    ∃ sig', Signed sig' (p.apply t).1 (evs ++ (p.apply t).2) := by
  cases t with
  | text t => exact ⟨sig, h.addText t⟩
  | opening name attributes selfClosing raw => exact h.openTag name attributes selfClosing raw
  | closing name raw => exact ⟨sig, h.closeTag name raw⟩

theorem applyAll (h : Signed sig p evs) (ts : List Token) :
    ∃ sig', Signed sig' (p.applyAll ts).1 (evs ++ (p.applyAll ts).2) := by
  induction ts generalizing sig p evs with
  | nil => exact ⟨sig, by rwa [applyAll_nil, List.append_nil]⟩
  | cons t ts ih =>
    obtain ⟨sig', h⟩ := h.apply t
    obtain ⟨sig'', h⟩ := ih h
    refine ⟨sig'', ?_⟩
    rwa [applyAll_cons, ← List.append_assoc]

theorem withBuffer (h : Signed sig p evs) (b : Text) : Signed sig (p.withBuffer b) evs :=
  ⟨h.opened, h.events⟩

theorem feed (h : Signed sig p evs) (chunk : Text) :
    ∃ sig', Signed sig' (p.feed chunk).1 (evs ++ (p.feed chunk).2) := by
  obtain ⟨sig', h⟩ := h.applyAll (drain p.vocabulary.names (p.buffer ++ chunk)).1
  refine ⟨sig', ?_⟩
  rw [feed_eq p chunk rfl]
  exact h.withBuffer _

theorem feedAll (h : Signed sig p evs) (chunks : List Text) :
    ∃ sig', Signed sig' (p.feedAll chunks).1 (evs ++ (p.feedAll chunks).2) := by
  induction chunks generalizing sig p evs with
  | nil => exact ⟨sig, by rwa [Parser.feedAll, List.append_nil]⟩
  | cons c chunks ih =>
    obtain ⟨sig', h⟩ := h.feed c
    obtain ⟨sig'', h⟩ := ih h
    refine ⟨sig'', ?_⟩
    rwa [Parser.feedAll, ← List.append_assoc]

theorem finish (h : Signed sig p evs) :
    ∃ sig', Signed sig' p.finish.1 (evs ++ p.finish.2) := by
  obtain ⟨sig', h⟩ := (h.withBuffer []).applyAll (flush p.buffer).toList
  refine ⟨sig', ?_⟩
  have hall := h.ends (q := p.finish.1) rfl (fun e he => he) (by simp [Parser.finish])
  rwa [List.append_assoc] at hall

end Signed

theorem signed_new (v : Vocabulary) (firstIndex : Nat) :
    Signed (fun _ => ([], [])) (new v firstIndex) [] :=
  ⟨by simp [new], by simp⟩

/-- The events of pieces of text and of its end. -/
def events (p : Parser) (chunks : List Text) : List ElementEvent :=
  (p.feedAll chunks).2 ++ (p.feedAll chunks).1.finish.2

theorem events_cons (p : Parser) (c : Text) (chunks : List Text) :
    p.events (c :: chunks) = (p.feed c).2 ++ (p.feed c).1.events chunks :=
  List.append_assoc _ _ _

end Parser

def doneElements (events : List ElementEvent) : List Element :=
  (events.map (·.element)).filter (·.done)

@[simp] theorem doneElements_append (xs ys : List ElementEvent) :
    doneElements (xs ++ ys) = doneElements xs ++ doneElements ys := by
  rw [doneElements, List.map_append, List.filter_append]
  rfl

/-- Elements are done when they end, so that the starts and ends tell which are. -/
theorem doneElements_boundaries {events : List ElementEvent}
    (h : ∀ ev ∈ events, ev.element.done = (ev.kind == .ended)) :
    doneElements (boundaries events) = doneElements events := by
  induction events with
  | nil => rfl
  | cons ev events ih =>
    obtain ⟨hfirst, hrest⟩ := List.forall_mem_cons.mp h
    have ih := ih hrest
    rw [← List.singleton_append, boundaries_append, doneElements_append, doneElements_append, ih]
    congr 1
    cases hkind : ev.kind with
    | started => simp [boundaries, hkind]
    | ended => simp [boundaries, hkind]
    | grew =>
      have hopen : ev.element.done = false := by rw [hfirst, hkind]; rfl
      simp [boundaries, doneElements, hkind, hopen]

namespace Parser

/-- All events of a text, from its beginning to its end, agree with one table, and an element is
done when it ends. -/
theorem exists_signs (v : Vocabulary) (firstIndex : Nat) (chunks : List Text) :
    ∃ sig : Nat → Text × Attributes, ∀ ev ∈ (new v firstIndex).events chunks,
      sig ev.element.index = (ev.element.tag, ev.element.attributes) ∧
        ev.element.done = (ev.kind == .ended) := by
  obtain ⟨sig, h⟩ := (signed_new v firstIndex).feedAll chunks
  obtain ⟨sig', h⟩ := h.finish
  rw [List.nil_append] at h
  exact ⟨sig', fun ev hev => ⟨(h.events ev hev).1.2, (h.events ev hev).2⟩⟩

/-- The pieces of a text start and end the elements that the whole text does. -/
theorem boundaries_events (v : Vocabulary) (firstIndex : Nat) (chunks : List Text) :
    boundaries ((new v firstIndex).events chunks) =
      boundaries ((new v firstIndex).events [chunks.flatten]) := by
  obtain ⟨hparser, hevents⟩ := feedAll_agree_flatten (settled_new v firstIndex) chunks
  rw [events_cons, events, boundaries_append, boundaries_append, hparser, hevents]
  rfl

/-- Two cuttings of one text lead to the same elements. -/
theorem doneElements_events (v : Vocabulary) (firstIndex : Nat) {cs ds : List Text}
    (h : cs.flatten = ds.flatten) :
    doneElements ((new v firstIndex).events cs) = doneElements ((new v firstIndex).events ds) := by
  have hended (chunks : List Text) : ∀ ev ∈ (new v firstIndex).events chunks,
      ev.element.done = (ev.kind == .ended) := by
    obtain ⟨_, hsigns⟩ := exists_signs v firstIndex chunks
    exact fun ev hev => (hsigns ev hev).2
  rw [← doneElements_boundaries (hended cs), ← doneElements_boundaries (hended ds),
    boundaries_events v firstIndex cs, boundaries_events v firstIndex ds, h]

end Parser

end TagLedger.Markup
