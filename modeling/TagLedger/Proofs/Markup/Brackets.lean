import Mathlib.Data.List.Perm.Basic
import Mathlib.Tactic.Common
import TagLedger.Proofs.Markup.Chunking

/-!
The events of a parser are a trace of brackets. Elements that have started and not ended form a
stack, and every event concerns its top: a new element is put on it, the innermost one grows, or it
ends. The end of the text empties the stack, and the parser is then as good as new.
-/

namespace TagLedger.Markup

/-- The elements that are open, the innermost first, and the index of the next one to start. -/
structure Nesting where
  opened : List Element
  next : Nat

namespace Nesting

inductive Step (v : Vocabulary) : Nesting → ElementEvent → Nesting → Prop where
  /-- An element starts outside all others, or inside a container of another name. -/
  | started {opened : List Element} {next : Nat} {tag : Text} (attributes : Attributes)
    (hinside : ∀ e ∈ opened.head?, v.isContainer e.tag = true ∧ e.tag ≠ tag) :
    Step v ⟨opened, next⟩ ⟨.started, Element.begin next tag attributes⟩
      ⟨Element.begin next tag attributes :: opened, next + 1⟩
  /-- Some text is added to the innermost element. -/
  | grew (e : Element) (opened : List Element) (next : Nat) (t : Text) (depth : Nat) :
    Step v ⟨e :: opened, next⟩ ⟨.grew, { e with content := e.content ++ t, depth }⟩
      ⟨{ e with content := e.content ++ t, depth } :: opened, next⟩
  /-- The innermost element ends as it is. -/
  | ended (e : Element) (opened : List Element) (next : Nat) :
    Step v ⟨e :: opened, next⟩ ⟨.ended, e.finalized⟩ ⟨opened, next⟩

inductive Trace (v : Vocabulary) : Nesting → List ElementEvent → Nesting → Prop where
  | nil (n : Nesting) : Trace v n [] n
  | cons {n n' n'' : Nesting} {ev : ElementEvent} {evs : List ElementEvent}
    (hs : Step v n ev n') (ht : Trace v n' evs n'') : Trace v n (ev :: evs) n''

variable {v : Vocabulary} {n n' n'' : Nesting} {evs evs' : List ElementEvent}

theorem Trace.append (h : Trace v n evs n') (h' : Trace v n' evs' n'') :
    Trace v n (evs ++ evs') n'' := by
  induction h with
  | nil n => exact h'
  | cons hs _ ih => exact .cons hs (ih h')

theorem Trace.single {ev : ElementEvent} (hs : Step v n ev n') : Trace v n [ev] n' :=
  .cons hs (.nil n')

/-- Open elements end from the innermost outwards. -/
theorem Trace.ends (v : Vocabulary) (closed opened : List Element) (next : Nat) :
    Trace v ⟨closed ++ opened, next⟩ (closed.map fun e => ⟨.ended, e.finalized⟩)
      ⟨opened, next⟩ := by
  induction closed with
  | nil => exact .nil _
  | cons e closed ih => exact .cons (.ended e _ next) ih

structure Sound (n : Nesting) : Prop where
  pending : ∀ e ∈ n.opened, e.done = false
  descending : n.opened.Pairwise fun a b => b.index < a.index
  below : ∀ e ∈ n.opened, e.index < n.next

theorem sound_empty (next : Nat) : Sound ⟨[], next⟩ := ⟨by simp, .nil, by simp⟩

theorem Step.sound {ev : ElementEvent} (h : Step v n ev n') (hn : n.Sound) : n'.Sound := by
  obtain ⟨hpending, hdescending, hbelow⟩ := hn
  cases h with
  | @started opened next tag attributes hinside =>
    refine ⟨?_, List.pairwise_cons.mpr ⟨hbelow, hdescending⟩, ?_⟩
    · exact List.forall_mem_cons.mpr ⟨rfl, hpending⟩
    · refine List.forall_mem_cons.mpr ⟨Nat.lt_succ_self next, ?_⟩
      intro e he
      exact Nat.lt_succ_of_lt (hbelow e he)
  | grew e opened next t depth =>
    simp only [List.forall_mem_cons, List.pairwise_cons] at hpending hdescending hbelow
    exact ⟨List.forall_mem_cons.mpr hpending, List.pairwise_cons.mpr hdescending,
      List.forall_mem_cons.mpr hbelow⟩
  | ended e opened next =>
    simp only [List.forall_mem_cons, List.pairwise_cons] at hpending hdescending hbelow
    exact ⟨hpending.2, hdescending.2, hbelow.2⟩

/-- What is open after an event: the element of the event, unless it is done, and others that were
open before. -/
theorem Step.opened_after {ev : ElementEvent} (h : Step v n ev n') (hn : n.Sound) :
    ∀ y ∈ n'.opened, (y = ev.element ∧ y.done = false) ∨
      (y ∈ n.opened ∧ y.index ≠ ev.element.index) := by
  have hafter := (h.sound hn).pending
  obtain ⟨-, hdescending, hbelow⟩ := hn
  intro y hy
  have hdone := hafter y hy
  cases h with
  | started attributes hinside =>
    rcases List.mem_cons.mp hy with rfl | hy
    · exact .inl ⟨rfl, hdone⟩
    · exact .inr ⟨hy, (hbelow y hy).ne⟩
  | grew e opened next t depth =>
    rcases List.mem_cons.mp hy with rfl | hy
    · exact .inl ⟨rfl, hdone⟩
    · exact .inr ⟨List.mem_cons_of_mem _ hy, (List.rel_of_pairwise_cons hdescending hy).ne⟩
  | ended e opened next =>
    exact .inr ⟨List.mem_cons_of_mem _ hy, (List.rel_of_pairwise_cons hdescending hy).ne⟩

/-- An event starts an element with the next index, or goes on with one that is open. -/
theorem Step.starts_or_goes_on {ev : ElementEvent} (h : Step v n ev n') :
    (ev.kind = .started ∧ ev.element.done = false ∧ ev.element.index = n.next ∧
        n'.next = n.next + 1) ∨
      (ev.kind ≠ .started ∧ n'.next = n.next ∧ ∃ x ∈ n.opened, ev.element.index = x.index ∧
        ev.element.tag = x.tag ∧ ev.element.attributes = x.attributes ∧
          x.content <+: ev.element.content) := by
  cases h with
  | started attributes hinside => exact .inl ⟨rfl, rfl, rfl, rfl⟩
  | grew e opened next t depth =>
    exact .inr ⟨by simp, rfl, e, List.mem_cons_self, rfl, rfl, rfl, List.prefix_append _ _⟩
  | ended e opened next =>
    exact .inr ⟨by simp, rfl, e, List.mem_cons_self, rfl, rfl, rfl, List.prefix_refl _⟩

end Nesting

/-- The indices of the events of one kind, in their order. -/
def indicesOf (kind : EventKind) (evs : List ElementEvent) : List Nat :=
  (evs.filter (·.kind == kind)).map (·.element.index)

@[simp] theorem indicesOf_nil (kind : EventKind) : indicesOf kind [] = [] := rfl

@[simp] theorem indicesOf_cons (kind : EventKind) (ev : ElementEvent) (evs : List ElementEvent) :
    indicesOf kind (ev :: evs) =
      (if ev.kind = kind then [ev.element.index] else []) ++ indicesOf kind evs := by
  by_cases h : ev.kind = kind
  · simp [indicesOf, h]
  · simp [indicesOf, h]

/-- Events that begin with nothing open and the index `first`. -/
structure WellBracketed (v : Vocabulary) (first : Nat) (evs : List ElementEvent) (n : Nesting) :
    Prop where
  trace : Nesting.Trace v ⟨[], first⟩ evs n
  /-- The elements are numbered in the order of their starts, without a gap. -/
  starts : indicesOf .started evs = List.range' first (n.next - first)
  /-- An element that has started has ended, and only once, or else it is open. -/
  ends : (indicesOf .started evs).Perm (indicesOf .ended evs ++ n.opened.map (·.index))

namespace Nesting.Trace

variable {v : Vocabulary} {n n' : Nesting} {evs : List ElementEvent}

theorem next_le (h : Trace v n evs n') : n.next ≤ n'.next := by
  induction h with
  | nil n => exact Nat.le_refl _
  | cons hs _ ih =>
    cases hs with
    | started attributes hinside => exact Nat.le_of_succ_le ih
    | grew e opened next t depth => exact ih
    | ended e opened next => exact ih

theorem indicesOf_started (h : Trace v n evs n') :
    indicesOf .started evs = List.range' n.next (n'.next - n.next) := by
  induction h with
  | nil n => simp
  | @cons n n' n'' ev evs hs ht ih =>
    have hle := ht.next_le
    cases hs with
    | @started opened next tag attributes hinside =>
      have hcount : n''.next - next = (n''.next - (next + 1)) + 1 := by
        dsimp only at hle
        omega
      rw [indicesOf_cons, ih, hcount, List.range'_succ]
      simp [Element.begin]
    | grew e opened next t depth => simp [ih]
    | ended e opened next => simp [ih]

/-- What is open before and what starts is, taken together, what ends and what is open after. -/
theorem perm_indices (h : Trace v n evs n') :
    (n.opened.map (·.index) ++ indicesOf .started evs).Perm
      (indicesOf .ended evs ++ n'.opened.map (·.index)) := by
  induction h with
  | nil n => simp
  | @cons n n' n'' ev evs hs ht ih =>
    cases hs with
    | @started opened next tag attributes hinside =>
      have hmove : (opened.map (·.index) ++ next :: indicesOf .started evs).Perm
          (next :: (opened.map (·.index) ++ indicesOf .started evs)) := List.perm_middle
      simpa [Element.begin] using hmove.trans ih
    | grew e opened next t depth => simpa using ih
    | ended e opened next => simpa [Element.finalized] using ih.cons e.index

theorem wellBracketed {first : Nat} (h : Trace v ⟨[], first⟩ evs n) :
    WellBracketed v first evs n where
  trace := h
  starts := h.indicesOf_started
  ends := by simpa using h.perm_indices

end Nesting.Trace

namespace Parser

variable {p : Parser}

/-- The open elements of a parser, the innermost first. -/
def opened (p : Parser) : List Element := p.current.toList ++ p.stack

def nesting (p : Parser) : Nesting := ⟨p.opened, p.nextIndex⟩

/-- Elements are stacked around a current one only. -/
def Rooted (p : Parser) : Prop := p.current = none → p.stack = []

@[simp] theorem nextIndex_pop (p : Parser) : p.pop.nextIndex = p.nextIndex := rfl

@[simp] theorem opened_pop (p : Parser) : p.pop.opened = p.stack := by
  cases h : p.stack <;> simp [opened, pop, h]

theorem rooted_pop (p : Parser) : p.pop.Rooted := by
  intro h
  cases hs : p.stack with
  | nil => simp [pop, hs]
  | cons e stack => simp [pop, hs] at h

theorem rooted_of_current {e : Element} (h : p.current = some e) : p.Rooted := by
  intro hnone
  simp [h] at hnone

structure Traces (p : Parser) (x : Parser × List ElementEvent) : Prop where
  rooted : x.1.Rooted
  trace : Nesting.Trace p.vocabulary p.nesting x.2 x.1.nesting

/-- Text for the current element, which may have got deeper or less deep with it. -/
theorem traces_addText_at {e : Element} (h : p.current = some e) (t : Text) (depth : Nat) :
    Traces p ({ p with current := some { e with depth } }.addText t) where
  rooted := rooted_of_current rfl
  trace := by
    have hgrew := Nesting.Step.grew (v := p.vocabulary) e p.stack p.nextIndex t depth
    simpa [nesting, opened, h, addText] using Nesting.Trace.single hgrew

theorem traces_addText (h : p.Rooted) (t : Text) : Traces p (p.addText t) := by
  cases hc : p.current with
  | none =>
    have hsame : p.addText t = (p, []) := by simp [addText, hc]
    rw [hsame]
    exact ⟨h, .nil _⟩
  | some e =>
    have htext := traces_addText_at hc t e.depth
    rwa [show { p with current := some { e with depth := e.depth } } = p by rw [← hc]] at htext

theorem traces_startElement {tag : Text}
    (hinside : ∀ e ∈ p.opened.head?, p.vocabulary.isContainer e.tag = true ∧ e.tag ≠ tag)
    (attributes : Attributes) (selfClosing : Bool) :
    Traces p (p.startElement tag attributes selfClosing) := by
  have hstart : Nesting.Step p.vocabulary ⟨p.opened, p.nextIndex⟩ _ _ :=
    Nesting.Step.started attributes hinside
  cases selfClosing with
  | false => exact ⟨rooted_of_current rfl, .single hstart⟩
  | true =>
    refine ⟨rooted_pop _, .cons hstart (.single ?_)⟩
    have hended := Nesting.Step.ended (v := p.vocabulary)
      (Element.begin p.nextIndex tag attributes) p.opened (p.nextIndex + 1)
    simp only [startElement, ↓reduceIte, nesting, opened_pop, nextIndex_pop]
    exact hended

theorem traces_openTag (h : p.Rooted) (tag : Text) (attributes : Attributes) (selfClosing : Bool)
    (raw : Text) : Traces p (p.openTag tag attributes selfClosing raw) := by
  cases hc : p.current with
  | none =>
    have hnone : ∀ e ∈ p.opened.head?, p.vocabulary.isContainer e.tag = true ∧ e.tag ≠ tag := by
      simp [opened, hc, h hc]
    simpa [openTag, hc] using traces_startElement hnone attributes selfClosing
  | some e =>
    simp only [openTag, hc]
    by_cases htag : e.tag = tag
    · by_cases hdeep : (p.vocabulary.isReentrant tag && !selfClosing) = true
      · simpa [htag, hdeep] using traces_addText_at hc raw (e.depth + 1)
      · simpa [htag, hdeep] using traces_addText h raw
    · by_cases hchild : p.vocabulary.isContainer e.tag = true
      · have hinside : ∀ x ∈ p.opened.head?, p.vocabulary.isContainer x.tag = true ∧
            x.tag ≠ tag := by
          simp [opened, hc, hchild, htag]
        simpa [htag, hchild] using traces_startElement hinside attributes selfClosing
      · simpa [htag, hchild] using traces_addText h raw

theorem traces_closeTag (h : p.Rooted) (tag raw : Text) : Traces p (p.closeTag tag raw) := by
  cases hc : p.current with
  | none => simpa [closeTag, hc] using ⟨h, .nil _⟩
  | some e =>
    have hopened : p.opened = e :: p.stack := by simp [opened, hc]
    simp only [closeTag, hc]
    by_cases htag : e.tag = tag
    · by_cases hdeep : 0 < e.depth
      · simpa [htag, hdeep] using traces_addText_at hc raw (e.depth - 1)
      · simp only [htag, hdeep, ↓reduceIte]
        refine ⟨rooted_pop p, ?_⟩
        have hends := Nesting.Trace.ends p.vocabulary [e] p.stack p.nextIndex
        simpa [nesting, hopened] using hends
    · simp only [htag, ↓reduceIte]
      cases p.stack.findIdx? (·.tag == tag) with
      | none =>
        by_cases hignored : p.vocabulary.isContainer e.tag = true
        · simpa [hignored] using ⟨h, .nil _⟩
        · simpa [hignored] using traces_addText h raw
      | some i =>
        refine ⟨rooted_pop _, ?_⟩
        have hends := Nesting.Trace.ends p.vocabulary (e :: p.stack.take (i + 1))
          (p.stack.drop (i + 1)) p.nextIndex
        simpa [nesting, hopened] using hends

theorem traces_apply (h : p.Rooted) (t : Token) : Traces p (p.apply t) := by
  cases t with
  | text t => exact traces_addText h t
  | opening name attributes selfClosing raw =>
    exact traces_openTag h name attributes selfClosing raw
  | closing name raw => exact traces_closeTag h name raw

/-- Traces of consecutive parts of the text make up one trace. -/
theorem Traces.append {x y : Parser × List ElementEvent} (h : Traces p x)
    (hv : x.1.vocabulary = p.vocabulary) (h' : Traces x.1 y) : Traces p (y.1, x.2 ++ y.2) where
  rooted := h'.rooted
  trace := h.trace.append (hv ▸ h'.trace)

theorem traces_applyAll (h : p.Rooted) (ts : List Token) : Traces p (p.applyAll ts) := by
  induction ts generalizing p with
  | nil => exact ⟨h, .nil _⟩
  | cons t ts ih =>
    have hone := traces_apply h t
    exact hone.append (p.apply_vocabulary t) (ih hone.rooted)

theorem traces_feed (h : p.Rooted) (chunk : Text) : Traces p (p.feed chunk) := by
  have hall := traces_applyAll h (drain p.vocabulary.names (p.buffer ++ chunk)).1
  rw [feed_eq p chunk rfl]
  exact ⟨hall.rooted, hall.trace⟩

theorem nextIndex_flush (p : Parser) (b : Text) :
    (p.applyAll (flush b).toList).1.nextIndex = p.nextIndex := by
  cases b with
  | nil => rfl
  | cons c b => cases h : p.current <;> simp [flush, apply, addText, h]

/-- At the end of the text a parser has become a new one that counts on. -/
theorem finish_eq_new (p : Parser) : p.finish.1 = new p.vocabulary p.nextIndex := by
  have hbuffer : { p with buffer := [] }.applyAll (flush p.buffer).toList = _ :=
    applyAll_withBuffer p [] (flush p.buffer).toList
  simp [finish, hbuffer, new, withBuffer, nextIndex_flush]

theorem traces_finish (h : p.Rooted) : Traces p p.finish := by
  have hflush : Traces p ({ p with buffer := [] }.applyAll (flush p.buffer).toList) := by
    have hall := traces_applyAll (p := p.withBuffer []) h (flush p.buffer).toList
    exact ⟨hall.rooted, hall.trace⟩
  refine ⟨fun _ => rfl, hflush.trace.append ?_⟩
  have hends := Nesting.Trace.ends p.vocabulary
    ({ p with buffer := [] }.applyAll (flush p.buffer).toList).1.opened []
    ({ p with buffer := [] }.applyAll (flush p.buffer).toList).1.nextIndex
  rwa [List.append_nil] at hends

inductive Request where
  | feed (chunk : Text)
  | finish

def serve (p : Parser) : Request → Parser × List ElementEvent
  | .feed chunk => p.feed chunk
  | .finish => p.finish

def serveAll (p : Parser) : List Request → Parser × List ElementEvent
  | [] => (p, [])
  | q :: qs => (((p.serve q).1.serveAll qs).1, (p.serve q).2 ++ ((p.serve q).1.serveAll qs).2)

@[simp] theorem feed_vocabulary (p : Parser) (chunk : Text) :
    (p.feed chunk).1.vocabulary = p.vocabulary := by
  simp [feed_eq p chunk rfl]

@[simp] theorem serve_vocabulary (p : Parser) (q : Request) :
    (p.serve q).1.vocabulary = p.vocabulary := by
  cases q <;> simp [serve, finish_eq_new, new]

@[simp] theorem serveAll_vocabulary (p : Parser) (qs : List Request) :
    (p.serveAll qs).1.vocabulary = p.vocabulary := by
  induction qs generalizing p with
  | nil => rfl
  | cons q qs ih => simp [serveAll, ih]

theorem serveAll_feeds (p : Parser) (cs : List Text) :
    p.serveAll (cs.map .feed) = p.feedAll cs := by
  induction cs generalizing p with
  | nil => rfl
  | cons c cs ih => simp only [List.map_cons, serveAll, feedAll, serve, ih]

theorem traces_serve (h : p.Rooted) (q : Request) : Traces p (p.serve q) := by
  cases q with
  | feed chunk => exact traces_feed h chunk
  | finish => exact traces_finish h

theorem traces_serveAll (h : p.Rooted) (qs : List Request) : Traces p (p.serveAll qs) := by
  induction qs generalizing p with
  | nil => exact ⟨h, .nil _⟩
  | cons q qs ih =>
    have hone := traces_serve h q
    exact hone.append (p.serve_vocabulary q) (ih hone.rooted)

/-- Whatever is asked of a new parser, its events are well bracketed; at the next end of the text
all elements have ended, and the parser is a new one that counts on. -/
theorem serveAll_wellBracketed (v : Vocabulary) (first : Nat) (qs : List Request) :
    let x := (new v first).serveAll qs
    WellBracketed v first x.2 x.1.nesting ∧
      WellBracketed v first (x.2 ++ x.1.finish.2) ⟨[], x.1.nextIndex⟩ ∧
      x.1.finish.1 = new v x.1.nextIndex := by
  intro x
  have hnew : (new v first).Rooted := fun _ => rfl
  have hserved : Traces (new v first) x := traces_serveAll hnew qs
  have hv : x.1.vocabulary = v := serveAll_vocabulary (new v first) qs
  have hfinished := hserved.append hv (traces_finish hserved.rooted)
  have hend : x.1.finish.1 = new v x.1.nextIndex := by rw [finish_eq_new, hv]
  have htrace := hfinished.trace
  simp only [hend] at htrace
  exact ⟨hserved.trace.wellBracketed, htrace.wellBracketed, hend⟩

end Parser

end TagLedger.Markup
