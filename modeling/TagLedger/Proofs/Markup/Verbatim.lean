import Mathlib.Data.List.Induction
import Mathlib.Tactic.Common
import TagLedger.Proofs.Markup.Forest
import TagLedger.Proofs.Markup.Outer
import TagLedger.Proofs.Markup.Signs
import TagLedger.Proofs.Markup.Sources

/-!
The content of leaves. A leaf takes every token there is between the one that starts it and the one
that ends it, so its content is the text between them as it is written. What is carried along the
tokens of a text is where the leaves that have ended stand, and where the one that is open began.
-/

namespace TagLedger.Markup

/-- The elements that end and are no containers, in the order in which they end. -/
def leaves (v : Vocabulary) (evs : List ElementEvent) : List Element :=
  (endedElements evs).filter fun e => !v.isContainer e.tag

section Leaves

variable {v : Vocabulary}

@[simp] theorem leaves_append (v : Vocabulary) (xs ys : List ElementEvent) :
    leaves v (xs ++ ys) = leaves v xs ++ leaves v ys := by
  simp [leaves, endedElements]

theorem leaves_boundaries (v : Vocabulary) (evs : List ElementEvent) :
    leaves v (boundaries evs) = leaves v evs := by
  rw [leaves, endedElements_boundaries, leaves]

theorem leaves_endings (v : Vocabulary) (es : List Element) :
    leaves v (endings es) = (es.filter fun e => !v.isContainer e.tag).map Element.finalized := by
  induction es with
  | nil => rfl
  | cons e es ih =>
    rw [show endings (e :: es) = endings [e] ++ endings es from endings_append [e] es,
      leaves_append, ih]
    by_cases he : v.isContainer e.tag = true
    · simp [leaves, endedElements, endings, Element.finalized, he]
    · simp [leaves, endedElements, endings, Element.finalized, he]

/-- Of an element and containers around it, only the element can be a leaf. -/
theorem leaves_endings_cons {e : Element} {closed : List Element}
    (h : ∀ x ∈ closed, v.isContainer x.tag = true) :
    leaves v (endings (e :: closed)) = if v.isContainer e.tag then [] else [e.finalized] := by
  have hnone : (closed.filter fun x => !v.isContainer x.tag) = [] := by simpa using h
  rw [leaves_endings, List.filter_cons, hnone]
  by_cases he : v.isContainer e.tag = true
  · simp [he]
  · simp [he]

end Leaves

/-- An element among the tokens of a text: the tokens before it, its open tag and those inside. -/
structure Stretch where
  before : List Token
  opening : Token
  inside : List Token
  element : Element

namespace Stretch

/-- The tokens of the text up to the end of the element. -/
def upTo (s : Stretch) : List Token := s.before ++ s.opening :: s.inside

structure Begun (p : Parser) (s : Stretch) (selfClosing : Bool) : Prop where
  opening : ∃ raw, s.opening = .opening s.element.tag s.element.attributes selfClosing raw
  starts : (p.applyAll s.before).1.apply s.opening =
    (p.applyAll s.before).1.startElement s.element.tag s.element.attributes selfClosing
  index : s.element.index = (p.applyAll s.before).1.nextIndex
  content : s.element.content = sources s.inside

def finalized (s : Stretch) : Stretch := { s with element := s.element.finalized }

@[simp] theorem upTo_finalized (s : Stretch) : s.finalized.upTo = s.upTo := rfl

theorem Begun.finalized {p : Parser} {s : Stretch} {selfClosing : Bool}
    (h : s.Begun p selfClosing) : s.finalized.Begun p selfClosing :=
  ⟨h.opening, h.starts, h.index, h.content⟩

/-- What ends the element, given the tokens that come after. -/
inductive Ended (p : Parser) (s : Stretch) : List Token → Prop where
  /-- Its open tag closes itself. -/
  | itself (h : s.Begun p true) (hinside : s.inside = []) (after : List Token) : Ended p s after
  /-- The next token is a close tag that ends it. -/
  | closed {name raw : Text} (h : s.Begun p false)
    (hended : ⟨.ended, s.element⟩ ∈ ((p.applyAll s.upTo).1.apply (.closing name raw)).2)
    (after : List Token) : Ended p s (.closing name raw :: after)

theorem Ended.append {p : Parser} {s : Stretch} {after : List Token} (h : s.Ended p after)
    (more : List Token) : s.Ended p (after ++ more) := by
  cases h with
  | itself h hinside after => exact .itself h hinside _
  | closed h hended after => exact .closed h hended _

end Stretch

namespace Parser

variable {v : Vocabulary} {first : Nat} {ts : List Token} {ss : List Stretch}

theorem reached_applyAll (v : Vocabulary) (first : Nat) (ts : List Token) :
    Reached v ((new v first).applyAll ts).1 :=
  ⟨first, [], ts, _, rfl⟩

structure Spelled (v : Vocabulary) (first : Nat) (ts : List Token) (ss : List Stretch) :
    Prop where
  ended : ss.map (·.element) = leaves v ((new v first).applyAll ts).2
  each : ∀ s ∈ ss, ∃ after, ts = s.upTo ++ after ∧ s.Ended (new v first) after
  ordered : ss.Pairwise fun s s' => s.upTo <+: s'.before
  opened : ∀ e ∈ ((new v first).applyAll ts).1.current, v.isContainer e.tag = false →
    ∃ s : Stretch, s.element = e ∧ s.upTo = ts ∧ s.Begun (new v first) false ∧
      ∀ s' ∈ ss, s'.upTo <+: s.before

namespace Spelled

theorem nil (v : Vocabulary) (first : Nat) : Spelled v first [] [] where
  ended := rfl
  each := by simp
  ordered := .nil
  opened := by simp [new]

/-- No leaf ends with a token. -/
theorem keep (h : Spelled v first ts ss) {t : Token}
    (hnone : leaves v (((new v first).applyAll ts).1.apply t).2 = [])
    (hopened : ∀ e ∈ (((new v first).applyAll ts).1.apply t).1.current,
      v.isContainer e.tag = false → ∃ s : Stretch, s.element = e ∧ s.upTo = ts ++ [t] ∧
        s.Begun (new v first) false ∧ ∀ s' ∈ ss, s'.upTo <+: s.before) :
    Spelled v first (ts ++ [t]) ss where
  ended := by rw [applyAll_concat, leaves_append, hnone, List.append_nil, h.ended]
  each := by
    intro s hs
    obtain ⟨after, hts, hended⟩ := h.each s hs
    exact ⟨after ++ [t], by rw [hts, List.append_assoc], hended.append [t]⟩
  ordered := h.ordered
  opened := by rwa [applyAll_concat]

/-- No leaf ends with a token, and none is open after it. -/
theorem keep_outside (h : Spelled v first ts ss) {t : Token}
    (hnone : leaves v (((new v first).applyAll ts).1.apply t).2 = [])
    (houtside : ∀ e ∈ (((new v first).applyAll ts).1.apply t).1.current,
      v.isContainer e.tag = true) : Spelled v first (ts ++ [t]) ss := by
  refine h.keep hnone ?_
  intro e he hleaf
  rw [houtside e he] at hleaf
  cases hleaf

/-- A leaf ends with a token, and none is open after it. -/
theorem add (h : Spelled v first ts ss) {t : Token} {s : Stretch} {after : List Token}
    (hone : leaves v (((new v first).applyAll ts).1.apply t).2 = [s.element])
    (hopened : ∀ e ∈ (((new v first).applyAll ts).1.apply t).1.current,
      v.isContainer e.tag = true)
    (hts : ts ++ [t] = s.upTo ++ after) (hended : s.Ended (new v first) after)
    (hafter : ∀ s' ∈ ss, s'.upTo <+: s.before) : Spelled v first (ts ++ [t]) (ss ++ [s]) where
  ended := by rw [applyAll_concat, leaves_append, hone, List.map_append, h.ended]; rfl
  each := by
    refine List.forall_mem_append.mpr ⟨?_, List.forall_mem_singleton.mpr ⟨after, hts, hended⟩⟩
    intro s hs
    obtain ⟨after, hts, hended⟩ := h.each s hs
    exact ⟨after ++ [t], by rw [hts, List.append_assoc], hended.append [t]⟩
  ordered := by
    refine List.pairwise_append.mpr ⟨h.ordered, List.pairwise_singleton _ _, ?_⟩
    intro s' hs' x hx
    rw [List.mem_singleton.mp hx]
    exact hafter s' hs'
  opened := by
    rw [applyAll_concat]
    intro e he hleaf
    rw [hopened e he] at hleaf
    cases hleaf

theorem upTo_prefix (h : Spelled v first ts ss) : ∀ s ∈ ss, s.upTo <+: ts := by
  intro s hs
  obtain ⟨after, hts, -⟩ := h.each s hs
  exact ⟨after, hts.symm⟩

/-- A token that is text of the current element is inside it. -/
theorem concat_kept (h : Spelled v first ts ss) {t : Token} {e : Element} {depth : Nat}
    (hcurrent : ((new v first).applyAll ts).1.current = some e)
    (ht : ((new v first).applyAll ts).1.apply t =
      { ((new v first).applyAll ts).1 with current := some { e with depth } }.addText
        t.source) : Spelled v first (ts ++ [t]) ss := by
  refine h.keep (by rw [ht]; rfl) ?_
  rw [ht]
  rintro x ⟨⟩ hleaf
  obtain ⟨s, rfl, hts, hbegun, hafter⟩ := h.opened e hcurrent hleaf
  let grown : Element := { s.element with content := s.element.content ++ t.source, depth }
  refine ⟨{ s with inside := s.inside ++ [t], element := grown }, rfl, ?_, ?_, hafter⟩
  · rw [← hts]
    simp [Stretch.upTo]
  · refine ⟨hbegun.opening, hbegun.starts, hbegun.index, ?_⟩
    simp [grown, hbegun.content]

/-- An element starts where no leaf is open. -/
theorem concat_started (h : Spelled v first ts ss) {tag raw : Text} {attributes : Attributes}
    {selfClosing : Bool}
    (houtside : ∀ e ∈ ((new v first).applyAll ts).1.opened, v.isContainer e.tag = true)
    (ht : ((new v first).applyAll ts).1.apply (.opening tag attributes selfClosing raw) =
      ((new v first).applyAll ts).1.startElement tag attributes selfClosing) :
    ∃ ss', Spelled v first (ts ++ [.opening tag attributes selfClosing raw]) ss' := by
  let begun := Element.begin ((new v first).applyAll ts).1.nextIndex tag attributes
  cases selfClosing with
  | false =>
    refine ⟨ss, h.keep (by rw [ht]; rfl) ?_⟩
    rw [ht]
    rintro x ⟨⟩ -
    exact ⟨⟨ts, .opening tag attributes false raw, [], begun⟩, rfl, rfl, ⟨⟨raw, rfl⟩, ht, rfl, rfl⟩,
      h.upTo_prefix⟩
  | true =>
    have hback : ∀ e ∈ (((new v first).applyAll ts).1.apply
        (.opening tag attributes true raw)).1.current, v.isContainer e.tag = true := by
      rw [ht]
      exact fun e he => houtside e (List.mem_of_mem_head? he)
    by_cases htag : v.isContainer tag = true
    · refine ⟨ss, h.keep_outside ?_ hback⟩
      rw [ht]
      simp [startElement, leaves, endedElements, Element.begin, Element.finalized, htag]
    · refine ⟨_, h.add (s := ⟨ts, .opening tag attributes true raw, [], begun.finalized⟩) ?_ hback
        (List.append_nil _).symm (.itself ⟨⟨raw, rfl⟩, ht, rfl, rfl⟩ rfl []) h.upTo_prefix⟩
      rw [ht]
      simp [startElement, leaves, endedElements, Element.begin, Element.finalized, htag, begun]

/-- A close tag ends the current element, and containers around it. -/
theorem concat_ended (h : Spelled v first ts ss) {tag raw : Text} {e : Element}
    {closed rest : List Element}
    (hcurrent : ((new v first).applyAll ts).1.current = some e)
    (hstack : ((new v first).applyAll ts).1.stack = closed ++ rest)
    (ht : ((new v first).applyAll ts).1.apply (.closing tag raw) =
      ({ ((new v first).applyAll ts).1 with stack := rest }.pop, endings (e :: closed))) :
    ∃ ss', Spelled v first (ts ++ [.closing tag raw]) ss' := by
  -- only containers stand around an element, so no other of the ended is a leaf
  have hcontainers := (reached_applyAll v first ts).stack_containers
  rw [hstack] at hcontainers
  obtain ⟨hclosed, hrest⟩ := List.forall_mem_append.mp hcontainers
  have hback : ∀ x ∈ (((new v first).applyAll ts).1.apply (.closing tag raw)).1.current,
      v.isContainer x.tag = true := by
    rw [ht]
    exact fun x hx => hrest x (List.mem_of_mem_head? hx)
  have hleaves := leaves_endings_cons (e := e) hclosed
  by_cases htag : v.isContainer e.tag = true
  · refine ⟨ss, h.keep_outside ?_ hback⟩
    rw [ht, hleaves, if_pos htag]
  · obtain ⟨s, rfl, hts, hbegun, hafter⟩ := h.opened e hcurrent (by simpa using htag)
    have hended : ⟨.ended, s.finalized.element⟩ ∈
        (((new v first).applyAll s.finalized.upTo).1.apply (.closing tag raw)).2 := by
      rw [Stretch.upTo_finalized, hts, ht]
      exact List.mem_cons_self
    refine ⟨ss ++ [s.finalized], h.add ?_ hback (by rw [Stretch.upTo_finalized, hts])
      (.closed hbegun.finalized hended []) hafter⟩
    rw [ht, hleaves, if_neg htag]
    rfl

theorem concat (h : Spelled v first ts ss) (t : Token) :
    ∃ ss', Spelled v first (ts ++ [t]) ss' := by
  have hreached := reached_applyAll v first ts
  have heffect := effect_apply ((new v first).applyAll ts).1 t
  have hv := hreached.vocabulary_eq
  generalize ht : ((new v first).applyAll ts).1.apply t = x at heffect
  cases heffect with
  | dropped houtside =>
    refine ⟨ss, h.keep_outside (by rw [ht]; rfl) ?_⟩
    rw [ht]
    exact fun e he => hv ▸ houtside e he
  | kept hcurrent depth hdepth => exact ⟨ss, h.concat_kept hcurrent ht⟩
  | started houtside =>
    refine h.concat_started ?_ ht
    intro e he
    rcases List.mem_append.mp he with he | he
    · exact hv ▸ houtside e (Option.mem_toList.mp he)
    · exact hreached.stack_containers e he
  | ended hcurrent closed rest hstack => exact h.concat_ended hcurrent hstack ht

end Spelled

/-- After any tokens. -/
theorem exists_spelled (v : Vocabulary) (first : Nat) (ts : List Token) :
    ∃ ss, Spelled v first ts ss := by
  -- by the last token, since what is carried along is about all tokens before the next
  induction ts using List.reverseRecOn with
  | nil => exact ⟨[], .nil v first⟩
  | append_singleton ts t ih =>
    obtain ⟨ss, h⟩ := ih
    exact h.concat t

theorem nextIndex_applyAll_append_le (v : Vocabulary) (first : Nat) (ts us : List Token) :
    ((new v first).applyAll ts).1.nextIndex ≤ ((new v first).applyAll (ts ++ us)).1.nextIndex := by
  obtain ⟨_, _, hrooted, _⟩ := (reached_applyAll v first ts).traces
  rw [applyAll_append]
  exact (traces_applyAll hrooted us).trace.next_le

/-- Stretches that follow one another belong to elements with ascending indices. -/
theorem index_lt_of_upTo_prefix {s s' : Stretch} {selfClosing selfClosing' : Bool}
    (hs : s.Begun (new v first) selfClosing) (hs' : s'.Begun (new v first) selfClosing')
    (h : s.upTo <+: s'.before) : s.element.index < s'.element.index := by
  obtain ⟨more, hmore⟩ := h
  have hnext : ((new v first).applyAll (s.before ++ [s.opening])).1.nextIndex =
      s.element.index + 1 := by
    rw [applyAll_concat, hs.starts, hs.index]
    cases selfClosing <;> rfl
  have hle := nextIndex_applyAll_append_le v first (s.before ++ [s.opening]) (s.inside ++ more)
  have hbefore : s.before ++ [s.opening] ++ (s.inside ++ more) = s'.before := by
    rw [← hmore]
    simp [Stretch.upTo]
  rw [hbefore, hnext, ← hs'.index] at hle
  exact hle

/-- The events of a text that comes in one piece are those of its tokens, and the ends of what is
open after them. -/
theorem events_singleton (v : Vocabulary) (first : Nat) (t : Text) :
    (new v first).events [t] = ((new v first).applyAll (tokens v.names t)).2 ++
      endings ((new v first).applyAll (tokens v.names t)).1.opened := by
  have hfed : (new v first).feed t = (((new v first).applyAll (drain v.names t).1).1.withBuffer
      (drain v.names t).2, ((new v first).applyAll (drain v.names t).1).2) :=
    feed_eq (new v first) t rfl
  rw [events, feedAll, feedAll, hfed, tokens, applyAll_append]
  simp only [events_finish _ rfl, withBuffer_buffer, applyAll_withBuffer, List.append_nil,
    List.append_assoc]
  rfl

end Parser

/-- The element stands in the text as its open tag and its content, as they are written. Behind it
comes what ends it: nothing if it is its open tag, else a close tag or the end of the text. -/
structure Stretch.Verbatim (p : Parser) (t : Text) (s : Stretch) (after : List Token) : Prop where
  tokens : tokens p.vocabulary.names t = s.upTo ++ after
  text : t = sources s.before ++ (s.opening.source ++ (s.element.content ++ sources after))
  ended : s.Ended p after ∨ (s.Begun p false ∧ after = [])

namespace Parser

variable {v : Vocabulary} {first : Nat} {ts : List Token} {ss : List Stretch}

/-- At the end of the text an open leaf ends as well. -/
theorem Spelled.finish (h : Spelled v first ts ss) :
    ∃ ss' : List Stretch, ss'.map (·.element) =
        leaves v (((new v first).applyAll ts).2 ++ endings ((new v first).applyAll ts).1.opened) ∧
      (∀ s ∈ ss', ∃ after, ts = s.upTo ++ after ∧
        (s.Ended (new v first) after ∨ (s.Begun (new v first) false ∧ after = []))) ∧
      ss'.Pairwise fun s s' => s.upTo <+: s'.before := by
  have hcontainers := (reached_applyAll v first ts).stack_containers
  have heach : ∀ s ∈ ss, ∃ after, ts = s.upTo ++ after ∧
      (s.Ended (new v first) after ∨ (s.Begun (new v first) false ∧ after = [])) := by
    intro s hs
    obtain ⟨after, hts, hended⟩ := h.each s hs
    exact ⟨after, hts, .inl hended⟩
  rw [leaves_append, ← h.ended]
  cases hc : ((new v first).applyAll ts).1.current with
  | none =>
    have hstack : ((new v first).applyAll ts).1.opened =
        ((new v first).applyAll ts).1.stack := by simp [Parser.opened, hc]
    refine ⟨ss, ?_, heach, h.ordered⟩
    rw [hstack, leaves_endings]
    simpa using hcontainers
  | some e =>
    rw [opened_of_current hc, leaves_endings_cons hcontainers]
    by_cases htag : v.isContainer e.tag = true
    · exact ⟨ss, by simp [htag], heach, h.ordered⟩
    · obtain ⟨s, rfl, hts, hbegun, hafter⟩ := h.opened e hc (by simpa using htag)
      have hupTo : ts = s.finalized.upTo ++ [] := by rw [List.append_nil, s.upTo_finalized, hts]
      refine ⟨ss ++ [s.finalized], by simp [htag, Stretch.finalized], ?_, ?_⟩
      · exact List.forall_mem_append.mpr
          ⟨heach, List.forall_mem_singleton.mpr ⟨[], hupTo, .inr ⟨hbegun.finalized, rfl⟩⟩⟩
      · refine List.pairwise_append.mpr ⟨h.ordered, List.pairwise_singleton _ _, ?_⟩
        intro x hx y hy
        rw [List.mem_singleton.mp hy]
        exact hafter x hx

/-- All leaves of a text that comes in any pieces. -/
theorem leaves_verbatim (v : Vocabulary) (first : Nat) (cs : List Text) :
    ∃ ss : List Stretch, ss.map (·.element) = leaves v ((new v first).events cs) ∧
      (∀ s ∈ ss, ∃ after, s.Verbatim (new v first) cs.flatten after) ∧
      ss.Pairwise fun s s' => s.upTo <+: s'.before ∧ s.element.index < s'.element.index := by
  obtain ⟨ss, hspelled⟩ := exists_spelled v first (tokens v.names cs.flatten)
  obtain ⟨ss, hleaves, heach, hordered⟩ := hspelled.finish
  have hbegun : ∀ s ∈ ss, ∃ selfClosing, s.Begun (new v first) selfClosing := by
    intro s hs
    obtain ⟨after, -, hended | hend⟩ := heach s hs
    · cases hended with
      | itself h => exact ⟨true, h⟩
      | closed h => exact ⟨false, h⟩
    · exact ⟨false, hend.1⟩
  refine ⟨ss, ?_, ?_, ?_⟩
  · rw [← leaves_boundaries, boundaries_events, leaves_boundaries, events_singleton, hleaves]
  · intro s hs
    obtain ⟨after, hts, hended⟩ := heach s hs
    obtain ⟨_, hb⟩ := hbegun s hs
    refine ⟨after, hts, ?_, hended⟩
    have htext := sources_tokens v.names cs.flatten
    rw [hts] at htext
    rw [← htext, hb.content]
    simp [Stretch.upTo]
  · refine hordered.imp_of_mem ?_
    intro s s' hs hs' hbefore
    obtain ⟨_, hb⟩ := hbegun s hs
    obtain ⟨_, hb'⟩ := hbegun s' hs'
    exact ⟨hbefore, index_lt_of_upTo_prefix hb hb' hbefore⟩

end Parser

end TagLedger.Markup
