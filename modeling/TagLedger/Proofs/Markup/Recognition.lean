import Mathlib.Tactic.Common
import TagLedger.Config.Basic
import TagLedger.Proofs.Markup.Forest
import TagLedger.Proofs.Markup.Layers
import TagLedger.Proofs.Markup.Signs

/-!
The tags of a configuration that the parser knows. A configuration may name its tags freely, but
only ASCII letters, digits, `_`, `-` and `:` can stand in the name of a tag that is read. A tag
whose name has no other characters is read, whatever its pieces; all others are never read.
-/

namespace TagLedger

namespace Config

theorem name_of_checkTags {seen : List String} {tags : List TagConfig}
    (h : checkTags seen tags = .ok ()) : ∀ t ∈ tags, t.name.toList ≠ [] := by
  induction tags generalizing seen with
  | nil => simp
  | cons t tags ih =>
    simp only [checkTags] at h
    split_ifs at h with hblank hseen
    refine List.forall_mem_cons.mpr ⟨?_, ih h⟩
    intro hempty
    rw [hempty] at hblank
    exact hblank rfl

/-- The names of a valid configuration are not empty. -/
theorem name_of_validate {c : Config} (h : c.validate = .ok ()) :
    ∀ n ∈ c.tagNames, n.toList ≠ [] := by
  unfold validate at h
  split_ifs at h
  intro n hn
  obtain ⟨t, ht, rfl⟩ := List.mem_map.mp hn
  exact name_of_checkTags h t ht

theorem mem_names_vocabulary {c : Config} {n : String} (h : n ∈ c.tagNames) :
    n.toList ∈ c.vocabulary.names := by
  obtain ⟨t, ht, rfl⟩ := List.mem_map.mp h
  exact List.mem_map.mpr ⟨t.rule, List.mem_map_of_mem ht, rfl⟩

end Config

namespace Markup

section Tokens

variable {names : List Text} {tag : Text}

/-- An open tag without attributes is read however long its name is. -/
theorem nextToken?_bareTagText (hne : tag ≠ []) (hchars : ∀ c ∈ tag, isNameChar c = true)
    (htag : tag ∈ names) (b : Text) :
    nextToken? names (openTagText tag [] ++ b) =
      some (.opening tag [] false (openTagText tag []), b) := by
  have hclose : isNameChar '>' = false := by decide
  have hname : ¬ (tag.isEmpty = true ∨ (!names.contains tag) = true) := by simp [hne, htag]
  have hread : readAttributes [] = [] := by
    rw [readAttributes, attributePairs]
    rfl
  have hscan : scanTag names (tag ++ ['>']) =
      .tag (.opening tag [] false (openTagText tag [])) [] := by
    rw [scanTag_eq_scanOpening (head?_name_append hne hchars _)]
    simp [scanOpening, takeWhile_name hchars hclose, dropWhile_name hchars hclose, hne, htag,
      findTagEnd, splitSlash, Text.trimRight, hread, openTagText]
  have halone : nextToken? names (openTagText tag []) =
      some (.opening tag [] false (openTagText tag []), []) := by
    rw [openTagText, attributesText_nil, List.nil_append, nextToken?, hscan]
    rfl
  exact nextToken?_append b halone

theorem isNameChar_of_scanOpening {t name raw rest : Text} {attributes : Attributes}
    {selfClosing : Bool}
    (h : scanOpening names t = .tag (.opening name attributes selfClosing raw) rest) :
    ∀ c ∈ name, isNameChar c = true := by
  simp only [scanOpening] at h
  split at h
  · split_ifs at h
  · split_ifs at h
    split at h
    · cases h
    · cases h
    · cases h
      exact fun c hc => List.mem_takeWhile_imp hc

theorem scanClosing_ne_opening (names : List Text) (t name raw rest : Text)
    (attributes : Attributes) (selfClosing : Bool) :
    scanClosing names t ≠ .tag (.opening name attributes selfClosing raw) rest := by
  intro h
  simp only [scanClosing] at h
  split_ifs at h
  split at h <;> cases h

/-- Only such a name is read in an open tag. -/
theorem isNameChar_of_nextToken? {b name raw rest : Text} {attributes : Attributes}
    {selfClosing : Bool}
    (h : nextToken? names b = some (.opening name attributes selfClosing raw, rest)) :
    ∀ c ∈ name, isNameChar c = true := by
  unfold nextToken? at h
  split at h
  · cases h
  · split at h
    · rename_i hscan
      cases h
      unfold scanTag at hscan
      split at hscan
      · exact absurd hscan (scanClosing_ne_opening names _ name raw rest attributes selfClosing)
      · exact isNameChar_of_scanOpening hscan
    · cases h
    · cases h
  · cases h

end Tokens

def Element.TagPronounceable (e : Element) : Prop := ∀ c ∈ e.tag, isNameChar c = true

theorem lasting_tagPronounceable (v : Vocabulary) : Lasting v Element.TagPronounceable where
  changes _ _ _ h := h
  finalized h := h

theorem begins_of_mem_drain (names : List Text) (b : Text) :
    ∀ t ∈ (drain names b).1, t.Begins Element.TagPronounceable := by
  induction b using drain.induct names with
  | case1 b h => simp [drain_of_none h]
  | case2 b token rest h ih =>
    rw [drain_of_some h]
    refine List.forall_mem_cons.mpr ⟨?_, ih⟩
    cases token with
    | opening name attributes selfClosing raw => exact fun _ => isNameChar_of_nextToken? h
    | text t => trivial
    | closing name raw => trivial

namespace Parser

variable {v : Vocabulary} {tag : Text}

/-- No event of a text is about a tag with other characters. -/
theorem tagPronounceable_of_mem_events (v : Vocabulary) (first : Nat) (cs : List Text) :
    ∀ ev ∈ (new v first).events cs, ev.element.TagPronounceable := by
  have hl := lasting_tagPronounceable v
  have hopened : ∀ e ∈ (new v first).opened, e.TagPronounceable := by simp [new, opened]
  have hfed := Throughout.serveAll hl hopened (begins_of_mem_drain v.names) (cs.map .feed)
  rw [serveAll_feeds] at hfed
  have hv : ((new v first).feedAll cs).1.vocabulary = v := by
    rw [← serveAll_feeds]
    simp [new]
  exact (hfed.append (Throughout.finish (hv.symm ▸ hl) hfed.opened)).events

/-- A pair of tags around a text without tags is one element. -/
theorem ended_of_pair (hne : tag ≠ []) (hchars : ∀ c ∈ tag, isNameChar c = true)
    (htag : tag ∈ v.names) (first : Nat) {t : Text} (ht : '<' ∉ t) {cs : List Text}
    (hcs : cs.flatten = openTagText tag [] ++ (t ++ closeTagText tag)) :
    endedElements ((new v first).events cs) = [⟨first, tag, [], t, true, 0⟩] := by
  have hread : ReadAs v.names (openTagText tag [] ++ (t ++ closeTagText tag))
      ([.opening tag [] false (openTagText tag [])] ++ ([.text t] ++
        [.closing tag (closeTagText tag)])) :=
    (ReadAs.of_nextToken? (nextToken?_bareTagText hne hchars htag)).append
      ((readAs_text ht).append (.of_nextToken? (nextToken?_closeTagText hne hchars htag)))
  have hfed := (feedAll_agree_flatten (settled_new v first) cs).trans
    (hcs ▸ agree_feed_of_readAs hread first)
  have hparser : ((new v first).feedAll cs).1 = new v (first + 1) := by
    rw [hfed.1]
    simp [new, apply, openTag, startElement, addText, closeTag, pop, Element.begin]
  have hfinish : (new v (first + 1)).finish.2 = [] := rfl
  rw [events, hparser, hfinish, List.append_nil, ← endedElements_boundaries, hfed.2,
    endedElements_boundaries]
  simp [new, apply, openTag, startElement, addText, closeTag, pop, Element.begin,
    Element.finalized, endedElements]

end Parser

end Markup

open Markup

/-- The tags of a valid configuration are read if their names have only characters that can stand in
the name of a tag, and never read otherwise. -/
theorem Config.recognized_of_validate {c : Config} (hc : c.validate = .ok ()) {n : String}
    (hn : n ∈ c.tagNames) (first : Nat) :
    ((∀ d ∈ n.toList, isNameChar d = true) → ∀ (t : Text) (cs : List Text), '<' ∉ t →
      cs.flatten = openTagText n.toList [] ++ (t ++ closeTagText n.toList) →
      endedElements ((Parser.new c.vocabulary first).events cs) =
        [⟨first, n.toList, [], t, true, 0⟩]) ∧
    ((∃ d ∈ n.toList, isNameChar d = false) → ∀ (cs : List Text),
      ∀ ev ∈ (Parser.new c.vocabulary first).events cs, ev.element.tag ≠ n.toList) := by
  constructor
  · intro hchars t cs ht hcs
    exact Parser.ended_of_pair (name_of_validate hc n hn) hchars (mem_names_vocabulary hn) first ht
      hcs
  · rintro ⟨d, hd, hbad⟩ cs ev hev htag
    have hgood := Parser.tagPronounceable_of_mem_events c.vocabulary first cs ev hev d (htag ▸ hd)
    rw [hbad] at hgood
    cases hgood

/-- A thought in two pieces is read, and a tag with a blank in its name is not. -/
theorem Config.recognized_of_validate_think_and_a_b :
    let c := { standard with tags := [⟨"think", some .thought, false, false⟩,
      ⟨"a b", some .thought, false, false⟩] }
    let pieces := ["<thi".toList, "nk>x > y</think>".toList]
    (c.validate = .ok () ∧ "think" ∈ c.tagNames ∧ "a b" ∈ c.tagNames) ∧
      endedElements ((Parser.new c.vocabulary 7).events pieces) =
        [⟨7, "think".toList, [], "x > y".toList, true, 0⟩] ∧
      ∀ ev ∈ (Parser.new c.vocabulary 7).events ["<a b>x</a b>".toList],
        ev.element.tag ≠ "a b".toList := by
  intro c pieces
  have hc : c.validate = .ok () := by decide +kernel
  have hthink : "think" ∈ c.tagNames := by decide
  have hblank : "a b" ∈ c.tagNames := by decide
  have hchars : "think".toList.all isNameChar = true := by decide
  have hother : ' ' ∈ "a b".toList := by decide
  have hread := (recognized_of_validate hc hthink 7).1 (List.all_eq_true.mp hchars) "x > y".toList
    pieces (by decide) (by decide)
  have hunread := (recognized_of_validate hc hblank 7).2 ⟨' ', hother, by decide⟩
    ["<a b>x</a b>".toList]
  exact ⟨⟨hc, hthink, hblank⟩, hread, hunread⟩

/-- Nothing in a configuration keeps a blank out of the name of a tag, and such a tag is text. -/
theorem Config.blank_in_name_never_read :
    let c := { standard with tags := [⟨"a b", some .thought, false, false⟩] }
    c.validate = .ok () ∧ "a b" ∈ c.tagNames ∧
      endedElements ((Parser.new c.vocabulary 0).events ["<a b>x</a b>".toList]) = [] := by
  intro c
  have hc : c.validate = .ok () := by decide +kernel
  have hmem : "a b" ∈ c.tagNames := by decide
  have hnone : endedElements ((Parser.new c.vocabulary 0).events ["<a b>x</a b>".toList]) = [] := by
    decide +kernel
  exact ⟨hc, hmem, hnone⟩

end TagLedger
