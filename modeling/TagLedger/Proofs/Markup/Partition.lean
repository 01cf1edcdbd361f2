import Mathlib.Tactic.Common
import TagLedger.Proofs.Markup.Chunking
import TagLedger.Proofs.Markup.Offsets

/-!
Tokens partition the input. A tokenizer is pushed chunks, gives out tokens and in the end what it
holds back, in any order; at every moment what it has given out and what it holds back is, one after
the other, the input so far.
-/

namespace TagLedger.Markup

/-- The quotes that are open behind a text. -/
def quotesAfter (t : Text) : Option Char := t.foldl quoteAfter none

/-- The shape of a token: a tag has a name of the vocabulary, an open tag ends with its first `>`
outside quotes, and in a close tag only blanks stand between the name and the `>`. -/
def Token.WellFormed (names : List Text) : Token → Prop
  | .text t => t ≠ []
  | .opening name _ _ raw =>
    name ∈ names ∧ (∃ inside, raw = '<' :: (name ++ inside ++ ['>'])) ∧
      ∀ before after, raw = before ++ '>' :: after → (quotesAfter before = none ↔ after = [])
  | .closing name raw =>
    name ∈ names ∧ ∃ blanks, (∀ c ∈ blanks, Text.isAsciiBlank c = true) ∧
      raw = '<' :: '/' :: (name ++ blanks ++ ['>'])

/-- The inside of an open tag closes its quotes and has every `>` in quotes. -/
theorem quotes_of_findTagEnd {quote : Option Char} {offset : Nat} {t inside rest : Text}
    (h : findTagEnd quote offset t = .found inside rest) :
    inside.foldl quoteAfter quote = none ∧
      ∀ before after, inside = before ++ '>' :: after → before.foldl quoteAfter quote ≠ none := by
  induction t generalizing quote offset inside with
  | nil => cases h
  | cons c t ih =>
    rw [findTagEnd_cons] at h
    split_ifs at h with hend
    · cases h
      exact ⟨hend.1, fun before after heq => by simp at heq⟩
    · cases hrest : findTagEnd (quoteAfter quote c) (offset + c.utf8Size) t with
      | undecided => simp [hrest, TagEnd.prepend] at h
      | tooLong => simp [hrest, TagEnd.prepend] at h
      | found inside' rest' =>
        rw [hrest] at h
        cases h
        obtain ⟨hclosed, hquoted⟩ := ih hrest
        refine ⟨hclosed, fun before after heq => ?_⟩
        cases before with
        | nil =>
          intro hquote
          exact hend ⟨hquote, (List.cons.inj heq).1⟩
        | cons d before =>
          rw [List.singleton_append] at heq
          obtain ⟨rfl, hinside⟩ := List.cons.inj heq
          exact hquoted before after hinside

/-- A name opens no quotes. -/
theorem foldl_quoteAfter_name {name : Text} (h : ∀ c ∈ name, isNameChar c = true) :
    name.foldl quoteAfter none = none := by
  induction name with
  | nil => rfl
  | cons c name ih =>
    obtain ⟨hc, hname⟩ := List.forall_mem_cons.mp h
    have hnone : quoteAfter none c = none := by
      refine if_neg ?_
      rintro (rfl | rfl)
      · exact absurd hc (by decide)
      · exact absurd hc (by decide)
    rw [List.foldl_cons, hnone, ih hname]

/-- Of the `>` signs of an open tag only the last is outside quotes. -/
theorem quotesAfter_openTag {name inside : Text} (hname : ∀ c ∈ name, isNameChar c = true)
    (hclosed : quotesAfter inside = none)
    (hquoted : ∀ before after, inside = before ++ '>' :: after → quotesAfter before ≠ none)
    (before after : Text) (h : '<' :: name ++ (inside ++ ['>']) = before ++ '>' :: after) :
    quotesAfter before = none ↔ after = [] := by
  have hsign : '>' ∉ '<' :: name := by
    rw [List.mem_cons, not_or]
    exact ⟨by decide, fun hmem => absurd (hname '>' hmem) (by decide)⟩
  have hopen (u : Text) : quotesAfter ('<' :: name ++ u) = quotesAfter u := by
    have hless : quoteAfter none '<' = none := by decide
    rw [quotesAfter, List.foldl_append, List.foldl_cons, hless, foldl_quoteAfter_name hname]
    rfl
  obtain ⟨more, rfl, hmore⟩ : ∃ more, before = '<' :: name ++ more ∧
      inside ++ ['>'] = more ++ '>' :: after := by
    rcases List.append_eq_append_iff.mp h with ⟨more, hbefore, hmore⟩ | ⟨more, hhead, hmore⟩
    · exact ⟨more, hbefore, hmore⟩
    · cases more with
      | nil => exact ⟨[], by simpa using hhead.symm, by simpa using hmore.symm⟩
      | cons c more =>
        rw [List.cons_append] at hmore
        obtain ⟨rfl, -⟩ := List.cons.inj hmore
        exact absurd (hhead ▸ by simp) hsign
  rw [hopen]
  rcases List.eq_nil_or_concat after with rfl | ⟨after', c, rfl⟩
  · rw [← List.append_inj_left' hmore rfl]
    exact iff_of_true hclosed rfl
  · have hinside : inside = more ++ '>' :: after' := by
      rw [List.concat_eq_append, ← List.cons_append, ← List.append_assoc] at hmore
      exact List.append_inj_left' hmore rfl
    exact iff_of_false (hquoted more after' hinside) (by simp)

section Scan

variable {names : List Text} {t rest : Text} {token : Token}

theorem scanClosing_wellFormed (h : scanClosing names t = .tag token rest) :
    token.WellFormed names := by
  simp only [scanClosing] at h
  split_ifs at h with hend hcould hknown
  split at h
  · cases h
  · cases h
    simp only [not_or, Bool.not_eq_true', Bool.not_eq_false, List.contains_iff_mem] at hknown
    exact ⟨hknown.2, _, fun c hc => List.mem_takeWhile_imp hc, rfl⟩
  · cases h

theorem scanOpening_wellFormed (h : scanOpening names t = .tag token rest) :
    token.WellFormed names := by
  simp only [scanOpening] at h
  split at h
  · split_ifs at h
  rename_i c after hafter
  split_ifs at h with hknown hsign
  split at h
  · cases h
  · cases h
  rename_i inside rest' hend
  cases h
  simp only [not_or, Bool.not_eq_true', Bool.not_eq_false, List.contains_iff_mem] at hknown
  have hname : ∀ c ∈ t.takeWhile isNameChar, isNameChar c = true :=
    fun c hc => List.mem_takeWhile_imp hc
  obtain ⟨hclosed, hquoted⟩ := quotes_of_findTagEnd hend
  refine ⟨hknown.2, ⟨inside, rfl⟩, fun before after heq => ?_⟩
  rw [List.append_assoc, ← List.cons_append] at heq
  exact quotesAfter_openTag hname hclosed hquoted before after heq

theorem nextToken?_wellFormed {b : Text} (h : nextToken? names b = some (token, rest)) :
    token.WellFormed names := by
  unfold nextToken? at h
  split at h
  · cases h
  · split at h
    · rename_i hscan
      cases h
      unfold scanTag at hscan
      split at hscan
      · exact scanClosing_wellFormed hscan
      · exact scanOpening_wellFormed hscan
    · cases h
    · cases h
      exact List.cons_ne_nil _ _
  · cases h
    exact List.cons_ne_nil _ _

end Scan

/-- What is held back when no token can be given out starts with a `<`. -/
theorem head?_of_nextToken?_none {names : List Text} {b : Text} (h : nextToken? names b = none)
    (hne : b ≠ []) : b.head? = some '<' := by
  cases b with
  | nil => contradiction
  | cons c t =>
    by_cases hc : c = '<'
    · rw [List.head?_cons, hc]
    · rw [nextToken?_text names hc] at h
      cases h

structure Tokenizer where
  produced : List Token
  buffer : Text

namespace Tokenizer

inductive Move where
  | push (chunk : Text)
  | next
  | finish

def Move.pushed : Move → Text
  | .push chunk => chunk
  | .next | .finish => []

def new : Tokenizer := ⟨[], []⟩

def next (names : List Text) (s : Tokenizer) : Tokenizer :=
  match nextToken? names s.buffer with
  | none => s
  | some (token, rest) => ⟨s.produced ++ [token], rest⟩

def finish (s : Tokenizer) : Tokenizer := ⟨s.produced ++ (flush s.buffer).toList, []⟩

def drained (names : List Text) (s : Tokenizer) : Tokenizer :=
  ⟨s.produced ++ (drain names s.buffer).1, (drain names s.buffer).2⟩

def step (names : List Text) (s : Tokenizer) : Move → Tokenizer
  | .push chunk => { s with buffer := s.buffer ++ chunk }
  | .next => s.next names
  | .finish => s.finish

def run (names : List Text) (s : Tokenizer) (moves : List Move) : Tokenizer :=
  moves.foldl (step names) s

def pushed (moves : List Move) : Text := moves.flatMap Move.pushed

variable {names : List Text} {s : Tokenizer} {input : Text}

/-- The tokens given out are tokens, and with what is held back they are the input. -/
structure Partitions (names : List Text) (input : Text) (s : Tokenizer) : Prop where
  whole : sources s.produced ++ s.buffer = input
  wellFormed : ∀ token ∈ s.produced, token.WellFormed names

theorem Partitions.next (h : Partitions names input s) : Partitions names input (s.next names) := by
  unfold Tokenizer.next
  split
  · exact h
  · rename_i token rest hnext
    constructor
    · rw [sources_append, List.append_assoc, ← h.whole, nextToken?_splits hnext]
      simp
    · intro t ht
      rcases List.mem_append.mp ht with ht | ht
      · exact h.wellFormed t ht
      · rw [List.mem_singleton.mp ht]
        exact nextToken?_wellFormed hnext

theorem Partitions.finish (h : Partitions names input s) : Partitions names input s.finish := by
  constructor
  · rw [Tokenizer.finish, sources_append, sources_flush, List.append_nil, h.whole]
  · intro t ht
    rcases List.mem_append.mp ht with ht | ht
    · exact h.wellFormed t ht
    · cases hbuffer : s.buffer with
      | nil => simp [hbuffer, flush] at ht
      | cons c b =>
        simp only [hbuffer, flush, Option.toList_some, List.mem_singleton] at ht
        rw [ht]
        exact List.cons_ne_nil c b

theorem Partitions.step (h : Partitions names input s) (move : Move) :
    Partitions names (input ++ move.pushed) (s.step names move) := by
  cases move with
  | push chunk => exact ⟨by rw [← h.whole, List.append_assoc]; rfl, h.wellFormed⟩
  | next =>
    rw [Move.pushed, List.append_nil]
    exact h.next
  | finish =>
    rw [Move.pushed, List.append_nil]
    exact h.finish

theorem Partitions.run (h : Partitions names input s) (moves : List Move) :
    Partitions names (input ++ pushed moves) (s.run names moves) := by
  induction moves generalizing input s with
  | nil =>
    rw [pushed, List.flatMap_nil, List.append_nil]
    exact h
  | cons move moves ih =>
    have hrest := ih (h.step move)
    rw [List.append_assoc] at hrest
    exact hrest

theorem run_append (s : Tokenizer) (xs ys : List Move) :
    s.run names (xs ++ ys) = (s.run names xs).run names ys :=
  List.foldl_append

/-- Giving out tokens again and again ends with all of them given out. -/
theorem exists_run_eq_drained (names : List Text) (s : Tokenizer) :
    ∃ n, s.run names (List.replicate n .next) = s.drained names := by
  obtain ⟨produced, buffer⟩ := s
  induction buffer using drain.induct names generalizing produced with
  | case1 b h => exact ⟨0, by simp [drained, drain_of_none h, run]⟩
  | case2 b token rest h ih =>
    obtain ⟨n, hn⟩ := ih (produced ++ [token])
    refine ⟨n + 1, ?_⟩
    have hfirst : next names ⟨produced, b⟩ = ⟨produced ++ [token], rest⟩ := by simp [next, h]
    rw [List.replicate_succ]
    show run names (next names ⟨produced, b⟩) (List.replicate n .next) = _
    rw [hfirst, hn]
    simp [drained, drain_of_some h]

/-- For every vocabulary and whatever is done, in whatever order: the tokens given out are well
formed, and their sources, followed by what is held back, are the input so far; the end of the
input turns what is held back into a last token of text; reading the input held back by offsets in
bytes never cuts inside a character and gives the same next token; and when all tokens are given
out, what is held back is empty or starts with a `<`. -/
theorem partitions_input (names : List Text) (moves : List Move) :
    let s := new.run names moves
    (sources s.produced ++ s.buffer = pushed moves ∧
      ∀ token ∈ s.produced, token.WellFormed names) ∧
    s.step names .finish =
      ⟨s.produced ++ if s.buffer = [] then [] else [.text s.buffer], []⟩ ∧
    Offsets.next? names s.buffer = some (nextToken? names s.buffer) ∧
    (∃ n, new.run names (moves ++ List.replicate n .next) = s.drained names) ∧
    nextToken? names (s.drained names).buffer = none ∧
    ((s.drained names).buffer ≠ [] → (s.drained names).buffer.head? = some '<') := by
  intro s
  have hnew : Partitions names [] new := ⟨rfl, fun token ht => nomatch ht⟩
  have hs : Partitions names (pushed moves) s := hnew.run moves
  have hfinish : s.step names .finish =
      ⟨s.produced ++ if s.buffer = [] then [] else [.text s.buffer], []⟩ := by
    show s.finish = _
    rw [finish]
    cases s.buffer <;> rfl
  have hdrained : nextToken? names (s.drained names).buffer = none := nextToken?_drain names s.buffer
  refine ⟨⟨hs.whole, hs.wellFormed⟩, hfinish, Offsets.next?_eq names s.buffer, ?_, hdrained,
    head?_of_nextToken?_none hdrained⟩
  obtain ⟨n, hn⟩ := exists_run_eq_drained names s
  exact ⟨n, by rw [run_append, hn]⟩

end Tokenizer

end TagLedger.Markup
