import Mathlib.Data.List.TakeWhile
import Mathlib.Tactic.Common
import TagLedger.Proofs.Markup.Writing

/-!
Tokens and the input they were made from. Reading a text loses nothing and adds nothing: the sources
of its tokens, one after the other, are the text.
-/

namespace TagLedger.Markup

/-- The input that tokens were made from. -/
def sources (ts : List Token) : Text := ts.flatMap Token.source

@[simp] theorem sources_nil : sources [] = [] := rfl

@[simp] theorem sources_cons (t : Token) (ts : List Token) :
    sources (t :: ts) = t.source ++ sources ts :=
  rfl

@[simp] theorem sources_append (ts us : List Token) :
    sources (ts ++ us) = sources ts ++ sources us :=
  List.flatMap_append

theorem findTagEnd_splits {quote : Option Char} {offset : Nat} {t inside rest : Text}
    (h : findTagEnd quote offset t = .found inside rest) : t = inside ++ '>' :: rest := by
  induction t generalizing quote offset inside with
  | nil => cases h
  | cons c t ih =>
    rcases findTagEnd_sign quote offset c with ⟨rfl, hall⟩ | ⟨-, hall⟩ | ⟨-, hall⟩
    · rw [hall] at h
      cases h
      rfl
    · simp [hall] at h
    · rw [hall] at h
      cases hrest : findTagEnd (quoteAfter quote c) (offset + c.utf8Size) t with
      | found inside' rest' =>
        rw [hrest] at h
        cases h
        rw [ih hrest]
        rfl
      | undecided => simp [hrest, TagEnd.prepend] at h
      | tooLong => simp [hrest, TagEnd.prepend] at h

section Scan

variable {names : List Text} {t rest : Text} {token : Token}

theorem scanClosing_splits (h : scanClosing names t = .tag token rest) :
    '<' :: '/' :: t = token.source ++ rest := by
  have hname : t.takeWhile isNameChar ++ t.dropWhile isNameChar = t :=
    List.takeWhile_append_dropWhile
  have hblank : (t.dropWhile isNameChar).takeWhile Text.isAsciiBlank ++
      (t.dropWhile isNameChar).dropWhile Text.isAsciiBlank = t.dropWhile isNameChar :=
    List.takeWhile_append_dropWhile
  simp only [scanClosing] at h
  split_ifs at h
  split at h
  · cases h
  · rename_i hend
    cases h
    rw [hend] at hblank
    conv_lhs => rw [← hname, ← hblank]
    simp [Token.source]
  · cases h

theorem scanOpening_splits (h : scanOpening names t = .tag token rest) :
    '<' :: t = token.source ++ rest := by
  have hname : t.takeWhile isNameChar ++ t.dropWhile isNameChar = t :=
    List.takeWhile_append_dropWhile
  simp only [scanOpening] at h
  split at h
  · split_ifs at h
  · rename_i c after hafter
    split_ifs at h
    split at h
    · cases h
    · cases h
    · rename_i inside rest' hend
      cases h
      conv_lhs => rw [← hname, hafter, findTagEnd_splits hend]
      simp [Token.source]

theorem scanTag_splits (h : scanTag names t = .tag token rest) :
    '<' :: t = token.source ++ rest := by
  unfold scanTag at h
  split at h
  · exact scanClosing_splits h
  · exact scanOpening_splits h

/-- A token is taken off the front of the buffer. -/
theorem nextToken?_splits {b : Text} (h : nextToken? names b = some (token, rest)) :
    b = token.source ++ rest := by
  unfold nextToken? at h
  split at h
  · cases h
  · split at h
    · rename_i hscan
      cases h
      exact scanTag_splits hscan
    · cases h
    · cases h
      rfl
  · cases h
    rw [Token.source, List.cons_append, List.takeWhile_append_dropWhile]

end Scan

theorem sources_drain (names : List Text) (b : Text) :
    sources (drain names b).1 ++ (drain names b).2 = b := by
  induction b using drain.induct names with
  | case1 b h => simp [drain_of_none h]
  | case2 b token rest h ih =>
    rw [drain_of_some h, sources_cons, List.append_assoc, ih, nextToken?_splits h]

theorem sources_flush (b : Text) : sources (flush b).toList = b := by
  cases b <;> simp [flush, Token.source]

/-- The tokens of a whole text. -/
def tokens (names : List Text) (t : Text) : List Token :=
  (drain names t).1 ++ (flush (drain names t).2).toList

/-- Tokens are pieces of the text, and all of it. -/
theorem sources_tokens (names : List Text) (t : Text) : sources (tokens names t) = t := by
  rw [tokens, sources_append, sources_flush, sources_drain]

end TagLedger.Markup
