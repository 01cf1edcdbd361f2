import TagLedger.Proofs.Memory.Ranking
import TagLedger.Proofs.Text.Pieces

/-!
What is recalled. A document is compared with a query by its written form, in which the words of its
strings stand as they are, unless a control character stands right before them: its escape ends in a
letter or a digit, and the word is written on from there.
-/

namespace TagLedger

namespace Json

inductive HasString (s : String) : Json → Prop where
  | here : HasString s (.str s)
  | item {xs : List Json} {x : Json} (hx : x ∈ xs) (h : x.HasString s) : HasString s (.arr xs)
  | member {ms : Members} {m : String × Json} (hm : m ∈ ms) (h : m.2.HasString s) :
    HasString s (.obj ms)

theorem infix_itemsText {xs : List Json} {x : Json} (hx : x ∈ xs) :
    x.toText <:+: itemsText xs := by
  induction xs with
  | nil => cases hx
  | cons y xs ih =>
    cases xs with
    | nil =>
      obtain rfl := List.mem_singleton.mp hx
      exact List.infix_refl _
    | cons z xs =>
      rw [itemsText]
      rcases List.mem_cons.mp hx with rfl | hx
      · exact (List.prefix_append _ _).isInfix
      · exact ((ih hx).trans (List.suffix_cons _ _).isInfix).trans (List.suffix_append _ _).isInfix

theorem infix_membersText {ms : Members} {m : String × Json} (hm : m ∈ ms) :
    m.2.toText <:+: membersText ms := by
  induction ms with
  | nil => cases hm
  | cons n ms ih =>
    obtain ⟨k, v⟩ := n
    cases ms with
    | nil =>
      obtain rfl := List.mem_singleton.mp hm
      exact ((List.suffix_cons _ _).trans (List.suffix_append _ _)).isInfix
    | cons n ms =>
      rw [membersText]
      have hbehind : ∀ t, t <:+: v.toText ++ ',' :: membersText (n :: ms) →
          t <:+: stringText k ++ ':' :: (v.toText ++ ',' :: membersText (n :: ms)) := fun t ht =>
        (ht.trans (List.suffix_cons _ _).isInfix).trans (List.suffix_append _ _).isInfix
      rcases List.mem_cons.mp hm with rfl | hm
      · exact hbehind _ (List.prefix_append _ _).isInfix
      · exact hbehind _ (((ih hm).trans (List.suffix_cons _ _).isInfix).trans
          (List.suffix_append _ _).isInfix)

/-- A string stands in quotes in the written form of every value that has it. -/
theorem HasString.infix_toText {s : String} {j : Json} (h : j.HasString s) :
    stringText s <:+: j.toText := by
  induction h with
  | here => exact List.infix_refl _
  | item hx _ ih =>
    rw [toText]
    exact ((ih.trans (infix_itemsText hx)).trans (List.prefix_append _ _).isInfix).trans
      (List.suffix_cons _ _).isInfix
  | member hm _ ih =>
    rw [toText]
    exact ((ih.trans (infix_membersText hm)).trans (List.prefix_append _ _).isInfix).trans
      (List.suffix_cons _ _).isInfix

/-- How a character of a string is written: quote and backslash behind a backslash, a control
character by an escape that begins with a backslash, any other as it is. -/
theorem escapeChar_eq (c : Char) :
    (c = '"' ∨ c = '\\') ∧ escapeChar c = ['\\', c] ∨
      c.toNat < 0x20 ∧ (∃ t, escapeChar c = '\\' :: t) ∨ escapeChar c = [c] := by
  by_cases hquote : c = '"'
  · exact .inl ⟨.inl hquote, by rw [hquote]; rfl⟩
  by_cases hslash : c = '\\'
  · exact .inl ⟨.inr hslash, by rw [hslash]; rfl⟩
  refine .inr ?_
  unfold escapeChar
  rw [if_neg hquote, if_neg hslash]
  by_cases hcontrol : c.toNat < 0x20
  · refine .inl ⟨hcontrol, ?_⟩
    split_ifs <;> first | exact ⟨_, rfl⟩ | contradiction
  · have hne : ∀ d : Char, d.toNat < 0x20 → c ≠ d := fun d hd h => hcontrol (h ▸ hd)
    refine .inr ?_
    rw [if_neg (hne _ (by decide)), if_neg (hne _ (by decide)), if_neg (hne _ (by decide)),
      if_neg (hne _ (by decide)), if_neg (hne _ (by decide))]
    exact if_neg hcontrol

end Json

namespace Text

theorem not_isAlphanumeric_of_lt {c : Char} (h : c.toNat < 0x20) : isAlphanumeric c = false := by
  have hn : c.val.toNat < 0x20 := h
  rw [isAlphanumeric, if_pos (by omega), ← Bool.not_eq_true]
  intro halphanum
  have hranges := ranges_of_isAlphanum halphanum
  omega

/-- A word in its place: alphanumeric characters, with none such beside them. -/
structure Word (before w after : Text) : Prop where
  nonempty : w ≠ []
  between : Between (fun c => !isAlphanumeric c) before w after

variable {before w after : Text}

theorem Word.append (h : Word before w after) (hbefore : before ≠ []) (hafter : after ≠ [])
    (front rest : Text) : Word (front ++ before) w (after ++ rest) := by
  refine ⟨h.nonempty, h.between.inside, ?_, ?_⟩
  · obtain ⟨c, hc⟩ := Option.ne_none_iff_exists'.mp (mt List.getLast?_eq_none_iff.mp hbefore)
    rw [List.getLast?_append, hc, Option.some_or, ← hc]
    exact h.between.before
  · obtain ⟨c, after, rfl⟩ := List.exists_cons_of_ne_nil hafter
    exact h.between.after

end Text

namespace Json

open Text (Word isAlphanumeric)

theorem escapeChar_of_isAlphanumeric {c : Char} (h : isAlphanumeric c = true) :
    escapeChar c = [c] := by
  rcases escapeChar_eq c with ⟨rfl | rfl, _⟩ | ⟨hcontrol, _⟩ | hc
  · cases h
  · cases h
  · rw [Text.not_isAlphanumeric_of_lt hcontrol] at h
    cases h
  · exact hc

theorem exists_escapeChar_eq {c : Char} (h : isAlphanumeric c = false) :
    ∃ x t, escapeChar c = x :: t ∧ isAlphanumeric x = false := by
  rcases escapeChar_eq c with ⟨_, hc⟩ | ⟨_, t, hc⟩ | hc
  · exact ⟨_, _, hc, rfl⟩
  · exact ⟨_, _, hc, rfl⟩
  · exact ⟨_, _, hc, h⟩

theorem getLast?_escapeChar {c : Char} (h : 0x20 ≤ c.toNat) : (escapeChar c).getLast? = some c := by
  rcases escapeChar_eq c with ⟨_, hc⟩ | ⟨hcontrol, _⟩ | hc
  · rw [hc]
    rfl
  · omega
  · rw [hc]
    rfl

theorem escape_word {w : Text} (h : ∀ c ∈ w, isAlphanumeric c = true) :
    w.flatMap escapeChar = w := by
  induction w with
  | nil => rfl
  | cons c w ih =>
    obtain ⟨hc, hw⟩ := List.forall_mem_cons.mp h
    rw [List.flatMap_cons, escapeChar_of_isAlphanumeric hc, ih hw, List.singleton_append]

/-- A word that no control character stands before is a word of the written string. -/
theorem word_stringText {s : String} {before w after : Text} (hs : s.toList = before ++ w ++ after)
    (h : Word before w after) (hplain : ∀ c ∈ before.getLast?, 0x20 ≤ c.toNat) :
    stringText s = '"' :: before.flatMap escapeChar ++ w ++ (after.flatMap escapeChar ++ ['"']) ∧
      Word ('"' :: before.flatMap escapeChar) w (after.flatMap escapeChar ++ ['"']) := by
  have hinside : ∀ c ∈ w, isAlphanumeric c = true := fun c hc => by simpa using h.between.inside c hc
  refine ⟨by simp [stringText, hs, escape_word hinside], h.nonempty, h.between.inside, ?_, ?_⟩
  · rcases before.eq_nil_or_concat with rfl | ⟨before, c, rfl⟩
    · rintro _ ⟨⟩
      rfl
    · have hlast : (before.concat c).getLast? = some c := by simp
      intro x hx
      rw [List.concat_eq_append, List.flatMap_append, List.flatMap_singleton,
        ← List.cons_append, List.getLast?_append, getLast?_escapeChar (hplain c hlast)] at hx
      cases hx
      exact h.between.before c hlast
  · cases after with
    | nil =>
      rintro _ ⟨⟩
      rfl
    | cons c after =>
      have hc : isAlphanumeric c = false := by simpa using h.between.after c rfl
      obtain ⟨x, t, heq, hx⟩ := exists_escapeChar_eq hc
      simp [heq, hx]

end Json

namespace Archive

open Text (Word isAlphanumeric lowercase)

/-- The words of a text, in lower case, are its longest stretches of alphanumeric characters. -/
theorem mem_words_iff {t x : Text} : x ∈ words t ↔
    ∃ before w after, t = before ++ w ++ after ∧ Word before w after ∧ x = lowercase w := by
  simp only [words, List.mem_eraseDups, List.mem_map, List.mem_filter, Text.mem_splitBy_iff,
    Bool.not_eq_true', List.isEmpty_eq_false_iff]
  constructor
  · rintro ⟨w, ⟨⟨before, after, rfl, hw⟩, hne⟩, rfl⟩
    exact ⟨before, w, after, rfl, ⟨hne, hw⟩, rfl⟩
  · rintro ⟨before, w, after, rfl, ⟨hne, hw⟩, rfl⟩
    exact ⟨w, ⟨⟨before, after, rfl, hw⟩, hne⟩, rfl⟩

theorem score_pos_iff {wanted : List Text} {doc : Json} :
    0 < score wanted doc ↔ ∃ x ∈ words doc.toText, x ∈ wanted := by
  simp [score, List.length_pos_iff_exists_mem]

/-- The text has the word, in some spelling, after nothing, or after a character that is not a
control character. -/
def Shows (t : Text) (x : Text) : Prop :=
  ∃ before w after, t = before ++ w ++ after ∧ Word before w after ∧
    (∀ c ∈ before.getLast?, 0x20 ≤ c.toNat) ∧ x = lowercase w

/-- A word of a string in a document counts for its score, if no control character stands right
before it. -/
theorem score_pos_of_shows {query x : Text} {doc : Json} {s : String} (hs : doc.HasString s)
    (hshows : Shows s.toList x) (hx : x ∈ words query) : 0 < score (words query) doc := by
  obtain ⟨before, w, after, heq, hw, hplain, rfl⟩ := hshows
  obtain ⟨hquoted, hword⟩ := Json.word_stringText heq hw hplain
  obtain ⟨front, rest, htext⟩ := hs.infix_toText
  have hin := hword.append (by simp) (by simp) front rest
  refine score_pos_iff.mpr ⟨_, mem_words_iff.mpr ⟨_, _, _, ?_, hin, rfl⟩, hx⟩
  simp [← htext, hquoted]

/-- A document that shares a shown word with the query is in the answer, unless five others rank
above it. -/
theorem recalled_of_shows {r : Archive} {context : String} {query x : Text} {i : Nat} {doc : Json}
    {s : String} (hfault : r.queryFault r.operations context = none)
    (hdoc : (r.bucket context)[i]? = some doc) (hs : doc.HasString s)
    (hshows : Shows s.toList x) (hx : x ∈ words query) :
    0 < score (words query) doc ∧
      ∃ hs, (r.query context query).1 = .ok (hs.map (·.doc)) ∧
        Answers (words query) (r.bucket context) hs ∧
        (hitAt (words query) i doc ∈ hs ∨
          hs.length = 5 ∧ ∀ h ∈ hs, h.Above (hitAt (words query) i doc)) := by
  have hscore := score_pos_of_shows hs hshows hx
  have hanswers := answers_ranking (words query) (r.bucket context)
  refine ⟨hscore, _, ?_, hanswers, hanswers.omitted i doc hdoc hscore⟩
  rw [Archive.query, hfault, best_eq]

namespace Sample

def quotedWord : Json :=
  .obj [("steps", .arr [.null, .obj [("said", .str "hold \"BTC\"\n")]])]

def twoLines : Json := .obj [("thought", .str "buy\nbtc")]

def deskArchive : Archive := (empty.upsert "desk" [twoLines, quotedWord]).2

end Sample

/-- `recalled_of_shows` for a word in quotes. -/
theorem recalled_of_shows_quoted :
    Shows "hold \"BTC\"\n".toList "btc".toList ∧
      0 < score (words "sell btc".toList) Sample.quotedWord ∧
      ∃ hs, (Sample.deskArchive.query "desk" "sell btc".toList).1 = .ok (hs.map (·.doc)) ∧
        Answers (words "sell btc".toList) (Sample.deskArchive.bucket "desk") hs ∧
        (hitAt (words "sell btc".toList) 1 Sample.quotedWord ∈ hs ∨
          hs.length = 5 ∧ ∀ h ∈ hs, h.Above (hitAt (words "sell btc".toList) 1 Sample.quotedWord)) := by
  have hword : Word "hold \"".toList "BTC".toList "\"\n".toList := by
    refine ⟨by decide, fun c hc => ?_, fun c hc => ?_, fun c hc => ?_⟩
    · have hall : "BTC".toList.all isAlphanumeric = true := by decide +kernel
      simpa using List.all_eq_true.mp hall c hc
    · cases hc
      decide +kernel
    · cases hc
      decide +kernel
  have hshows : Shows "hold \"BTC\"\n".toList "btc".toList := by
    refine ⟨"hold \"".toList, "BTC".toList, "\"\n".toList, by decide, hword, fun c hc => ?_,
      by decide +kernel⟩
    cases hc
    decide
  have hstring : Sample.quotedWord.HasString "hold \"BTC\"\n" :=
    .member (List.mem_singleton_self _) (.item (List.mem_cons_of_mem _ (List.mem_singleton_self _))
      (.member (List.mem_singleton_self _) .here))
  exact ⟨hshows, recalled_of_shows rfl (by decide +kernel) hstring hshows (by decide +kernel)⟩

/-- The first word of the second line is a word of the thought, but the escape of the line break
runs into it, so that the document is not found by it. -/
theorem line_break_hides_word :
    Sample.twoLines.HasString "buy\nbtc" ∧ "btc".toList ∈ words "buy\nbtc".toList ∧
      "btc".toList ∈ words "btc".toList ∧ score (words "btc".toList) Sample.twoLines = 0 ∧
      best "btc".toList [Sample.twoLines] = [] ∧
      ((empty.upsert "desk" [Sample.twoLines]).2.query "desk" "btc".toList).1 = .ok [] := by
  have hscore : score (words "btc".toList) Sample.twoLines = 0 := by decide +kernel
  have hhits : hits (words "btc".toList) [Sample.twoLines] = [] :=
    List.eq_nil_of_length_eq_zero (by rw [length_hits]; decide +kernel)
  have hbest : best "btc".toList [Sample.twoLines] = [] := by
    rw [best, hhits, List.mergeSort_nil]
    rfl
  exact ⟨.member (List.mem_singleton_self _) .here, by decide +kernel, by decide +kernel,
    hscore, hbest, congrArg Except.ok hbest⟩

end Archive

end TagLedger
