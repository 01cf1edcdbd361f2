import Mathlib.Tactic.Common
import TagLedger.Proofs.Markup.Layers
import TagLedger.Proofs.Markup.Signs
import TagLedger.Proofs.Markup.Writing
import TagLedger.Text.Alphanumeric

/-!
Spaces at the end of a text. They start no element, and what is withheld when they come stays
withheld, with one exception: an open tag without an end may get too long to be one. Then its `<` is
text, and what follows it is read anew.
-/

namespace TagLedger.Markup

def padding (n : Nat) : Text := List.replicate n ' '

theorem mem_padding {c : Char} {n : Nat} (h : c ∈ padding n) : c = ' ' :=
  List.eq_of_mem_replicate h

theorem notMem_padding (n : Nat) : '<' ∉ padding n := by
  intro hmem
  exact absurd (mem_padding hmem) (by decide)

theorem findTagEnd_padding (quote : Option Char) (offset n : Nat) :
    findTagEnd quote offset (padding n) =
      if n = 0 ∨ offset + n ≤ maxTagLength then .undecided else .tooLong := by
  have hspace : (' ' : Char).utf8Size = 1 := by decide
  induction n generalizing quote offset with
  | zero => rfl
  | succ n ih =>
    show findTagEnd quote offset (' ' :: padding n) = _
    have hnext := findTagEnd_sign quote offset ' '
    rw [hspace] at hnext
    rcases hnext with ⟨hend, -⟩ | ⟨hlong, hall⟩ | ⟨hshort, hall⟩
    · exact absurd hend (by decide)
    · rw [hall, if_neg (by omega)]
    · have hfits : (n = 0 ∨ offset + 1 + n ≤ maxTagLength) ↔
          (n + 1 = 0 ∨ offset + (n + 1) ≤ maxTagLength) := by omega
      rw [hall, ih, if_congr hfits rfl rfl]
      split_ifs <;> rfl

/-- The end of a tag is not in the padding, and the search for it stops at the limit. -/
theorem findTagEnd_append_padding {quote : Option Char} {offset : Nat} {t : Text}
    (h : findTagEnd quote offset t = .undecided) (n : Nat) :
    findTagEnd quote offset (t ++ padding n) =
      if n = 0 ∨ offset + Text.byteSize t + n ≤ maxTagLength then .undecided else .tooLong := by
  induction t generalizing quote offset with
  | nil => exact findTagEnd_padding quote offset n
  | cons c t ih =>
    rcases findTagEnd_sign quote offset c with ⟨-, hall⟩ | ⟨-, hall⟩ | ⟨-, hall⟩
    · simp [hall] at h
    · simp [hall] at h
    · rw [hall, TagEnd.prepend_eq_undecided] at h
      rw [List.cons_append, hall, ih h, Text.byteSize_cons, ← Nat.add_assoc]
      split_ifs <;> rfl

/-- A tag that may still go on is within the limit. -/
theorem byteSize_le_of_findTagEnd {quote : Option Char} {offset : Nat} {t : Text} (ht : t ≠ [])
    (h : findTagEnd quote offset t = .undecided) : offset + Text.byteSize t ≤ maxTagLength := by
  induction t generalizing quote offset with
  | nil => contradiction
  | cons c t ih =>
    rcases findTagEnd_sign quote offset c with ⟨-, hall⟩ | ⟨-, hall⟩ | ⟨hshort, hall⟩
    · simp [hall] at h
    · simp [hall] at h
    · rw [hall, TagEnd.prepend_eq_undecided] at h
      rw [Text.byteSize_cons]
      by_cases hnil : t = []
      · simpa [hnil] using hshort
      · have hle := ih hnil h
        omega

theorem utf8Size_of_isNameChar {c : Char} (h : isNameChar c = true) : c.utf8Size = 1 := by
  have hascii : c.val.toNat < 0x80 := by
    simp only [isNameChar, Bool.or_eq_true, beq_iff_eq] at h
    rcases h with ((h | rfl) | rfl) | rfl
    · exact Text.toNat_lt_of_isAlphanum h
    · decide
    · decide
    · decide
  exact Char.utf8Size_eq_one_iff.mpr (UInt32.le_iff_toNat_le.mpr (Nat.le_of_lt_succ hascii))

theorem byteSize_of_isNameChar {t : Text} (h : ∀ c ∈ t, isNameChar c = true) :
    Text.byteSize t = t.length := by
  induction t with
  | nil => rfl
  | cons c t ih =>
    obtain ⟨hc, ht⟩ := List.forall_mem_cons.mp h
    rw [Text.byteSize_cons, utf8Size_of_isNameChar hc, ih ht, List.length_cons, Nat.add_comm]

section Scan

variable {names : List Text} {t : Text}

/-- An open tag that may still go on behind its name goes on until it is too long. -/
theorem scanOpening_append_padding (h : scanOpening names t = .undecided)
    (hstop : t.dropWhile isNameChar ≠ []) (n : Nat) :
    scanOpening names (t ++ padding n) =
      if 1 + Text.byteSize t + n ≤ maxTagLength then .undecided else .noTag := by
  obtain ⟨c, rest, hrest⟩ := List.exists_cons_of_ne_nil hstop
  have hname : Text.byteSize (t.takeWhile isNameChar) = (t.takeWhile isNameChar).length :=
    byteSize_of_isNameChar fun c hc => List.mem_takeWhile_imp hc
  have hsize : Text.byteSize t =
      (t.takeWhile isNameChar).length + Text.byteSize (c :: rest) := by
    rw [← hname, ← Text.byteSize_append, ← hrest, List.takeWhile_append_dropWhile]
  simp only [scanOpening, takeWhile_append_of_stop _ hstop, dropWhile_append_of_stop _ hstop, hrest,
    List.cons_append] at h ⊢
  split_ifs at h with hunknown hafter
  rw [if_neg hunknown, if_neg hafter, ← List.cons_append]
  cases hend : findTagEnd none (1 + (t.takeWhile isNameChar).length) (c :: rest) with
  | found inside rest' => simp [hend] at h
  | tooLong => simp [hend] at h
  | undecided =>
    have hle := byteSize_le_of_findTagEnd (List.cons_ne_nil c rest) hend
    have hfits : (n = 0 ∨ 1 + (t.takeWhile isNameChar).length + Text.byteSize (c :: rest) + n ≤
        maxTagLength) ↔ 1 + Text.byteSize t + n ≤ maxTagLength := by omega
    rw [findTagEnd_append_padding hend, if_congr hfits rfl rfl]
    split_ifs <;> rfl

/-- A name that may still go on is no tag with blanks behind it. -/
theorem scanOpening_name_padding (h : ∀ c ∈ t, isNameChar c = true) (n : Nat) :
    scanOpening names (t ++ padding n) = .undecided ∨
      scanOpening names (t ++ padding n) = .noTag := by
  have hspace : isNameChar ' ' = false := by decide
  cases n with
  | zero =>
    have hend : (t ++ padding 0).dropWhile isNameChar = [] := by
      simpa [padding, List.dropWhile_eq_nil_iff] using h
    simp only [scanOpening, hend]
    split_ifs
    · exact .inl rfl
    · exact .inr rfl
  | succ n =>
    have htake : (t ++ padding (n + 1)).takeWhile isNameChar = t := takeWhile_name h hspace _
    have hdrop : (t ++ padding (n + 1)).dropWhile isNameChar = ' ' :: padding n :=
      dropWhile_name h hspace _
    have hend (offset : Nat) : findTagEnd none offset (' ' :: padding n) = _ :=
      findTagEnd_padding none offset (n + 1)
    simp only [scanOpening, htake, hdrop, hend]
    split_ifs
    · exact .inr rfl
    · exact .inr rfl
    · exact .inl rfl
    · exact .inr rfl

theorem isNameChar_of_isAsciiBlank {c : Char} (h : Text.isAsciiBlank c = true) :
    isNameChar c = false := by
  simp only [Text.isAsciiBlank, Bool.or_eq_true, beq_iff_eq] at h
  rcases h with (((rfl | rfl) | rfl) | rfl) | rfl <;> decide

/-- A name and blanks are no close tag yet, or never. -/
theorem scanClosing_name_blanks {name blanks : Text} (hname : ∀ c ∈ name, isNameChar c = true)
    (hblanks : ∀ c ∈ blanks, Text.isAsciiBlank c = true) :
    scanClosing names (name ++ blanks) = .undecided ∨
      scanClosing names (name ++ blanks) = .noTag := by
  have hnone : blanks.dropWhile Text.isAsciiBlank = [] := List.dropWhile_eq_nil_iff.mpr hblanks
  have hrest : (name ++ blanks).dropWhile isNameChar = blanks := by
    cases blanks with
    | nil => simpa using hname
    | cons c blanks =>
      exact dropWhile_name hname (isNameChar_of_isAsciiBlank (hblanks c List.mem_cons_self)) blanks
  simp only [scanClosing, hrest, hnone]
  split_ifs
  · exact .inl rfl
  · exact .inr rfl
  · exact .inr rfl
  · exact .inl rfl

theorem isAsciiBlank_padding (n : Nat) : ∀ c ∈ padding n, Text.isAsciiBlank c = true := by
  intro c hc
  rw [mem_padding hc]
  decide

/-- A close tag that may still go on is a name and blanks. -/
theorem scanClosing_undecided (h : scanClosing names t = .undecided) :
    ∃ name blanks, t = name ++ blanks ∧ (∀ c ∈ name, isNameChar c = true) ∧
      ∀ c ∈ blanks, Text.isAsciiBlank c = true := by
  refine ⟨t.takeWhile isNameChar, t.dropWhile isNameChar, List.takeWhile_append_dropWhile.symm,
    fun c hc => List.mem_takeWhile_imp hc, ?_⟩
  simp only [scanClosing] at h
  split_ifs at h with hend hcould hunknown
  · simp [List.isEmpty_iff.mp hend]
  · split at h
    · rename_i hblank
      exact List.dropWhile_eq_nil_iff.mp hblank
    · cases h
    · cases h

theorem head?_append_padding (h : t.head? ≠ some '/') (n : Nat) :
    (t ++ padding n).head? ≠ some '/' := by
  cases t with
  | nil => cases n <;> simp [padding, List.replicate_succ]
  | cons c t => exact h

/-- What is withheld, a `<` and no other behind it, is no tag with blanks behind it. -/
theorem scanTag_append_padding_of_notMem (h : scanTag names t = .undecided) (ht : '<' ∉ t)
    (n : Nat) :
    scanTag names (t ++ padding n) = .undecided ∨ scanTag names (t ++ padding n) = .noTag := by
  by_cases hslash : t.head? = some '/'
  · obtain ⟨u, rfl⟩ := List.head?_eq_some_iff.mp hslash
    obtain ⟨name, blanks, rfl, hname, hblanks⟩ := scanClosing_undecided h
    have hall : ∀ c ∈ blanks ++ padding n, Text.isAsciiBlank c = true :=
      List.forall_mem_append.mpr ⟨hblanks, isAsciiBlank_padding n⟩
    have hread : scanTag names ('/' :: (name ++ blanks) ++ padding n) =
        scanClosing names (name ++ (blanks ++ padding n)) := by
      rw [← List.append_assoc]
      rfl
    rw [hread]
    exact scanClosing_name_blanks hname hall
  · rw [scanTag_eq_scanOpening hslash] at h
    rw [scanTag_eq_scanOpening (head?_append_padding hslash n)]
    by_cases hstop : t.dropWhile isNameChar = []
    · exact scanOpening_name_padding (List.dropWhile_eq_nil_iff.mp hstop) n
    · rw [scanOpening_append_padding h hstop]
      split_ifs
      · exact .inl rfl
      · exact .inr rfl

/-- What is withheld with another `<` in it is an open tag, which gets too long. -/
theorem scanTag_append_padding_of_mem (h : scanTag names t = .undecided) (ht : '<' ∈ t) (n : Nat) :
    scanTag names (t ++ padding n) =
      if 1 + Text.byteSize t + n ≤ maxTagLength then .undecided else .noTag := by
  by_cases hslash : t.head? = some '/'
  · obtain ⟨u, rfl⟩ := List.head?_eq_some_iff.mp hslash
    obtain ⟨name, blanks, rfl, hname, hblanks⟩ := scanClosing_undecided h
    simp only [List.mem_cons, List.mem_append] at ht
    rcases ht with ht | ht | ht
    · exact absurd ht (by decide)
    · exact absurd (hname '<' ht) (by decide)
    · exact absurd (hblanks '<' ht) (by decide)
  · rw [scanTag_eq_scanOpening hslash] at h
    rw [scanTag_eq_scanOpening (head?_append_padding hslash n)]
    refine scanOpening_append_padding h ?_ n
    intro hstop
    exact absurd (List.dropWhile_eq_nil_iff.mp hstop '<' ht) (by decide)

/-- No tag is read from a text without `<`. -/
theorem texts_of_notMem (ht : '<' ∉ t) : ∀ token ∈ (drain names t).1, ∃ u, token = .text u := by
  cases t with
  | nil =>
    have hnone : drain names [] = ([], []) := drain_of_none rfl
    simp [hnone]
  | cons c t =>
    simp only [List.mem_cons, not_or] at ht
    have hrest : t.dropWhile (· != '<') = [] := by
      refine List.dropWhile_eq_nil_iff.mpr fun d hd => ?_
      simp only [bne_iff_ne]
      rintro rfl
      exact ht.2 hd
    have hnone : drain names [] = ([], []) := drain_of_none rfl
    rw [drain_of_some (nextToken?_text names (Ne.symm ht.1) t), hrest, hnone]
    simp

end Scan

def startedElements (evs : List ElementEvent) : List Element :=
  (evs.filter (·.kind == .started)).map (·.element)

@[simp] theorem startedElements_append (xs ys : List ElementEvent) :
    startedElements (xs ++ ys) = startedElements xs ++ startedElements ys := by
  simp [startedElements]

theorem startedElements_boundaries (evs : List ElementEvent) :
    startedElements (boundaries evs) = startedElements evs := by
  simp only [startedElements, boundaries, List.filter_filter]
  congr 2
  funext ev
  cases ev.kind <;> rfl

namespace Parser

variable {p : Parser}

theorem startedElements_addText (p : Parser) (t : Text) : startedElements (p.addText t).2 = [] := by
  cases h : p.current <;> simp [addText, h, startedElements]

theorem startedElements_texts {ts : List Token} (h : ∀ token ∈ ts, ∃ u, token = .text u) :
    startedElements (p.applyAll ts).2 = [] := by
  induction ts generalizing p with
  | nil => rfl
  | cons token ts ih =>
    obtain ⟨⟨u, rfl⟩, hts⟩ := List.forall_mem_cons.mp h
    have hone : startedElements (p.apply (.text u)).2 = [] := p.startedElements_addText u
    rw [applyAll_cons, startedElements_append, hone, ih hts, List.append_nil]

/-- The end of the text starts nothing. -/
theorem startedElements_finish (p : Parser) : startedElements p.finish.2 = [] := by
  have htexts : ∀ token ∈ (flush p.buffer).toList, ∃ u, token = .text u := by
    cases p.buffer <;> simp [flush]
  rw [events_finish p rfl, startedElements_append, startedElements_texts htexts]
  simp [startedElements, endings]

theorem startedElements_feed_texts {chunk : Text}
    (h : ∀ token ∈ (drain p.vocabulary.names (p.buffer ++ chunk)).1, ∃ u, token = .text u) :
    startedElements (p.feed chunk).2 = [] := by
  rw [feed_eq p chunk rfl]
  exact startedElements_texts h

/-- The parser without what it withholds, but for the first sign of that, which has become text. -/
def giveUp (p : Parser) : Parser := (p.addText (p.buffer.take 1)).1.withBuffer []

@[simp] theorem giveUp_buffer (p : Parser) : p.giveUp.buffer = [] := rfl

theorem exists_scan_of_settled (h : p.Settled) (hne : p.buffer ≠ []) :
    ∃ t, p.buffer = '<' :: t ∧ scanTag p.vocabulary.names t = .undecided := by
  obtain ⟨c, t, hbuffer⟩ := List.exists_cons_of_ne_nil hne
  rw [Settled, hbuffer] at h
  by_cases hc : c = '<'
  · subst hc
    refine ⟨t, hbuffer, ?_⟩
    cases hscan : scanTag p.vocabulary.names t with
    | tag token rest => simp [nextToken?, hscan] at h
    | undecided => rfl
    | noTag => simp [nextToken?, hscan] at h
  · rw [nextToken?_text _ hc] at h
    cases h

/-- A `<` that is given up is text, and the rest is read anew. -/
theorem startedElements_feed_of_noTag {t chunk : Text} (hbuffer : p.buffer = '<' :: t)
    (hscan : scanTag p.vocabulary.names (t ++ chunk) = .noTag) :
    startedElements (p.feed chunk).2 = startedElements (p.giveUp.feed (t ++ chunk)).2 := by
  have hnext : nextToken? p.vocabulary.names (p.buffer ++ chunk) =
      some (.text ['<'], t ++ chunk) := by
    simp [hbuffer, nextToken?, hscan]
  have hfirst : startedElements (p.apply (.text ['<'])).2 = [] := p.startedElements_addText ['<']
  have hgiven : p.giveUp = (p.apply (.text ['<'])).1.withBuffer [] := by
    rw [giveUp, hbuffer]
    rfl
  rw [feed_eq p chunk (drain_of_some hnext), feed_eq p.giveUp (t ++ chunk) rfl, hgiven,
    applyAll_withBuffer, applyAll_cons, startedElements_append, hfirst]
  simp

/-- While a `<` is undecided nothing starts. -/
theorem startedElements_feed_of_undecided {t chunk : Text} (hbuffer : p.buffer = '<' :: t)
    (hscan : scanTag p.vocabulary.names (t ++ chunk) = .undecided) :
    startedElements (p.feed chunk).2 = [] := by
  have hnext : nextToken? p.vocabulary.names (p.buffer ++ chunk) = none := by
    simp [hbuffer, nextToken?, hscan]
  exact startedElements_feed_texts (by simp [drain_of_none hnext])

/-- What the padding of a text starts. -/
theorem startedElements_feed_padding (h : p.Settled) (n : Nat) :
    startedElements (p.feed (padding n)).2 =
      if Text.byteSize p.buffer + n ≤ maxTagLength then []
      else startedElements (p.giveUp.feed (p.buffer.tail ++ padding n)).2 := by
  have hnothing (ht : '<' ∉ p.buffer.tail) :
      startedElements (p.giveUp.feed (p.buffer.tail ++ padding n)).2 = [] :=
    startedElements_feed_texts (texts_of_notMem (by simp [ht, notMem_padding]))
  by_cases hne : p.buffer = []
  · have hfeed : startedElements (p.feed (padding n)).2 = [] :=
      startedElements_feed_texts (texts_of_notMem (by simp [hne, notMem_padding]))
    rw [hfeed, hnothing (by simp [hne]), ite_self]
  obtain ⟨t, hbuffer, hscan⟩ := exists_scan_of_settled h hne
  have htail : p.buffer.tail = t := by rw [hbuffer, List.tail_cons]
  rw [htail] at hnothing ⊢
  by_cases ht : '<' ∈ t
  · have hmore := scanTag_append_padding_of_mem hscan ht n
    have hless : ('<' : Char).utf8Size = 1 := by decide
    rw [hbuffer, Text.byteSize_cons, hless]
    split_ifs at hmore ⊢
    · exact startedElements_feed_of_undecided hbuffer hmore
    · exact startedElements_feed_of_noTag hbuffer hmore
  · -- whether or not the first sign is given up, there is no other
    rw [hnothing ht, ite_self]
    rcases scanTag_append_padding_of_notMem hscan ht n with hu | hno
    · exact startedElements_feed_of_undecided hbuffer hu
    · rw [startedElements_feed_of_noTag hbuffer hno, hnothing ht]

theorem startedElements_events (p : Parser) (cs : List Text) :
    startedElements (p.events cs) = startedElements (p.feedAll cs).2 := by
  rw [events, startedElements_append, startedElements_finish, List.append_nil]

theorem startedElements_events_singleton (p : Parser) (t : Text) :
    startedElements (p.events [t]) = startedElements (p.feed t).2 := by
  rw [startedElements_events]
  simp [feedAll]

/-- Two pieces start what one starts. -/
theorem startedElements_feed_append (p : Parser) (c d : Text) :
    startedElements (p.feed (c ++ d)).2 =
      startedElements (p.feed c).2 ++ startedElements ((p.feed c).1.feed d).2 := by
  rw [← startedElements_boundaries, ← (p.feed_append c d).2, startedElements_boundaries,
    startedElements_append]

/-- A text with spaces behind it starts what the text starts, and nothing more as long as the text
that is withheld at its end is with the spaces within the limit of a tag. When that is longer, its
first sign is given up and the rest is read anew. -/
theorem started_of_padded (v : Vocabulary) (first : Nat) (cs ds : List Text) (n : Nat)
    (hds : ds.flatten = cs.flatten ++ padding n) :
    let p := ((new v first).feedAll cs).1
    startedElements ((new v first).events ds) =
      startedElements ((new v first).events cs) ++
        if Text.byteSize p.buffer + n ≤ maxTagLength then []
        else startedElements (p.giveUp.events [p.buffer.tail ++ padding n]) := by
  intro p
  have hsettled : p.Settled := settled_feedAll (settled_new v first) cs
  have hflatten : ds.flatten = (cs ++ [padding n]).flatten := by simp [hds]
  have hcut : startedElements ((new v first).events ds) =
      startedElements ((new v first).events (cs ++ [padding n])) := by
    rw [← startedElements_boundaries, boundaries_events v first ds, hflatten,
      ← boundaries_events, startedElements_boundaries]
  rw [hcut, startedElements_events, startedElements_events, feedAll_concat,
    startedElements_append, startedElements_feed_padding hsettled, startedElements_events_singleton]

/-- One space more than the limit allows behind a tag that is still in the quotes of another. -/
theorem started_of_padded_past_limit :
    let v : Vocabulary := [⟨"a".toList, false, false⟩, ⟨"b".toList, false, false⟩]
    let cs := ["<b/><a".toList, " \"<b>".toList]
    let ds := [cs.flatten ++ padding 4090]
    let p := ((new v 0).feedAll cs).1
    ds.flatten = cs.flatten ++ padding 4090 ∧
      startedElements ((new v 0).events ds) =
        startedElements ((new v 0).events cs) ++
          if Text.byteSize p.buffer + 4090 ≤ maxTagLength then []
          else startedElements (p.giveUp.events [p.buffer.tail ++ padding 4090]) := by
  intro v cs ds p
  have hds : ds.flatten = cs.flatten ++ padding 4090 := List.flatten_singleton
  exact ⟨hds, started_of_padded v 0 cs ds 4090 hds⟩

/-- A tag in the quotes of an open tag without an end is not read, unless enough spaces follow. -/
theorem padding_starts_more :
    let v : Vocabulary := [⟨"a".toList, false, false⟩, ⟨"b".toList, false, false⟩]
    let t := "<a \"<b>".toList
    startedElements ((new v 0).events [t]) = [] ∧
      startedElements ((new v 0).events [t ++ padding 4090]) = [Element.begin 0 "b".toList []] := by
  intro v t
  have halone : startedElements ((new v 0).events [t]) = [] := by decide +kernel
  refine ⟨halone, ?_⟩
  let p := ((new v 0).feed t).1
  let q := (p.giveUp.feed t.tail).1
  have hfirst : startedElements ((new v 0).feed t).2 = [] := by decide +kernel
  have hwithheld : p.buffer = t := by decide +kernel
  have hlong : ¬ Text.byteSize p.buffer + 4090 ≤ maxTagLength := by
    rw [hwithheld]
    decide
  have hinner : startedElements (p.giveUp.feed t.tail).2 = [Element.begin 0 "b".toList []] := by
    decide +kernel
  have hempty : q.buffer = [] := by decide +kernel
  have hshort : Text.byteSize q.buffer + 4090 ≤ maxTagLength := by
    rw [hempty]
    decide
  have hpadding : startedElements (q.feed (padding 4090)).2 = [] := by
    rw [startedElements_feed_padding (settled_feed _ _), if_pos hshort]
  rw [startedElements_events_singleton, startedElements_feed_append, hfirst, List.nil_append,
    startedElements_feed_padding (settled_feed _ _), if_neg hlong, hwithheld,
    startedElements_feed_append, hinner, hpadding, List.append_nil]

end Parser

end TagLedger.Markup
