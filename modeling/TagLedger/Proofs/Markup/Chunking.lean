import TagLedger.Markup.Element
import TagLedger.Proofs.Markup.Extension

/-!
The way a text is cut into pieces does not change what is parsed. Tokens of two cuttings differ only
in how runs of text are split, and the parser does not see that: its state and the starts and ends
of elements are those of the text as a whole.
-/

namespace TagLedger.Markup

/-- A token with its text cut into single characters. -/
def Token.atoms : Token → List Token
  | .text t => t.map fun c => .text [c]
  | token => [token]

def atoms (tokens : List Token) : List Token := tokens.flatMap Token.atoms

@[simp] theorem atoms_nil : atoms [] = [] := rfl

@[simp] theorem atoms_cons (t : Token) (ts : List Token) : atoms (t :: ts) = t.atoms ++ atoms ts :=
  rfl

@[simp] theorem atoms_append (ts us : List Token) : atoms (ts ++ us) = atoms ts ++ atoms us :=
  List.flatMap_append

theorem atoms_text_append (t u : Text) :
    (Token.text (t ++ u)).atoms = (Token.text t).atoms ++ (Token.text u).atoms :=
  List.map_append

theorem drain_of_none {names : List Text} {b : Text} (h : nextToken? names b = none) :
    drain names b = ([], b) := by
  rw [drain]
  split
  · rfl
  · rename_i heq
    simp [h] at heq

theorem drain_of_some {names : List Text} {b rest : Text} {token : Token}
    (h : nextToken? names b = some (token, rest)) :
    drain names b = (token :: (drain names rest).1, (drain names rest).2) := by
  rw [drain]
  split
  · rename_i heq
    simp [h] at heq
  · rename_i heq
    rw [h] at heq
    cases heq
    rfl

/-- No token can be taken from what draining leaves. -/
theorem nextToken?_drain (names : List Text) (b : Text) :
    nextToken? names (drain names b).2 = none := by
  induction b using drain.induct names with
  | case1 b h => rwa [drain_of_none h]
  | case2 b token rest h ih => rwa [drain_of_some h]

theorem nextToken?_text (names : List Text) {c : Char} (hc : c ≠ '<') (t : Text) :
    nextToken? names (c :: t) =
      some (.text (c :: t.takeWhile (· != '<')), t.dropWhile (· != '<')) := by
  unfold nextToken?
  split
  · contradiction
  · rename_i heq
    exact absurd (List.cons.inj heq).1 hc
  · rename_i heq
    cases heq
    rfl

/-- A run of text in front adds its characters and nothing else. -/
theorem drain_text (names : List Text) {c : Char} {t : Text} (hc : c ≠ '<')
    (ht : ∀ d ∈ t, (d != '<') = true) (b : Text) :
    (drain names (c :: t ++ b)).2 = (drain names b).2 ∧
      atoms (drain names (c :: t ++ b)).1 =
        (Token.text (c :: t)).atoms ++ atoms (drain names b).1 := by
  rw [List.cons_append, drain_of_some (nextToken?_text names hc _),
    List.takeWhile_append_of_pos ht, List.dropWhile_append_of_pos ht]
  cases b with
  | nil => simp
  | cons d b =>
    by_cases hd : d = '<'
    · subst hd
      simp
    · have hd' : (d != '<') = true := by simpa using hd
      have htake : (d :: b).takeWhile (· != '<') = d :: b.takeWhile (· != '<') :=
        List.takeWhile_cons_of_pos hd'
      have hdrop : (d :: b).dropWhile (· != '<') = b.dropWhile (· != '<') :=
        List.dropWhile_cons_of_pos hd'
      rw [drain_of_some (nextToken?_text names hd b), htake, hdrop]
      refine ⟨rfl, ?_⟩
      rw [atoms_cons, atoms_cons, ← List.cons_append, atoms_text_append, List.append_assoc]

/-- Draining a longer buffer gives what draining its beginning gives, and then what draining the
rest together with the addition gives. -/
theorem drain_append (names : List Text) (b more : Text) :
    (drain names (b ++ more)).2 = (drain names ((drain names b).2 ++ more)).2 ∧
      atoms (drain names (b ++ more)).1 =
        atoms (drain names b).1 ++ atoms (drain names ((drain names b).2 ++ more)).1 := by
  induction b using drain.induct names with
  | case1 b h => simp [drain_of_none h]
  | case2 b token rest h ih =>
    rw [drain_of_some h]
    cases b with
    | nil => simp [nextToken?] at h
    | cons c t =>
      by_cases hc : c = '<'
      · subst hc
        rw [drain_of_some (nextToken?_append more h)]
        exact ⟨ih.1, by simp [ih.2]⟩
      rw [nextToken?_text names hc t, Option.some.injEq, Prod.mk.injEq] at h
      obtain ⟨rfl, rfl⟩ := h
      by_cases hrest : t.dropWhile (· != '<') = []
      · -- the run of text may go on in what is added
        have ht := List.dropWhile_eq_nil_iff.mp hrest
        have hempty : drain names [] = ([], []) := drain_of_none rfl
        simpa [hrest, hempty, List.takeWhile_eq_self_iff.mpr ht] using drain_text names hc ht more
      · rw [List.cons_append, drain_of_some (nextToken?_text names hc _),
          takeWhile_append_of_stop more hrest, dropWhile_append_of_stop more hrest]
        exact ⟨ih.1, by simp [ih.2]⟩

def boundaries (events : List ElementEvent) : List ElementEvent :=
  events.filter fun ev => ev.kind != .grew

@[simp] theorem boundaries_append (xs ys : List ElementEvent) :
    boundaries (xs ++ ys) = boundaries xs ++ boundaries ys :=
  List.filter_append xs ys

def Agree (x y : Parser × List ElementEvent) : Prop :=
  x.1 = y.1 ∧ boundaries x.2 = boundaries y.2

namespace Agree

variable {x y z : Parser × List ElementEvent}

theorem refl (x : Parser × List ElementEvent) : Agree x x := ⟨rfl, rfl⟩

theorem symm (h : Agree x y) : Agree y x := ⟨h.1.symm, h.2.symm⟩

theorem trans (h : Agree x y) (h' : Agree y z) : Agree x z := ⟨h.1.trans h'.1, h.2.trans h'.2⟩

/-- Agreement lasts when both go on in the same way. -/
theorem append (h : Agree x y) {x' y' : Parser × List ElementEvent} (h' : Agree x' y') :
    Agree (x'.1, x.2 ++ x'.2) (y'.1, y.2 ++ y'.2) :=
  ⟨h'.1, by simp only [boundaries_append, h.2, h'.2]⟩

end Agree

namespace Parser

@[simp] theorem applyAll_nil (p : Parser) : p.applyAll [] = (p, []) := rfl

@[simp] theorem applyAll_cons (p : Parser) (t : Token) (ts : List Token) :
    p.applyAll (t :: ts) =
      (((p.apply t).1.applyAll ts).1, (p.apply t).2 ++ ((p.apply t).1.applyAll ts).2) :=
  rfl

theorem applyAll_append (p : Parser) (ts us : List Token) :
    p.applyAll (ts ++ us) =
      (((p.applyAll ts).1.applyAll us).1,
        (p.applyAll ts).2 ++ ((p.applyAll ts).1.applyAll us).2) := by
  induction ts generalizing p with
  | nil => rfl
  | cons t ts ih => simp [ih]

theorem applyAll_concat (p : Parser) (ts : List Token) (t : Token) :
    p.applyAll (ts ++ [t]) =
      (((p.applyAll ts).1.apply t).1, (p.applyAll ts).2 ++ ((p.applyAll ts).1.apply t).2) := by
  simp [applyAll_append]

/-- The state machine sees no difference between a text and its characters. -/
theorem applyAll_text_atoms (p : Parser) (t : Text) :
    Agree (p.applyAll (Token.text t).atoms) (p.apply (.text t)) := by
  induction t generalizing p with
  | nil =>
    obtain ⟨vocabulary, buffer, current, stack, nextIndex⟩ := p
    cases current with
    | none => exact Agree.refl _
    | some e => simp [Token.atoms, apply, addText, Agree, boundaries]
  | cons c t ih =>
    have hmap : (Token.text (c :: t)).atoms = .text [c] :: (Token.text t).atoms := rfl
    rw [hmap, applyAll_cons]
    have hrest := ih (p.apply (.text [c])).1
    cases h : p.current with
    | none =>
      have hone : p.apply (.text [c]) = (p, []) := by simp [apply, addText, h]
      rw [hone] at hrest ⊢
      simpa [apply, addText, h] using hrest
    | some e =>
      refine ⟨hrest.1.trans ?_, ?_⟩
      · simp [apply, addText, h]
      · rw [boundaries_append, hrest.2]
        simp [apply, addText, h, boundaries]

theorem applyAll_token_atoms (p : Parser) (t : Token) :
    Agree (p.applyAll t.atoms) (p.apply t) := by
  cases t with
  | text t => exact p.applyAll_text_atoms t
  | opening name attributes selfClosing raw => simp [Token.atoms, Agree.refl]
  | closing name raw => simp [Token.atoms, Agree.refl]

/-- Tokens have the effect of their atoms. -/
theorem applyAll_atoms (p : Parser) (ts : List Token) :
    Agree (p.applyAll (atoms ts)) (p.applyAll ts) := by
  induction ts generalizing p with
  | nil => exact Agree.refl _
  | cons t ts ih =>
    have hone := p.applyAll_token_atoms t
    rw [atoms_cons, applyAll_append, applyAll_cons, hone.1]
    exact hone.append (ih _)

/-- Tokens with the same atoms have the same effect. -/
theorem applyAll_congr (p : Parser) {ts us : List Token} (h : atoms ts = atoms us) :
    Agree (p.applyAll ts) (p.applyAll us) := by
  have hts := (p.applyAll_atoms ts).symm
  rw [h] at hts
  exact hts.trans (p.applyAll_atoms us)

def withBuffer (b : Text) (p : Parser) : Parser := { p with buffer := b }

@[simp] theorem withBuffer_vocabulary (b : Text) (p : Parser) :
    (p.withBuffer b).vocabulary = p.vocabulary := rfl

@[simp] theorem withBuffer_buffer (b : Text) (p : Parser) : (p.withBuffer b).buffer = b := rfl

@[simp] theorem withBuffer_withBuffer (b c : Text) (p : Parser) :
    (p.withBuffer b).withBuffer c = p.withBuffer c := rfl

theorem addText_withBuffer (p : Parser) (b t : Text) :
    (p.withBuffer b).addText t = ((p.addText t).1.withBuffer b, (p.addText t).2) := by
  obtain ⟨vocabulary, buffer, current, stack, nextIndex⟩ := p
  cases current <;> rfl

theorem startElement_withBuffer (p : Parser) (b tag : Text) (attributes : Attributes)
    (selfClosing : Bool) :
    (p.withBuffer b).startElement tag attributes selfClosing =
      ((p.startElement tag attributes selfClosing).1.withBuffer b,
        (p.startElement tag attributes selfClosing).2) := by
  cases selfClosing <;> rfl

/-- The state machine neither reads nor changes the buffer. -/
theorem apply_withBuffer (p : Parser) (b : Text) (t : Token) :
    (p.withBuffer b).apply t = ((p.apply t).1.withBuffer b, (p.apply t).2) := by
  obtain ⟨vocabulary, buffer, current, stack, nextIndex⟩ := p
  cases t with
  | text t => exact addText_withBuffer _ b t
  | opening name attributes selfClosing raw =>
    cases current with
    | none => exact startElement_withBuffer _ b name attributes selfClosing
    | some e =>
      simp only [apply, openTag, withBuffer]
      by_cases htag : e.tag = name
      · by_cases hdeep : (vocabulary.isReentrant name && !selfClosing) = true
        · simp only [htag, hdeep, ↓reduceIte]
          rfl
        · simp only [htag, hdeep, Bool.false_eq_true, ↓reduceIte]
          rfl
      · by_cases hchild : vocabulary.isContainer e.tag = true
        · simp only [htag, hchild, ↓reduceIte]
          cases selfClosing <;> rfl
        · simp only [htag, hchild, Bool.false_eq_true, ↓reduceIte]
          rfl
  | closing name raw =>
    cases current with
    | none => rfl
    | some e =>
      simp only [apply, closeTag, withBuffer]
      by_cases htag : e.tag = name
      · by_cases hdeep : 0 < e.depth
        · simp only [htag, hdeep, ↓reduceIte]
          rfl
        · simp only [htag, hdeep, ↓reduceIte]
          rfl
      · simp only [htag, ↓reduceIte]
        cases stack.findIdx? fun x => x.tag == name with
        | some i => rfl
        | none =>
          by_cases hignored : vocabulary.isContainer e.tag = true
          · simp only [hignored, ↓reduceIte]
          · simp only [hignored, Bool.false_eq_true, ↓reduceIte]
            rfl

theorem applyAll_withBuffer (p : Parser) (b : Text) (ts : List Token) :
    (p.withBuffer b).applyAll ts = ((p.applyAll ts).1.withBuffer b, (p.applyAll ts).2) := by
  induction ts generalizing p with
  | nil => rfl
  | cons t ts ih => rw [applyAll_cons, applyAll_cons, apply_withBuffer, ih]

@[simp] theorem addText_vocabulary (p : Parser) (t : Text) :
    (p.addText t).1.vocabulary = p.vocabulary := by
  obtain ⟨vocabulary, buffer, current, stack, nextIndex⟩ := p
  cases current <;> rfl

@[simp] theorem startElement_vocabulary (p : Parser) (tag : Text) (attributes : Attributes)
    (selfClosing : Bool) :
    (p.startElement tag attributes selfClosing).1.vocabulary = p.vocabulary := by
  cases selfClosing <;> rfl

@[simp] theorem apply_vocabulary (p : Parser) (t : Token) :
    (p.apply t).1.vocabulary = p.vocabulary := by
  cases t with
  | text t => exact p.addText_vocabulary t
  | opening name attributes selfClosing raw =>
    simp only [apply, openTag]
    split
    · exact p.startElement_vocabulary name attributes selfClosing
    · split_ifs <;> simp
  | closing name raw =>
    simp only [apply, closeTag]
    split
    · rfl
    · split
      · split
        · simp
        · rfl
      · split
        · split
          · rfl
          · simp
        · rfl

@[simp] theorem applyAll_vocabulary (p : Parser) (ts : List Token) :
    (p.applyAll ts).1.vocabulary = p.vocabulary := by
  induction ts generalizing p with
  | nil => rfl
  | cons t ts ih => rw [applyAll_cons, ih, apply_vocabulary]

/-- Feeding in terms of the tokens that the buffer and the piece hold together. -/
theorem feed_eq (p : Parser) (chunk : Text) {ts : List Token} {rest : Text}
    (h : drain p.vocabulary.names (p.buffer ++ chunk) = (ts, rest)) :
    p.feed chunk = ((p.applyAll ts).1.withBuffer rest, (p.applyAll ts).2) := by
  unfold feed
  rw [h]
  exact p.applyAll_withBuffer rest ts

/-- Nothing more can be taken from the buffer as it is. -/
def Settled (p : Parser) : Prop := nextToken? p.vocabulary.names p.buffer = none

theorem settled_new (v : Vocabulary) (firstIndex : Nat) : (new v firstIndex).Settled := rfl

theorem settled_feed (p : Parser) (chunk : Text) : (p.feed chunk).1.Settled := by
  rw [feed_eq p chunk rfl]
  simpa [Settled] using nextToken?_drain _ _

theorem settled_feedAll {p : Parser} (h : p.Settled) (cs : List Text) :
    (p.feedAll cs).1.Settled := by
  induction cs generalizing p with
  | nil => exact h
  | cons c cs ih => exact ih (p.settled_feed c)

theorem feedAll_concat (p : Parser) (cs : List Text) (d : Text) :
    p.feedAll (cs ++ [d]) =
      (((p.feedAll cs).1.feed d).1, (p.feedAll cs).2 ++ ((p.feedAll cs).1.feed d).2) := by
  induction cs generalizing p with
  | nil => simp [feedAll]
  | cons c cs ih => simp [feedAll, ih]

/-- Two pieces have the effect of one. -/
theorem feed_append (p : Parser) (c d : Text) :
    Agree (((p.feed c).1.feed d).1, (p.feed c).2 ++ ((p.feed c).1.feed d).2) (p.feed (c ++ d)) := by
  obtain ⟨ts, rest, hc⟩ : ∃ ts rest, drain p.vocabulary.names (p.buffer ++ c) = (ts, rest) :=
    ⟨_, _, rfl⟩
  obtain ⟨us, rest', hd⟩ : ∃ us rest', drain p.vocabulary.names (rest ++ d) = (us, rest') :=
    ⟨_, _, rfl⟩
  obtain ⟨ws, rest'', hcd⟩ :
      ∃ ws rest'', drain p.vocabulary.names (p.buffer ++ (c ++ d)) = (ws, rest'') := ⟨_, _, rfl⟩
  have hdrain := drain_append p.vocabulary.names (p.buffer ++ c) d
  rw [List.append_assoc, hcd, hc, hd, ← atoms_append] at hdrain
  obtain ⟨rfl, htokens⟩ : rest'' = rest' ∧ atoms ws = atoms (ts ++ us) := hdrain
  have hagree := p.applyAll_congr htokens.symm
  rw [applyAll_append] at hagree
  rw [feed_eq p c hc, feed_eq p (c ++ d) hcd, feed_eq _ d (by simpa using hd),
    applyAll_withBuffer, withBuffer_withBuffer]
  exact ⟨congrArg (withBuffer _) hagree.1, hagree.2⟩

/-- Any pieces have the effect of the text that they make up. -/
theorem feedAll_agree_flatten {p : Parser} (h : p.Settled) (cs : List Text) :
    Agree (p.feedAll cs) (p.feed cs.flatten) := by
  induction cs generalizing p with
  | nil =>
    rw [List.flatten_nil, feed_eq p [] (by rw [List.append_nil, drain_of_none h])]
    exact Agree.refl _
  | cons c cs ih =>
    exact ((Agree.refl (p.feed c)).append (ih (p.settled_feed c))).trans (p.feed_append c _)

/-- Two cuttings of one text lead to the same parser, through the same starts and ends of elements,
both before and after the end of the text. -/
theorem feedAll_of_flatten_eq (v : Vocabulary) (firstIndex : Nat) (cs ds : List Text)
    (h : cs.flatten = ds.flatten) :
    let x := (new v firstIndex).feedAll cs
    let y := (new v firstIndex).feedAll ds
    (x.1 = y.1 ∧ boundaries x.2 = boundaries y.2) ∧
      x.1.finish.1 = y.1.finish.1 ∧
      boundaries (x.2 ++ x.1.finish.2) = boundaries (y.2 ++ y.1.finish.2) := by
  intro x y
  have hx : Agree x _ := feedAll_agree_flatten (settled_new v firstIndex) cs
  have hy : Agree y _ := feedAll_agree_flatten (settled_new v firstIndex) ds
  rw [← h] at hy
  have hxy : Agree x y := hx.trans hy.symm
  refine ⟨hxy, by rw [hxy.1], ?_⟩
  rw [boundaries_append, boundaries_append, hxy.1, hxy.2]

/-- A text cut inside a name, inside quotes and before the end of a close tag. -/
theorem feedAll_of_flatten_eq_cut_tags :
    let v : Vocabulary := [⟨"a".toList, true, false⟩, ⟨"ab".toList, false, true⟩]
    let cs := ["<a".toList, "b k='>".toList, "'>x<a/>y</ab ".toList, ">".toList]
    let ds := ["<ab k='>'>x<a/>y</ab >".toList]
    let x := (new v 7).feedAll cs
    let y := (new v 7).feedAll ds
    cs.flatten = ds.flatten ∧
      (x.1 = y.1 ∧ boundaries x.2 = boundaries y.2) ∧
        x.1.finish.1 = y.1.finish.1 ∧
        boundaries (x.2 ++ x.1.finish.2) = boundaries (y.2 ++ y.1.finish.2) := by
  intro v cs ds x y
  have h : cs.flatten = ds.flatten := by decide
  exact ⟨h, feedAll_of_flatten_eq v 7 cs ds h⟩

end Parser

end TagLedger.Markup
