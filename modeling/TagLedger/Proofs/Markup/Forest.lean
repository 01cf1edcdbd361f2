import Mathlib.Data.List.Forall2
import Mathlib.Tactic.Common
import TagLedger.Proofs.Markup.Brackets
import TagLedger.Proofs.Markup.Writing

/-!
Parsing undoes rendering. A forest of elements is written as tagged text; parsing the text ends
exactly the nodes of the forest, each with the number it has in the order of the open tags.
-/

namespace TagLedger.Markup

/-- The body of a leaf: text and pairs of the leaf's own tag. -/
inductive LeafBody where
  | nil
  | text (t : Text) (rest : LeafBody)
  | pair (attributes : List (Text × Text)) (inside rest : LeafBody)
deriving DecidableEq, Repr

inductive Forest where
  | nil
  | text (t : Text) (rest : Forest)
  | container (tag : Text) (attributes : List (Text × Text)) (inside rest : Forest)
  | leaf (tag : Text) (attributes : List (Text × Text)) (body : LeafBody) (rest : Forest)
deriving DecidableEq, Repr

structure Node where
  index : Nat
  tag : Text
  attributes : List (Text × Text)
  text : Text
deriving DecidableEq, Repr

structure NodeTag (v : Vocabulary) (parent : Option Text) (tag : Text)
    (attributes : List (Text × Text)) : Prop where
  known : tag ∈ v.names
  differs : parent ≠ some tag
  writable : WritableTag tag attributes
  distinct : (attributes.map (·.1)).Nodup

instance (v : Vocabulary) (parent : Option Text) (tag : Text) (attributes : List (Text × Text)) :
    Decidable (NodeTag v parent tag attributes) :=
  decidable_of_iff (tag ∈ v.names ∧ parent ≠ some tag ∧ WritableTag tag attributes ∧
      (attributes.map (·.1)).Nodup)
    ⟨fun h => ⟨h.1, h.2.1, h.2.2.1, h.2.2.2⟩, fun h => ⟨h.known, h.differs, h.writable, h.distinct⟩⟩

namespace LeafBody

def render (tag : Text) : LeafBody → Text
  | .nil => []
  | .text t rest => t ++ rest.render tag
  | .pair attributes inside rest =>
    openTagText tag attributes ++ (inside.render tag ++ (closeTagText tag ++ rest.render tag))

def tokens (tag : Text) : LeafBody → List Token
  | .nil => []
  | .text t rest => [.text t] ++ rest.tokens tag
  | .pair attributes inside rest =>
    [.opening tag (Attributes.ofList attributes) false (openTagText tag attributes)] ++
      (inside.tokens tag ++ ([.closing tag (closeTagText tag)] ++ rest.tokens tag))

/-- The text holds no `<`, and there are pairs in a reentrant leaf only. -/
def WellFormed (v : Vocabulary) (tag : Text) : LeafBody → Prop
  | .nil => True
  | .text t rest => '<' ∉ t ∧ rest.WellFormed v tag
  | .pair attributes inside rest =>
    v.isReentrant tag = true ∧ WritableTag tag attributes ∧ inside.WellFormed v tag ∧
      rest.WellFormed v tag

instance decidableWellFormed (v : Vocabulary) (tag : Text) :
    (body : LeafBody) → Decidable (body.WellFormed v tag)
  | .nil => inferInstanceAs (Decidable True)
  | .text t rest =>
    have := decidableWellFormed v tag rest
    inferInstanceAs (Decidable ('<' ∉ t ∧ rest.WellFormed v tag))
  | .pair attributes inside rest =>
    have := decidableWellFormed v tag inside
    have := decidableWellFormed v tag rest
    inferInstanceAs (Decidable (v.isReentrant tag = true ∧ WritableTag tag attributes ∧
      inside.WellFormed v tag ∧ rest.WellFormed v tag))

end LeafBody

namespace Forest

/-- Every node is written as an open tag, its body and a close tag. -/
def render : Forest → Text
  | .nil => []
  | .text t rest => t ++ rest.render
  | .container tag attributes inside rest =>
    openTagText tag attributes ++ (inside.render ++ (closeTagText tag ++ rest.render))
  | .leaf tag attributes body rest =>
    openTagText tag attributes ++ (body.render tag ++ (closeTagText tag ++ rest.render))

def tokens : Forest → List Token
  | .nil => []
  | .text t rest => [.text t] ++ rest.tokens
  | .container tag attributes inside rest =>
    [.opening tag (Attributes.ofList attributes) false (openTagText tag attributes)] ++
      (inside.tokens ++ ([.closing tag (closeTagText tag)] ++ rest.tokens))
  | .leaf tag attributes body rest =>
    [.opening tag (Attributes.ofList attributes) false (openTagText tag attributes)] ++
      (body.tokens tag ++ ([.closing tag (closeTagText tag)] ++ rest.tokens))

/-- Containers and leaves are what the vocabulary says, and the text between them holds no `<`. -/
def WellFormed (v : Vocabulary) (parent : Option Text) : Forest → Prop
  | .nil => True
  | .text t rest => '<' ∉ t ∧ rest.WellFormed v parent
  | .container tag attributes inside rest =>
    NodeTag v parent tag attributes ∧ v.isContainer tag = true ∧
      inside.WellFormed v (some tag) ∧ rest.WellFormed v parent
  | .leaf tag attributes body rest =>
    NodeTag v parent tag attributes ∧ v.isContainer tag = false ∧
      body.WellFormed v tag ∧ rest.WellFormed v parent

instance decidableWellFormed (v : Vocabulary) :
    (parent : Option Text) → (f : Forest) → Decidable (f.WellFormed v parent)
  | _, .nil => inferInstanceAs (Decidable True)
  | parent, .text t rest =>
    have := decidableWellFormed v parent rest
    inferInstanceAs (Decidable ('<' ∉ t ∧ rest.WellFormed v parent))
  | parent, .container tag attributes inside rest =>
    have := decidableWellFormed v (some tag) inside
    have := decidableWellFormed v parent rest
    inferInstanceAs (Decidable (NodeTag v parent tag attributes ∧ v.isContainer tag = true ∧
      inside.WellFormed v (some tag) ∧ rest.WellFormed v parent))
  | parent, .leaf tag attributes body rest =>
    have := decidableWellFormed v parent rest
    inferInstanceAs (Decidable (NodeTag v parent tag attributes ∧ v.isContainer tag = false ∧
      body.WellFormed v tag ∧ rest.WellFormed v parent))

def ownText : Forest → Text
  | .nil => []
  | .text t rest => t ++ rest.ownText
  | .container _ _ _ rest => rest.ownText
  | .leaf _ _ _ rest => rest.ownText

def size : Forest → Nat
  | .nil => 0
  | .text _ rest => rest.size
  | .container _ _ inside rest => (inside.size + 1) + rest.size
  | .leaf _ _ _ rest => 1 + rest.size

/-- The nodes in the order of their close tags, numbered in the order of their open tags. -/
def nodes (first : Nat) : Forest → List Node
  | .nil => []
  | .text _ rest => rest.nodes first
  | .container tag attributes inside rest =>
    inside.nodes (first + 1) ++ (⟨first, tag, attributes, inside.ownText⟩ ::
      rest.nodes (first + (inside.size + 1)))
  | .leaf tag attributes body rest =>
    ⟨first, tag, attributes, body.render tag⟩ :: rest.nodes (first + 1)

end Forest

def Forest.brackets (first : Nat) : Forest → List ElementEvent
  | .nil => []
  | .text _ rest => rest.brackets first
  | .container tag attributes inside rest =>
    (⟨.started, Element.begin first tag (Attributes.ofList attributes)⟩ ::
      (inside.brackets (first + 1) ++
        [⟨.ended, ⟨first, tag, Attributes.ofList attributes, inside.ownText, true, 0⟩⟩])) ++
      rest.brackets (first + (inside.size + 1))
  | .leaf tag attributes body rest =>
    (⟨.started, Element.begin first tag (Attributes.ofList attributes)⟩ ::
        [⟨.ended, ⟨first, tag, Attributes.ofList attributes, body.render tag, true, 0⟩⟩]) ++
      rest.brackets (first + 1)

structure Node.EndsAs (n : Node) (e : Element) : Prop where
  index : e.index = n.index
  tag : e.tag = n.tag
  attributes : e.attributes.Perm n.attributes ∧ e.attributes.Ascending
  content : e.content = n.text
  done : e.done = true

def endedElements (evs : List ElementEvent) : List Element :=
  (evs.filter (·.kind == .ended)).map (·.element)

theorem endedElements_boundaries (evs : List ElementEvent) :
    endedElements (boundaries evs) = endedElements evs := by
  simp only [endedElements, boundaries, List.filter_filter]
  congr 2
  funext ev
  cases ev.kind <;> rfl

/-- The ends are those of the nodes, in their order. -/
theorem Forest.endsAs_brackets {v : Vocabulary} {parent : Option Text} {f : Forest}
    (h : f.WellFormed v parent) (first : Nat) :
    List.Forall₂ Node.EndsAs (f.nodes first) (endedElements (f.brackets first)) := by
  induction f generalizing parent first with
  | nil => exact .nil
  | text t rest ih => exact ih h.2 first
  | container tag attributes inside rest ihinside ihrest =>
    obtain ⟨htag, -, hinside, hrest⟩ := h
    have hnode : Node.EndsAs ⟨first, tag, attributes, inside.ownText⟩
        ⟨first, tag, Attributes.ofList attributes, inside.ownText, true, 0⟩ :=
      ⟨rfl, rfl, ⟨Attributes.ofList_perm htag.distinct, Attributes.ofList_ascending htag.distinct⟩,
        rfl, rfl⟩
    have hall := List.rel_append (ihinside hinside (first + 1))
      (.cons hnode (ihrest hrest (first + (inside.size + 1))))
    simpa [nodes, brackets, endedElements] using hall
  | leaf tag attributes body rest ihrest =>
    obtain ⟨htag, -, -, hrest⟩ := h
    have hnode : Node.EndsAs ⟨first, tag, attributes, body.render tag⟩
        ⟨first, tag, Attributes.ofList attributes, body.render tag, true, 0⟩ :=
      ⟨rfl, rfl, ⟨Attributes.ofList_perm htag.distinct, Attributes.ofList_ascending htag.distinct⟩,
        rfl, rfl⟩
    exact .cons hnode (ihrest hrest (first + 1))

/-! What is read -/

section Read

variable {v : Vocabulary}

theorem LeafBody.readAs {tag : Text} (hnames : Pronounceable v.names) (htag : tag ∈ v.names)
    {body : LeafBody} (h : body.WellFormed v tag) :
    ReadAs v.names (body.render tag) (body.tokens tag) := by
  induction body with
  | nil => exact .nil _
  | text t rest ih => exact (readAs_text h.1).append (ih h.2)
  | pair attributes inside rest ihinside ihrest =>
    obtain ⟨-, hwritable, hinside, hrest⟩ := h
    have hopen := readAs_openTagText hnames htag hwritable
    have hclose := readAs_closeTagText hnames htag
    exact hopen.append ((ihinside hinside).append (hclose.append (ihrest hrest)))

theorem Forest.readAs (hnames : Pronounceable v.names) {f : Forest} {parent : Option Text}
    (h : f.WellFormed v parent) : ReadAs v.names f.render f.tokens := by
  induction f generalizing parent with
  | nil => exact .nil _
  | text t rest ih => exact (readAs_text h.1).append (ih h.2)
  | container tag attributes inside rest ihinside ihrest =>
    obtain ⟨htag, -, hinside, hrest⟩ := h
    have hopen := readAs_openTagText hnames htag.known htag.writable
    have hclose := readAs_closeTagText hnames htag.known
    exact hopen.append ((ihinside hinside).append (hclose.append (ihrest hrest)))
  | leaf tag attributes body rest ihrest =>
    obtain ⟨htag, -, hbody, hrest⟩ := h
    have hopen := readAs_openTagText hnames htag.known htag.writable
    have hclose := readAs_closeTagText hnames htag.known
    exact hopen.append ((body.readAs hnames htag.known hbody).append (hclose.append (ihrest hrest)))

end Read

namespace Parser

/-- A parser after some more text of its current element and some more elements inside it. -/
def grown (p : Parser) (t : Text) (count : Nat) : Parser :=
  { p with
    current := p.current.map fun e => { e with content := e.content ++ t }
    nextIndex := p.nextIndex + count }

@[simp] theorem grown_nextIndex (p : Parser) (t : Text) (count : Nat) :
    (p.grown t count).nextIndex = p.nextIndex + count := rfl

@[simp] theorem grown_nil_zero (p : Parser) : p.grown [] 0 = p := by
  obtain ⟨vocabulary, buffer, current, stack, nextIndex⟩ := p
  cases current <;> simp [grown]

@[simp] theorem grown_grown (p : Parser) (t u : Text) (m n : Nat) :
    (p.grown t m).grown u n = p.grown (t ++ u) (m + n) := by
  obtain ⟨vocabulary, buffer, current, stack, nextIndex⟩ := p
  cases current <;> simp [grown, Nat.add_assoc]

variable {p q q' : Parser}

/-- What some tokens do, and then some more. -/
theorem agree_applyAll_append {ts us : List Token} {evs evs' : List ElementEvent}
    (h : Agree (p.applyAll ts) (q, evs)) (h' : Agree (q.applyAll us) (q', evs')) :
    Agree (p.applyAll (ts ++ us)) (q', evs ++ evs') := by
  have hq : (p.applyAll ts).1 = q := h.1
  rw [applyAll_append, hq]
  exact h.append h'

theorem agree_text (p : Parser) (t : Text) : Agree (p.applyAll [.text t]) (p.grown t 0, []) := by
  obtain ⟨vocabulary, buffer, current, stack, nextIndex⟩ := p
  cases current with
  | none => simp [apply, addText, grown, Agree]
  | some e => simp [apply, addText, grown, Agree, boundaries]

def inside (p : Parser) (e : Element) : Parser := { p with current := some e }

theorem agree_inside_text (p : Parser) (e : Element) (t : Text) :
    Agree ((p.inside e).applyAll [.text t])
      (p.inside { e with content := e.content ++ t }, []) := by
  simp [apply, addText, inside, Agree, boundaries]

/-- Inside a reentrant element an open tag of the same name is text that goes deeper. -/
theorem agree_inside_open {e : Element} (hdeep : p.vocabulary.isReentrant e.tag = true)
    (attributes : Attributes) (raw : Text) :
    Agree ((p.inside e).applyAll [.opening e.tag attributes false raw])
      (p.inside { e with depth := e.depth + 1, content := e.content ++ raw }, []) := by
  simp [apply, openTag, inside, hdeep, addText, Agree, boundaries]

/-- The close tag that balances it is text as well. -/
theorem agree_inside_close (p : Parser) (e : Element) (raw : Text) :
    Agree ((p.inside { e with depth := e.depth + 1 }).applyAll [.closing e.tag raw])
      (p.inside { e with content := e.content ++ raw }, []) := by
  simp [apply, closeTag, inside, addText, Agree, boundaries]

/-- The body of a leaf is its content as it is written. -/
theorem agree_leafBody {body : LeafBody} {e : Element}
    (h : body.WellFormed p.vocabulary e.tag) :
    Agree ((p.inside e).applyAll (body.tokens e.tag))
      (p.inside { e with content := e.content ++ body.render e.tag }, []) := by
  induction body generalizing e with
  | nil => simp [LeafBody.tokens, LeafBody.render, Agree]
  | text t rest ih =>
    have htext := agree_inside_text p e t
    have hrest := ih (e := { e with content := e.content ++ t }) h.2
    have hall := agree_applyAll_append htext hrest
    simpa only [LeafBody.tokens, LeafBody.render, List.append_assoc, List.append_nil] using hall
  | pair attributes inner rest ihinner ihrest =>
    obtain ⟨hdeep, -, hinner, hrest⟩ := h
    have hopen := agree_inside_open (e := e) hdeep (Attributes.ofList attributes)
      (openTagText e.tag attributes)
    have hbody := ihinner (e := { e with
      depth := e.depth + 1, content := e.content ++ openTagText e.tag attributes }) hinner
    have hclose := agree_inside_close p { e with
      content := e.content ++ openTagText e.tag attributes ++ inner.render e.tag }
      (closeTagText e.tag)
    have hmore := ihrest (e := { e with
      content := e.content ++ openTagText e.tag attributes ++ inner.render e.tag ++
        closeTagText e.tag }) hrest
    have hall := agree_applyAll_append hopen
      (agree_applyAll_append hbody (agree_applyAll_append hclose hmore))
    simpa only [LeafBody.tokens, LeafBody.render, List.append_assoc, List.append_nil] using hall

def entered (p : Parser) (tag : Text) (attributes : Attributes) : Parser :=
  (p.startElement tag attributes false).1

@[simp] theorem entered_nextIndex (p : Parser) (tag : Text) (attributes : Attributes) :
    (p.entered tag attributes).nextIndex = p.nextIndex + 1 := rfl

/-- A parser outside all elements, or inside a container of the given name. -/
structure Receptive (p : Parser) (parent : Option Text) : Prop where
  rooted : p.Rooted
  current : p.current.map (·.tag) = parent
  container : ∀ tag ∈ parent, p.vocabulary.isContainer tag = true

namespace Receptive

variable {parent : Option Text}

theorem new (v : Vocabulary) (first : Nat) : (new v first).Receptive none where
  rooted := fun _ => rfl
  current := rfl
  container := by simp

theorem grown (h : p.Receptive parent) (t : Text) (count : Nat) :
    (p.grown t count).Receptive parent where
  rooted := by
    intro hnone
    simp only [Parser.grown, Option.map_eq_none_iff] at hnone
    exact h.rooted hnone
  current := by
    rw [← h.current]
    cases hc : p.current <;> simp [Parser.grown, hc]
  container := h.container

theorem entered (p : Parser) {tag : Text} (h : p.vocabulary.isContainer tag = true)
    (attributes : Attributes) : (p.entered tag attributes).Receptive (some tag) where
  rooted := rooted_of_current rfl
  current := rfl
  container := by
    rintro _ ⟨⟩
    exact h

end Receptive

variable {parent : Option Text} {tag : Text}

theorem agree_open (h : p.Receptive parent) (hdiffers : parent ≠ some tag)
    (attributes : Attributes) (raw : Text) :
    Agree (p.applyAll [.opening tag attributes false raw])
      (p.entered tag attributes, [⟨.started, Element.begin p.nextIndex tag attributes⟩]) := by
  have hparent := h.current
  cases hc : p.current with
  | none => simp [apply, openTag, hc, entered, startElement, Agree]
  | some e =>
    simp only [hc, Option.map_some] at hparent
    have hcontainer := h.container e.tag hparent.symm
    have htag : e.tag ≠ tag := by
      rintro rfl
      exact hdiffers hparent.symm
    simp [apply, openTag, hc, hcontainer, htag, entered, startElement, Agree]

/-- The close tag leads back out of an element that has grown since it was entered. -/
theorem agree_close (hroot : p.Rooted) (tag : Text) (attributes : Attributes) (t : Text)
    (count : Nat) (raw : Text) :
    Agree (((p.entered tag attributes).grown t count).applyAll [.closing tag raw])
      (p.grown [] (count + 1), [⟨.ended, ⟨p.nextIndex, tag, attributes, t, true, 0⟩⟩]) := by
  obtain ⟨vocabulary, buffer, current, stack, nextIndex⟩ := p
  cases current with
  | none =>
    have hstack : stack = [] := hroot rfl
    simp [entered, startElement, grown, apply, closeTag, pop, Element.begin, Element.finalized,
      Agree, hstack]
    omega
  | some e =>
    simp [entered, startElement, grown, apply, closeTag, pop, Element.begin, Element.finalized,
      Agree]
    omega

/-- An open tag, a body of known effect and the close tag. -/
theorem agree_node (h : p.Receptive parent) (hdiffers : parent ≠ some tag)
    {attributes : Attributes} {ts : List Token} {t : Text} {count : Nat} {evs : List ElementEvent}
    (hbody : Agree ((p.entered tag attributes).applyAll ts)
      ((p.entered tag attributes).grown t count, evs)) (raw raw' : Text) :
    Agree (p.applyAll ([.opening tag attributes false raw] ++ (ts ++ [.closing tag raw'])))
      (p.grown [] (count + 1), ⟨.started, Element.begin p.nextIndex tag attributes⟩ ::
        (evs ++ [⟨.ended, ⟨p.nextIndex, tag, attributes, t, true, 0⟩⟩])) :=
  agree_applyAll_append (agree_open h hdiffers attributes raw)
    (agree_applyAll_append hbody (agree_close h.rooted tag attributes t count raw'))

/-- A forest adds its own text to the current element, and inside it the starts and ends of its
nodes. -/
theorem agree_forest {f : Forest} (h : p.Receptive parent) (hf : f.WellFormed p.vocabulary parent) :
    Agree (p.applyAll f.tokens) (p.grown f.ownText f.size, f.brackets p.nextIndex) := by
  induction f generalizing p parent with
  | nil => simp [Forest.tokens, Forest.ownText, Forest.size, Forest.brackets, Agree]
  | text t rest ih =>
    have hall := agree_applyAll_append (agree_text p t) (ih (h.grown t 0) hf.2)
    simpa only [Forest.tokens, Forest.ownText, Forest.size, Forest.brackets, grown_grown,
      grown_nextIndex, Nat.zero_add, Nat.add_zero, List.nil_append] using hall
  | container tag attributes inside rest ihinside ihrest =>
    obtain ⟨htag, hcontainer, hinside, hrest⟩ := hf
    have hbody := ihinside (Receptive.entered p hcontainer (Attributes.ofList attributes)) hinside
    have hnode := agree_node h htag.differs hbody (openTagText tag attributes) (closeTagText tag)
    have hall := agree_applyAll_append hnode (ihrest (h.grown [] (inside.size + 1)) hrest)
    simpa only [Forest.tokens, Forest.ownText, Forest.size, Forest.brackets, grown_grown,
      grown_nextIndex, entered_nextIndex, List.append_assoc, List.nil_append] using hall
  | leaf tag attributes body rest ihrest =>
    obtain ⟨htag, -, hwritten, hrest⟩ := hf
    have hbody : Agree ((p.entered tag (Attributes.ofList attributes)).applyAll (body.tokens tag))
        ((p.entered tag (Attributes.ofList attributes)).grown (body.render tag) 0, []) :=
      agree_leafBody (p := p.entered tag (Attributes.ofList attributes))
        (e := Element.begin p.nextIndex tag (Attributes.ofList attributes)) hwritten
    have hnode := agree_node h htag.differs hbody (openTagText tag attributes) (closeTagText tag)
    have hall := agree_applyAll_append hnode (ihrest (h.grown [] (0 + 1)) hrest)
    simpa only [Forest.tokens, Forest.ownText, Forest.size, Forest.brackets, grown_grown,
      grown_nextIndex, List.append_assoc, List.nil_append, Nat.zero_add] using hall

/-- A rendered forest that arrives in any pieces ends exactly the nodes of the forest, and at the
end of the text the parser is a new one that counts on. -/
theorem feedAll_render (v : Vocabulary) (first : Nat) (f : Forest) (cs : List Text)
    (hnames : Pronounceable v.names) (hf : f.WellFormed v none) (hcs : cs.flatten = f.render) :
    let x := (new v first).feedAll cs
    List.Forall₂ Node.EndsAs (f.nodes first) (endedElements (x.2 ++ x.1.finish.2)) ∧
      x.1.finish.1 = new v (first + f.size) := by
  intro x
  have hempty : drain v.names [] = ([], []) := drain_of_none rfl
  obtain ⟨hbuffer, hatoms⟩ := Forest.readAs hnames hf []
  simp only [List.append_nil, hempty, atoms_nil] at hbuffer hatoms
  have hfed : Agree ((new v first).feed f.render)
      ((new v first).grown f.ownText f.size, f.brackets first) := by
    have hforest := agree_forest (Receptive.new v first) hf
    have heffect := ((new v first).applyAll_congr hatoms).trans hforest
    have hdrained : drain v.names f.render = ((drain v.names f.render).1, []) := by rw [← hbuffer]
    rw [feed_eq (new v first) f.render hdrained, heffect.1]
    exact ⟨rfl, heffect.2⟩
  have hx : Agree x ((new v first).grown f.ownText f.size, f.brackets first) := by
    have hpieces := feedAll_agree_flatten (settled_new v first) cs
    rw [hcs] at hpieces
    exact hpieces.trans hfed
  have hend : x.1 = new v (first + f.size) := hx.1
  have hfinish : x.1.finish = (new v (first + f.size), []) := by rw [hend]; rfl
  rw [hfinish, List.append_nil, ← endedElements_boundaries, hx.2, endedElements_boundaries]
  exact ⟨Forest.endsAs_brackets hf first, rfl⟩

/-- Signs inside values, an inner pair of tags, and a container inside another of its name with one
between them. -/
theorem feedAll_render_nested :
    let v : Vocabulary := [⟨"turn".toList, false, true⟩, ⟨"box".toList, false, true⟩,
      ⟨"note".toList, true, false⟩]
    let note : LeafBody := .text "p".toList
      (.pair [("k".toList, "<".toList)] (.text "q".toList .nil) .nil)
    let box : Forest := .container "turn".toList [] .nil (.text "y".toList .nil)
    let f : Forest := .container "turn".toList [("id".toList, "a>b'".toList), ("b".toList, [])]
      (.text "x".toList (.leaf "note".toList [] note
        (.container "box".toList [] box (.text "z".toList .nil)))) .nil
    let cs := ["<turn id=\"a>b'\" b=\"\">x<note>p<note k=\"<\">q</no".toList,
      "te></note><box><turn></turn>y</box>z</turn>".toList]
    let x := (new v 3).feedAll cs
    Pronounceable v.names ∧ f.WellFormed v none ∧ cs.flatten = f.render ∧
      List.Forall₂ Node.EndsAs (f.nodes 3) (endedElements (x.2 ++ x.1.finish.2)) ∧
      x.1.finish.1 = new v (3 + f.size) := by
  intro v note box f cs x
  have hnames : Pronounceable v.names := by decide
  have hf : f.WellFormed v none := by decide
  have hcs : cs.flatten = f.render := by decide
  exact ⟨hnames, hf, hcs, feedAll_render v 3 f cs hnames hf hcs⟩

end Parser

end TagLedger.Markup
