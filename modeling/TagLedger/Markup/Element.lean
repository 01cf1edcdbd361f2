import TagLedger.Markup.Token

/-!
Elements of tagged text, recognized while the text arrives. Open elements form a stack; only the
innermost takes text, and only a container takes child elements. A tag that opens again inside
itself is text, counted by the depth of a reentrant element, and the close tag that balances it is
text too. Closing an outer element ends everything opened inside it.
-/

namespace TagLedger.Markup

/-- How the elements of a tag behave. -/
structure TagRule where
  name : Text
  reentrant : Bool
  container : Bool
deriving DecidableEq, Repr

/-- The tags that are recognized; of two rules for one name the later one holds. -/
abbrev Vocabulary := List TagRule

namespace Vocabulary

def names (v : Vocabulary) : List Text := v.map (·.name)

def rule? (v : Vocabulary) (name : Text) : Option TagRule := v.reverse.find? (·.name == name)

def isContainer (v : Vocabulary) (name : Text) : Bool :=
  ((v.rule? name).map (·.container)).getD false

def isReentrant (v : Vocabulary) (name : Text) : Bool :=
  ((v.rule? name).map (·.reentrant)).getD false

end Vocabulary

/-- An element with the content it has so far. -/
structure Element where
  index : Nat
  tag : Text
  attributes : Attributes
  content : Text
  done : Bool
  depth : Nat
deriving DecidableEq, Repr

namespace Element

def begin (index : Nat) (tag : Text) (attributes : Attributes) : Element :=
  ⟨index, tag, attributes, [], false, 0⟩

def finalized (e : Element) : Element := { e with done := true }

end Element

inductive EventKind where
  | started
  | grew
  | ended
deriving DecidableEq, Repr

/-- An element as it is after a step of the parser. -/
structure ElementEvent where
  kind : EventKind
  element : Element
deriving DecidableEq, Repr

/-- The state of a parser. The stack holds the elements around the current one, innermost first. -/
structure Parser where
  vocabulary : Vocabulary
  buffer : Text
  current : Option Element
  stack : List Element
  nextIndex : Nat
deriving Repr

namespace Parser

def new (vocabulary : Vocabulary) (firstIndex : Nat) : Parser :=
  ⟨vocabulary, [], none, [], firstIndex⟩

def pop (p : Parser) : Parser := { p with current := p.stack.head?, stack := p.stack.tail }

/-- Text belongs to the current element; outside all elements it is dropped. -/
def addText (p : Parser) (t : Text) : Parser × List ElementEvent :=
  match p.current with
  | none => (p, [])
  | some e =>
    let e' := { e with content := e.content ++ t }
    ({ p with current := some e' }, [⟨.grew, e'⟩])

/-- Starts an element inside the current one. -/
def startElement (p : Parser) (tag : Text) (attributes : Attributes) (selfClosing : Bool) :
    Parser × List ElementEvent :=
  let e := Element.begin p.nextIndex tag attributes
  let stack := p.current.toList ++ p.stack
  let p' := { p with nextIndex := p.nextIndex + 1, stack }
  if selfClosing then (p'.pop, [⟨.started, e⟩, ⟨.ended, e.finalized⟩])
  else ({ p' with current := some e }, [⟨.started, e⟩])

/-- An open tag: a new element where a child is accepted, text elsewhere. -/
def openTag (p : Parser) (tag : Text) (attributes : Attributes) (selfClosing : Bool) (raw : Text) :
    Parser × List ElementEvent :=
  match p.current with
  | none => p.startElement tag attributes selfClosing
  | some e =>
    if e.tag = tag then
      if p.vocabulary.isReentrant tag && !selfClosing then
        { p with current := some { e with depth := e.depth + 1 } }.addText raw
      else p.addText raw
    else if p.vocabulary.isContainer e.tag then p.startElement tag attributes selfClosing
    else p.addText raw

/-- A close tag: it balances an inner tag of its own name, or ends the current element, or ends
the nearest outer element of its name with all inside it; otherwise it is text, or nothing between
the children of a container. -/
def closeTag (p : Parser) (tag raw : Text) : Parser × List ElementEvent :=
  match p.current with
  | none => (p, [])
  | some e =>
    if e.tag = tag then
      if 0 < e.depth then
        { p with current := some { e with depth := e.depth - 1 } }.addText raw
      else (p.pop, [⟨.ended, e.finalized⟩])
    else
      match p.stack.findIdx? (·.tag == tag) with
      | none => if p.vocabulary.isContainer e.tag then (p, []) else p.addText raw
      | some i =>
        let closed := e :: p.stack.take (i + 1)
        ({ p with stack := p.stack.drop (i + 1) }.pop,
          closed.map fun e => ⟨.ended, e.finalized⟩)

def apply (p : Parser) : Token → Parser × List ElementEvent
  | .text t => p.addText t
  | .opening name attributes selfClosing raw => p.openTag name attributes selfClosing raw
  | .closing name raw => p.closeTag name raw

def applyAll (p : Parser) : List Token → Parser × List ElementEvent
  | [] => (p, [])
  | t :: ts =>
    let one := p.apply t
    let more := one.1.applyAll ts
    (more.1, one.2 ++ more.2)

def feed (p : Parser) (chunk : Text) : Parser × List ElementEvent :=
  let drained := drain p.vocabulary.names (p.buffer ++ chunk)
  { p with buffer := drained.2 }.applyAll drained.1

/-- The end of the text: what is buffered is text, and every open element ends, the innermost
first. -/
def finish (p : Parser) : Parser × List ElementEvent :=
  let flushed := { p with buffer := [] }.applyAll (flush p.buffer).toList
  let q := flushed.1
  let closed := q.current.toList ++ q.stack
  ({ q with current := none, stack := [] },
    flushed.2 ++ closed.map fun e => ⟨.ended, e.finalized⟩)

def feedAll (p : Parser) : List Text → Parser × List ElementEvent
  | [] => (p, [])
  | c :: cs =>
    let one := p.feed c
    let more := one.1.feedAll cs
    (more.1, one.2 ++ more.2)

end Parser

end TagLedger.Markup
