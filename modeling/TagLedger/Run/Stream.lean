import TagLedger.Entry.Element
import TagLedger.Run.Route

/-!
The stream of a run. Every element whose tag has a kind owns one entry from its start to its end;
subscribers are told of each change, and the finished entry is routed. Cancellation is final for a
stream: what has not been taken in by then never is.
-/

namespace TagLedger.Run

/-- The kind of entry that elements of a tag become. -/
def elementKind? (r : Run) (tag : Text) : Option EntryKind :=
  (r.setup.config.tag? (String.ofList tag)).bind (·.kind)

def setOpen (o : OpenEntries) (r : Run) : Run :=
  { r with ledger := { r.ledger with openEntries := o } }

def takeElement (x : Markup.Element) (r : Run) : Run :=
  match r.elementKind? x.tag with
  | none => r
  | some kind =>
    let found := r.ledger.openEntries.getOrCreate x.index kind r.nextId r.time
    let e := found.1.withElement x
    let r := r.draw 1
    if x.done then (r.setOpen (found.2.remove x.index).2).route e
    else (r.setOpen (found.2.set x.index e)).notify e false

def takeEvents (events : List Markup.ElementEvent) (r : Run) : Run :=
  events.foldl (fun r ev => r.takeElement ev.element) r

/-- Begins a stream; its elements are numbered on from those of earlier streams. -/
def openStream (r : Run) : Run :=
  { r with
    stream := some (Markup.Parser.new r.setup.config.vocabulary r.ledger.openEntries.nextIndex) }

def feed (chunk : Text) (r : Run) : Run :=
  match r.stream with
  | none => r
  | some p =>
    let fed := p.feed chunk
    takeEvents fed.2 { r with stream := some fed.1 }

def closeStream (r : Run) : Run :=
  match r.stream with
  | none => r
  | some p => takeEvents p.finish.2 { r with stream := none }

/-- Gives the stream up as it is. -/
def dropStream (r : Run) : Run := { r with stream := none }

end TagLedger.Run
