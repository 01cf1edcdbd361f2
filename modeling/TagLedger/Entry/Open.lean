import TagLedger.Entry.Basic

/-!
Entries whose elements are still being parsed, by the index of the element. An index that was given
out stays taken when its entry is removed.
-/

namespace TagLedger

structure OpenEntries where
  entries : List (Nat × Entry)
  highest : Option Nat
deriving DecidableEq, Repr

namespace OpenEntries

def empty : OpenEntries := ⟨[], none⟩

def get? (o : OpenEntries) (index : Nat) : Option Entry := o.entries.lookup index

def size (o : OpenEntries) : Nat := o.entries.length

/-- The first index that was never given out. -/
def nextIndex (o : OpenEntries) : Nat :=
  match o.highest with
  | none => 0
  | some i => i + 1

/-- Marks an index as given out. -/
def reserve (o : OpenEntries) (index : Nat) : OpenEntries :=
  { o with highest := some (match o.highest with | none => index | some i => max i index) }

/-- Replaces the entry of an index, or adds it. -/
def setEntry (index : Nat) (e : Entry) : List (Nat × Entry) → List (Nat × Entry)
  | [] => [(index, e)]
  | x :: xs => if x.1 = index then (index, e) :: xs else x :: setEntry index e xs

def set (o : OpenEntries) (index : Nat) (e : Entry) : OpenEntries :=
  { o with entries := setEntry index e o.entries }

/-- The entry of an index, or an empty one of that kind, which is added. An index keeps its entry,
whatever kind is asked for. -/
def getOrCreate (o : OpenEntries) (index : Nat) (kind : EntryKind) (id : Uuid) (now : Timestamp) :
    Entry × OpenEntries :=
  let o := o.reserve index
  match o.get? index with
  | some e => (e, o)
  | none =>
    let e := Entry.streaming kind id index now
    (e, o.set index e)

def remove (o : OpenEntries) (index : Nat) : Option Entry × OpenEntries :=
  (o.get? index, { o with entries := o.entries.filter fun x => x.1 != index })

end OpenEntries

end TagLedger
