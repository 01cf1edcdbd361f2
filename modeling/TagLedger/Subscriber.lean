import TagLedger.Entry.Basic
import TagLedger.Error

/-!
Subscribers of the log. They are told of every change of an entry, while it is being written and
when it is committed. A subscriber that fails or breaks down keeps no other from being told.
-/

namespace TagLedger

/-- An entry as it is now, and whether it is committed. -/
structure Notification where
  entry : Entry
  done : Bool
deriving DecidableEq, Repr

/-- A channel to any number of receivers that holds the last notifications sent on it. -/
structure Channel where
  capacity : Nat
  sent : List Notification
deriving DecidableEq, Repr

/-- What a receiver gets: a notification, or how many it missed. -/
inductive Receipt where
  | lagged (missed : Nat)
  | received (notification : Notification)
deriving DecidableEq, Repr

namespace Channel

def send (c : Channel) (n : Notification) : Channel := { c with sent := c.sent ++ [n] }

/-- The place in the channel where a new receiver starts. -/
def position (c : Channel) : Nat := c.sent.length

/-- All that a receiver gets that started at a place and has received nothing yet. -/
def receive (c : Channel) (start : Nat) : List Receipt :=
  let missed := c.sent.length - c.capacity - start
  (if missed = 0 then [] else [.lagged missed]) ++
    (c.sent.drop (start + missed)).map .received

end Channel

/-- How a subscriber takes a notification. -/
inductive Reaction where
  | accepted
  | failed (error : RunError)
  | crashed

inductive Subscriber where
  /-- Keeps what it is told. -/
  | recorder (seen : List Notification)
  /-- Passes on what it is told to the common channel. -/
  | broadcaster
  /-- Does something else; the number of notifications so far and the new one decide how it goes. -/
  | other (react : Nat → Notification → Reaction) (told : Nat)

/-- The subscribers of a run in order, and their common channel. -/
structure Subscribers where
  members : List Subscriber
  channel : Channel

namespace Subscriber

/-- The subscriber and the common channel after a notification, and how it went. -/
def take (n : Notification) (c : Channel) : Subscriber → Subscriber × Channel × Reaction
  | .recorder seen => (.recorder (seen ++ [n]), c, .accepted)
  | .broadcaster => (.broadcaster, c.send n, .accepted)
  | .other react told => (.other react (told + 1), c, react told n)

/-- What a recorder was told. -/
def seen : Subscriber → List Notification
  | .recorder ns => ns
  | _ => []

end Subscriber

namespace Subscribers

/-- The number of notifications that the channel holds when nothing else is said. -/
def standardCapacity : Nat := 16

def empty : Subscribers := ⟨[], ⟨standardCapacity, []⟩⟩

/-- Tells each subscriber in turn, whatever became of the ones before. -/
def tell (n : Notification) (c : Channel) : List Subscriber → List Subscriber × Channel
  | [] => ([], c)
  | s :: ss =>
    let taken := s.take n c
    let rest := tell n taken.2.1 ss
    (taken.1 :: rest.1, rest.2)

def notify (s : Subscribers) (n : Notification) : Subscribers :=
  let told := tell n s.channel s.members
  ⟨told.1, told.2⟩

end Subscribers

/-- The committed entries among notifications. -/
def committedEntries (ns : List Notification) : List Entry :=
  (ns.filter (·.done)).map (·.entry)

end TagLedger
