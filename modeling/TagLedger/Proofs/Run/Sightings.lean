import Mathlib.Tactic.Common
import TagLedger.Proofs.Entry.Open
import TagLedger.Proofs.Run.Beside

/-!
What is seen of the elements of streams, over a whole run. An element whose tag has a kind is seen
at its start and at each of its changes, always with the same identifier and with content that goes
on from what was seen; after its end it is never seen again. Elements start with ascending indices,
in whichever stream they are.
-/

namespace TagLedger

/-- An event that an element with an entry is seen in, and what the entry is then. -/
structure Sighting where
  /-- How many streams were opened before, the one of the element included. -/
  stream : Nat
  event : Markup.ElementEvent
  entry : Entry

namespace Sighting

def index (s : Sighting) : Nat := s.event.element.index

def isDraft (s : Sighting) : Bool := !s.event.element.done

def drafts (seen : List Sighting) : List Entry := (seen.filter (·.isDraft)).map (·.entry)

theorem drafts_append (xs ys : List Sighting) : drafts (xs ++ ys) = drafts xs ++ drafts ys := by
  simp [drafts]

structure Continues (a b : Sighting) : Prop where
  stream : a.stream = b.stream
  draft : a.isDraft = true
  id : a.entry.id = b.entry.id
  kind : a.entry.kind = b.entry.kind
  content : ∀ t ∈ a.entry.content?, ∀ u ∈ b.entry.content?, t.toList <+: u.toList

structure Fits (before : List Sighting) (s : Sighting) : Prop where
  /-- An element starts as a draft, with an index above all those seen. -/
  starts : s.event.kind = .started → s.isDraft = true ∧ ∀ a ∈ before, a.index < s.index
  /-- The start of an element is the first that is seen of it. -/
  started : s.event.kind ≠ .started → ∃ a ∈ before, a.event.kind = .started ∧ a.index = s.index
  continues : ∀ a ∈ before, a.index = s.index → a.Continues s
  apart : ∀ a ∈ before, a.index ≠ s.index → a.entry.id ≠ s.entry.id

def Faithful (r : Run) (s : Sighting) : Prop :=
  ∃ kind, r.elementKind? s.event.element.tag = some kind ∧
    Entry.OfElement kind s.event.element s.entry

end Sighting

inductive Sighting.InOrder : List Sighting → Prop where
  | nil : InOrder []
  | concat {before : List Sighting} {s : Sighting} (h : InOrder before) (hs : s.Fits before) :
    InOrder (before ++ [s])

namespace Run

def elementSeen (n : Nat) (ev : Markup.ElementEvent) (r : Run) : List Sighting :=
  match r.elementKind? ev.element.tag with
  | none => []
  | some kind =>
    let found := r.ledger.openEntries.getOrCreate ev.element.index kind r.nextId r.time
    [⟨n, ev, found.1.withElement ev.element⟩]

def eventsSeen (n : Nat) : List Markup.ElementEvent → Run → List Sighting
  | [], _ => []
  | ev :: events, r => r.elementSeen n ev ++ eventsSeen n events (r.takeElement ev.element)

def feedSeen (n : Nat) (chunk : Text) (r : Run) : List Sighting :=
  match r.stream with
  | none => []
  | some p => eventsSeen n (p.feed chunk).2 { r with stream := some (p.feed chunk).1 }

def closeSeen (n : Nat) (r : Run) : List Sighting :=
  match r.stream with
  | none => []
  | some p => eventsSeen n p.finish.2 { r with stream := none }

/-- What is seen of elements in a move. -/
def seen (n : Nat) (r : Run) : Move → List Sighting
  | .feed chunk cancels =>
    if r.streamReady then (if cancels then r.cancel else r).feedSeen n chunk else []
  | .closeStream cancels =>
    if r.streamReady then (if cancels then r.cancel else r).closeSeen n else []
  | _ => []

def opens (r : Run) : Move → Nat
  | .openStream => if r.stream.isNone then 1 else 0
  | _ => 0

/-- What is seen of elements over a schedule, after a number of streams. -/
def sightings (n : Nat) : List Move → Run → List Sighting
  | [], _ => []
  | m :: ms, r => r.seen (n + r.opens m) m ++ sightings (n + r.opens m) ms (r.apply m)

end Run

namespace Entry

variable {e : Entry}

theorem id_withElement (x : Markup.Element) (e : Entry) : (e.withElement x).id = e.id := by
  cases e <;> rfl

theorem id_streaming (kind : EntryKind) (id : Uuid) (index : Nat) (now : Timestamp) :
    (streaming kind id index now).id = id := by
  cases kind <;> rfl

theorem kind_withElement (x : Markup.Element) (e : Entry) : (e.withElement x).kind = e.kind := by
  cases e <;> rfl

theorem content?_withElement (x : Markup.Element) (e : Entry) :
    (e.withElement x).content? = e.content?.map fun _ => String.ofList x.content := by
  cases e <;> rfl

/-- The kind of an entry decides whether it has content. -/
theorem isSome_content?_of_kind {e e' : Entry} (h : e.kind = e'.kind) :
    e.content?.isSome = e'.content?.isSome := by
  cases e <;> cases e' <;> first | rfl | cases h

theorem OfElement.content {kind : EntryKind} {x : Markup.Element} (h : OfElement kind x e) :
    ∀ t ∈ e.content?, t.toList = x.content := by
  obtain ⟨id, now, rfl⟩ := h
  intro t ht
  rw [content?_withElement, Option.mem_def, Option.map_eq_some_iff] at ht
  obtain ⟨_, _, rfl⟩ := ht
  exact String.toList_ofList

end Entry

variable {seen : List Sighting} {n : Nat} {r r' : Run}

theorem Run.elementKind?_congr (h : r'.setup = r.setup) (tag : Text) :
    r'.elementKind? tag = r.elementKind? tag := by
  rw [elementKind?, elementKind?, h]

namespace Sighting

theorem Faithful.congr {s : Sighting} (h : s.Faithful r) (hsetup : r'.setup = r.setup) :
    s.Faithful r' := by
  obtain ⟨kind, hkind, hentry⟩ := h
  exact ⟨kind, (Run.elementKind?_congr hsetup _).trans hkind, hentry⟩

theorem Continues.refl {s : Sighting} (h : s.isDraft = true) : s.Continues s where
  stream := rfl
  draft := h
  id := rfl
  kind := rfl
  content := by
    intro t ht u hu
    obtain rfl := Option.some.inj (ht.symm.trans hu)
    exact List.prefix_refl _

theorem Continues.trans {a b c : Sighting} (h : a.Continues b) (h' : b.Continues c) :
    a.Continues c where
  stream := h.stream.trans h'.stream
  draft := h.draft
  id := h.id.trans h'.id
  kind := h.kind.trans h'.kind
  content := by
    intro t ht u hu
    have hsome : b.entry.content?.isSome = true := by
      rw [Entry.isSome_content?_of_kind h'.kind, Option.isSome_of_mem hu]
    obtain ⟨v, hv⟩ := Option.isSome_iff_exists.mp hsome
    exact (h.content t ht v hv).trans (h'.content v hv u hu)

/-- The entry of an element is that of the element as it is later, once it is filled again. -/
theorem Faithful.continues {s : Sighting} (h : s.Faithful r) (hdraft : s.isDraft = true)
    {ev : Markup.ElementEvent} (hcontent : s.event.element.content <+: ev.element.content) :
    s.Continues ⟨s.stream, ev, s.entry.withElement ev.element⟩ where
  stream := rfl
  draft := hdraft
  id := (Entry.id_withElement _ _).symm
  kind := (Entry.kind_withElement _ _).symm
  content := by
    obtain ⟨kind, -, hentry⟩ := h
    intro t ht u hu
    rw [Entry.content?_withElement, Option.mem_def, Option.map_eq_some_iff] at hu
    obtain ⟨_, _, rfl⟩ := hu
    rw [hentry.content t ht, String.toList_ofList]
    exact hcontent

end Sighting

namespace Sighting.InOrder

/-- The start of each element that was seen was seen. -/
theorem exists_started (h : InOrder seen) {s : Sighting} (hs : s ∈ seen) :
    ∃ a ∈ seen, a.event.kind = .started ∧ a.index = s.index := by
  induction h with
  | nil => cases hs
  | @concat before b hbefore hb ih =>
    rcases List.mem_append.mp hs with hmem | hlast
    · obtain ⟨a, ha, hstarted⟩ := ih hmem
      exact ⟨a, List.mem_append_left _ ha, hstarted⟩
    · rw [List.mem_singleton.mp hlast]
      by_cases hkind : b.event.kind = .started
      · exact ⟨b, List.mem_append_right _ List.mem_cons_self, hkind, rfl⟩
      · obtain ⟨a, ha, hstarted⟩ := hb.started hkind
        exact ⟨a, List.mem_append_left _ ha, hstarted⟩

/-- Elements of different indices have different identifiers. -/
theorem id_ne (h : InOrder seen) {a b : Sighting} (ha : a ∈ seen) (hb : b ∈ seen)
    (hab : a.index ≠ b.index) : a.entry.id ≠ b.entry.id := by
  induction h with
  | nil => cases ha
  | @concat before s hbefore hs ih =>
    simp only [List.mem_append, List.mem_singleton] at ha hb
    rcases ha with ha | rfl
    · rcases hb with hb | rfl
      · exact ih ha hb
      · exact hs.apart a ha hab
    · rcases hb with hb | rfl
      · exact (hs.apart b hb hab.symm).symm
      · exact absurd rfl hab

end Sighting.InOrder

namespace Run

structure Takes (x : Markup.Element) (e : Entry) (r r' : Run) : Prop where
  setup : r'.setup = r.setup
  drawn : r.drawn < r'.drawn
  nextIndex : r'.ledger.openEntries.nextIndex =
    max r.ledger.openEntries.nextIndex (x.index + 1)
  own : r'.ledger.openEntries.get? x.index = if x.done then none else some e
  others : ∀ j, j ≠ x.index →
    r'.ledger.openEntries.get? j = r.ledger.openEntries.get? j
  tells : Tells (if x.done then [] else [e]) r r'

theorem takeElement_takes {x : Markup.Element} {kind : EntryKind}
    (h : r.elementKind? x.tag = some kind) :
    Takes x ((r.ledger.openEntries.getOrCreate x.index kind r.nextId r.time).1.withElement x) r
      (r.takeElement x) := by
  have hnext : (r.ledger.openEntries.getOrCreate x.index kind r.nextId r.time).2.nextIndex =
      max r.ledger.openEntries.nextIndex (x.index + 1) :=
    OpenEntries.nextIndex_getOrCreate _ _ _ _ _
  have hothers : ∀ j, j ≠ x.index →
      (r.ledger.openEntries.getOrCreate x.index kind r.nextId r.time).2.get? j =
        r.ledger.openEntries.get? j := fun j hj => OpenEntries.get?_getOrCreate_of_ne hj
  have hx := r.takeElement_notices x
  generalize r.elementTaken x = taken, r.takeElement x = r' at hx ⊢
  cases hx with
  | unknown hkind => cases hkind.symm.trans h
  | @shows _ found hkind hdone hfound =>
    obtain rfl := Option.some.inj (hkind.symm.trans h)
    rw [← hfound] at hnext hothers ⊢
    refine ⟨rfl, Nat.lt_succ_self _, hnext, ?_, ?_, ⟨[⟨found.1.withElement x, false⟩], rfl, ?_⟩⟩
    · exact (OpenEntries.get?_set _ _ _ _).trans (by simp [hdone])
    · intro j hj
      exact (OpenEntries.get?_set _ _ _ _).trans (by simp [hj, hothers j hj])
    · simp [draftEntries, hdone]
  | @routes _ found hkind hdone hfound =>
    obtain rfl := Option.some.inj (hkind.symm.trans h)
    rw [← hfound] at hnext hothers ⊢
    have hroute := Beside.route (found.1.withElement x)
      ((r.draw 1).setOpen (found.2.remove x.index).2)
    have hentries := hroute.openEntries
    refine ⟨hroute.setup, Nat.lt_of_lt_of_le (Nat.lt_succ_self _) hroute.drawn, ?_, ?_, ?_, ?_⟩
    · rw [hentries]
      exact hnext
    · rw [hentries]
      exact (OpenEntries.get?_remove _ _ _).trans (by simp [hdone])
    · intro j hj
      rw [hentries]
      exact (OpenEntries.get?_remove _ _ _).trans (by simp [hj, hothers j hj])
    · simp only [hdone, if_true]
      exact hroute.told

structure Shows (seen : List Sighting) (r r' : Run) : Prop where
  setup : r'.setup = r.setup
  drawn : r.drawn ≤ r'.drawn
  tells : Tells (Sighting.drafts seen) r r'

namespace Shows

variable {seen' : List Sighting} {r'' : Run}

theorem trans (h : Shows seen r r') (h' : Shows seen' r' r'') : Shows (seen ++ seen') r r'' where
  setup := h'.setup.trans h.setup
  drawn := h.drawn.trans h'.drawn
  tells := by
    rw [Sighting.drafts_append]
    exact h.tells.trans h'.tells

theorem of_beside (h : Beside r r') : Shows [] r r' := ⟨h.setup, h.drawn, h.told⟩

theorem setStream (p : Option Markup.Parser) (r : Run) : Shows [] r { r with stream := p } :=
  of_beside (.of_ledger rfl rfl (Nat.le_refl _))

theorem takeElement (n : Nat) (ev : Markup.ElementEvent) (r : Run) :
    Shows (r.elementSeen n ev) r (r.takeElement ev.element) := by
  cases hkind : r.elementKind? ev.element.tag with
  | none =>
    have hseen : r.elementSeen n ev = [] := by simp [elementSeen, hkind]
    have hsame : r.takeElement ev.element = r := by simp [Run.takeElement, hkind]
    rw [hseen, hsame]
    exact of_beside (.refl r)
  | some kind =>
    have ht := takeElement_takes hkind
    refine ⟨ht.setup, ht.drawn.le, ?_⟩
    have htells := ht.tells
    cases hdone : ev.element.done <;>
      simpa [elementSeen, hkind, hdone, Sighting.drafts, Sighting.isDraft] using htells

theorem takeEvents (n : Nat) (events : List Markup.ElementEvent) (r : Run) :
    Shows (eventsSeen n events r) r (r.takeEvents events) := by
  induction events generalizing r with
  | nil => exact of_beside (.refl r)
  | cons ev events ih => exact (takeElement n ev r).trans (ih _)

theorem feed (n : Nat) (chunk : Text) (r : Run) : Shows (r.feedSeen n chunk) r (r.feed chunk) := by
  unfold feedSeen Run.feed
  cases r.stream with
  | none => exact of_beside (.refl r)
  | some p => exact (setStream _ r).trans (takeEvents n _ _)

theorem closeStream (n : Nat) (r : Run) : Shows (r.closeSeen n) r r.closeStream := by
  unfold closeSeen Run.closeStream
  cases r.stream with
  | none => exact of_beside (.refl r)
  | some p => exact (setStream _ r).trans (takeEvents n _ _)

theorem apply (n : Nat) (m : Move) (r : Run) : Shows (r.seen n m) r (r.apply m) := by
  have hcancel (cancels : Bool) : Shows [] r (if cancels then r.cancel else r) := by
    split
    · exact of_beside (.of_ledger rfl rfl (Nat.le_refl _))
    · exact of_beside (.refl r)
  cases m with
  | feed chunk cancels =>
    dsimp only [Run.seen, Run.apply]
    split
    · exact (hcancel cancels).trans (feed n chunk _)
    · exact of_beside (.refl r)
  | closeStream cancels =>
    dsimp only [Run.seen, Run.apply]
    split
    · exact (hcancel cancels).trans (closeStream n _)
    · exact of_beside (.refl r)
  | _ => exact of_beside (.apply rfl r)

/-- Over a schedule, subscribers are told of what is seen, while it is a draft. -/
theorem applyAll (n : Nat) (ms : List Move) (r : Run) :
    Shows (sightings n ms r) r (r.applyAll ms) := by
  induction ms generalizing n r with
  | nil => exact of_beside (.refl r)
  | cons m ms ih => exact (apply _ m r).trans (ih _ _)

end Shows

end Run

end TagLedger
