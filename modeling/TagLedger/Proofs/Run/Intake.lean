import Mathlib.Data.List.Forall2
import Mathlib.Tactic.Common
import TagLedger.Proofs.Entry.Open
import TagLedger.Proofs.Markup.Signs
import TagLedger.Proofs.Run.Direct
import TagLedger.Proofs.Run.Schedule

/-!
The intake of a stream. Between its pieces tasks take steps and messages are taken, and nothing of
that changes what becomes of the next piece: the entries that are routed are those of the elements
that are done, one after the other, whatever the schedule is. What they add to the chain stays there
in its places.
-/

namespace TagLedger

namespace OpenEntries

variable {i j : Nat} {e e' : Entry} {es : List (Nat × Entry)}

theorem mem_setEntry (h : (j, e') ∈ setEntry i e es) : (j = i ∧ e' = e) ∨ (j, e') ∈ es := by
  induction es with
  | nil =>
    obtain ⟨rfl, rfl⟩ := Prod.mk.inj (List.mem_singleton.mp h)
    exact .inl ⟨rfl, rfl⟩
  | cons x es ih =>
    unfold setEntry at h
    split at h
    · rcases List.mem_cons.mp h with h | h
      · exact .inl (Prod.mk.inj h)
      · exact .inr (List.mem_cons_of_mem x h)
    · rcases List.mem_cons.mp h with h | h
      · exact .inr (h ▸ List.mem_cons_self)
      · exact (ih h).imp id (List.mem_cons_of_mem x)

theorem setEntry_setEntry (i : Nat) (e e' : Entry) (es : List (Nat × Entry)) :
    setEntry i e (setEntry i e' es) = setEntry i e es := by
  induction es with
  | nil => simp [setEntry]
  | cons x es ih =>
    unfold setEntry
    by_cases hx : x.1 = i
    · simp [setEntry, hx]
    · simp [setEntry, hx, ih]

variable {o : OpenEntries} {kind : EntryKind} {id : Uuid} {now : Timestamp}

/-- Setting an entry that was found or begun leaves the others. -/
theorem entries_set_getOrCreate (e : Entry) :
    ((o.getOrCreate i kind id now).2.set i e).entries = setEntry i e o.entries := by
  unfold getOrCreate
  dsimp only
  split
  · rfl
  · exact setEntry_setEntry i e _ o.entries

theorem mem_of_remove_getOrCreate {p : Nat × Entry}
    (h : p ∈ ((o.getOrCreate i kind id now).2.remove i).2.entries) : p ∈ o.entries := by
  obtain ⟨hmem, hne⟩ := List.mem_filter.mp h
  unfold getOrCreate at hmem
  dsimp only at hmem
  split at hmem
  · exact hmem
  · have hset : (p.1, p.2) ∈ setEntry i _ o.entries := hmem
    rcases mem_setEntry hset with ⟨hi, _⟩ | hmem
    · simp [hi] at hne
    · exact hmem

end OpenEntries

def Move.isPiece : Move → Bool
  | .feed _ _ => true
  | .closeStream _ => true
  | _ => false

/-- Whether a move is none of the host: a task takes a step, a message is taken, or time passes. -/
def Move.isInner : Move → Bool
  | .deliver => true
  | .task _ => true
  | .wait _ => true
  | _ => false

namespace Run

variable {i : Nat} {r r' q : Run} {m : Move} {ms : List Move} {x : Markup.Element}
  {sig : Nat → Text × Markup.Attributes} {y : Run × Message}

def streamed : List Move → Run → List (Run × Message)
  | [], _ => []
  | m :: ms, r => (if m.isPiece then r.taken m else []) ++ streamed ms (r.apply m)

/-- Whether every piece of the stream comes when the dispatcher asks for it. -/
def timely : List Move → Run → Bool
  | [], _ => true
  | m :: ms, r => (!m.isPiece || r.streamReady) && timely ms (r.apply m)

def intake (chunks : List Text) : List Move :=
  chunks.map (fun c => .feed c false) ++ [.closeStream false]

/-- The open entries are those of elements as they were, all of which agree with a table. -/
def Drafts (sig : Nat → Text × Markup.Attributes) (r : Run) : Prop :=
  ∀ i e, (i, e) ∈ r.ledger.openEntries.entries → ∃ kind y, y.index = i ∧
    sig i = (y.tag, y.attributes) ∧ r.elementKind? y.tag = some kind ∧ Entry.OfElement kind y e

theorem Intact.elementKind? (h : Intact r r') (tag : Text) :
    r'.elementKind? tag = r.elementKind? tag := by
  rw [Run.elementKind?, h.setup]
  rfl

theorem Drafts.congr (hd : Drafts sig r) (h : Intact r r')
    (hentries : ∀ x ∈ r'.ledger.openEntries.entries, x ∈ r.ledger.openEntries.entries) :
    Drafts sig r' := by
  intro i e hmem
  obtain ⟨kind, y, hindex, hsig, hkind, he⟩ := hd i e (hentries _ hmem)
  exact ⟨kind, y, hindex, hsig, (h.elementKind? y.tag).trans hkind, he⟩

theorem Drafts.framed (hd : Drafts sig r) (h : Framed r r') : Drafts sig r' :=
  hd.congr h.toIntact fun _ hx => h.openEntries ▸ hx

/-- The entry of an element, as it is found or begun, becomes that of the element as it is now. -/
theorem Drafts.ofElement (hd : Drafts sig r) (hsig : sig x.index = (x.tag, x.attributes))
    {kind : EntryKind} (hkind : r.elementKind? x.tag = some kind) (id : Uuid) (now : Timestamp) :
    Entry.OfElement kind x
      ((r.ledger.openEntries.getOrCreate x.index kind id now).1.withElement x) := by
  rcases r.ledger.openEntries.getOrCreate_cases x.index kind id now with hmem | hbegun
  · obtain ⟨kind', y, hindex, hsig', hkind', he⟩ := hd _ _ hmem
    obtain ⟨htag, hattrs⟩ := Prod.mk.inj (hsig'.symm.trans hsig)
    rw [htag] at hkind'
    obtain rfl := Option.some.inj (hkind'.symm.trans hkind)
    exact he.withElement hindex hattrs
  · exact ⟨id, now, by rw [hbegun]⟩

/-- Routing the entry of an element leaves what the dispatcher goes by. -/
theorem takeElement_intact (x : Markup.Element) (r : Run) : Intact r (r.takeElement x) := by
  have hopen (o : OpenEntries) : Intact r ((r.draw 1).setOpen o) := ⟨rfl, rfl, rfl, rfl⟩
  have hx := r.takeElement_notices x
  generalize r.elementTaken x = taken, r.takeElement x = r' at hx ⊢
  cases hx with
  | unknown _ => exact .refl r
  | shows _ _ _ => exact ⟨rfl, rfl, rfl, rfl⟩
  | routes _ _ _ => exact (hopen _).trans (Framed.route _ _).toIntact

/-- What a taking adds to the chain directly. -/
def addedBy (y : Run × Message) : List Entry :=
  match y.2 with
  | .push e => y.1.entriesFor e
  | _ => []

structure TakenFor (r : Run) (x : Markup.Element) (y : Run × Message) : Prop where
  done : x.done = true
  entry : ∃ kind e, r.elementKind? x.tag = some kind ∧ Entry.OfElement kind x e ∧ y.2 = .push e
  intact : Intact r y.1

theorem TakenFor.of_intact (h : TakenFor r' x y) (hr : Intact r r') : TakenFor r x y where
  done := h.done
  entry := by
    obtain ⟨kind, e, hkind, he, hy⟩ := h.entry
    exact ⟨kind, e, (hr.elementKind? x.tag).symm.trans hkind, he, hy⟩
  intact := hr.trans h.intact

def routedElements (r : Run) (events : List Markup.ElementEvent) : List Markup.Element :=
  (Markup.doneElements events).filter fun x => (r.elementKind? x.tag).isSome

theorem Intact.routedElements (h : Intact r r') (events : List Markup.ElementEvent) :
    r'.routedElements events = r.routedElements events := by
  simp only [Run.routedElements, h.elementKind?]

theorem elementTaken_forall (hd : Drafts sig r) (hsig : sig x.index = (x.tag, x.attributes))
    (ev : Markup.EventKind) :
    List.Forall₂ (TakenFor r) (r.routedElements [⟨ev, x⟩]) (r.elementTaken x) := by
  have hrouted : r.routedElements [⟨ev, x⟩] =
      if x.done && (r.elementKind? x.tag).isSome then [x] else [] := by
    cases hdone : x.done <;> cases hkind : r.elementKind? x.tag <;>
      simp [Run.routedElements, Markup.doneElements, hdone, hkind]
  rw [hrouted]
  have hx := r.takeElement_notices x
  generalize r.elementTaken x = taken, r.takeElement x = r' at hx ⊢
  cases hx with
  | unknown hkind => simp [hkind]
  | shows _ hdone _ => simp [hdone]
  | routes hkind hdone hfound =>
    subst hfound
    simp only [hdone, hkind, Option.isSome_some, Bool.and_self, if_true]
    exact .cons ⟨hdone, ⟨_, _, hkind, hd.ofElement hsig hkind _ _, rfl⟩, rfl, rfl, rfl, rfl⟩ .nil

theorem takeElement_drafts (hd : Drafts sig r) (hsig : sig x.index = (x.tag, x.attributes)) :
    Drafts sig (r.takeElement x) := by
  have hintact := r.takeElement_intact x
  have hx := r.takeElement_notices x
  generalize r.elementTaken x = taken, r.takeElement x = r' at hx hintact ⊢
  cases hx with
  | unknown _ => exact hd
  | @shows kind _ hkind _ hfound =>
    subst hfound
    intro i e hmem
    have hmem : (i, e) ∈ OpenEntries.setEntry x.index _ r.ledger.openEntries.entries :=
      OpenEntries.entries_set_getOrCreate _ ▸ hmem
    rcases OpenEntries.mem_setEntry hmem with ⟨rfl, rfl⟩ | hmem
    · exact ⟨kind, x, rfl, hsig, (hintact.elementKind? x.tag).trans hkind,
        hd.ofElement hsig hkind r.nextId r.time⟩
    · obtain ⟨kind', y, hindex, hsig', hkind', he'⟩ := hd i e hmem
      exact ⟨kind', y, hindex, hsig', (hintact.elementKind? y.tag).trans hkind', he'⟩
  | routes _ _ hfound =>
    subst hfound
    refine hd.congr hintact fun p hp => ?_
    rw [(Framed.route _ _).openEntries] at hp
    exact OpenEntries.mem_of_remove_getOrCreate hp

/-- What routing the entry of an element adds to the chain. -/
theorem takeElement_chain (x : Markup.Element) (r : Run) :
    (r.takeElement x).ledger.chain = r.ledger.chain ++ (r.elementTaken x).flatMap addedBy := by
  have hx := r.takeElement_notices x
  generalize r.elementTaken x = taken, r.takeElement x = r' at hx ⊢
  cases hx with
  | unknown _ => exact (List.append_nil _).symm
  | shows _ _ _ => exact (List.append_nil _).symm
  | routes _ _ _ =>
    rw [List.flatMap_singleton]
    exact chain_route _ _

theorem takeEvents_chain (events : List Markup.ElementEvent) (r : Run) :
    (r.takeEvents events).ledger.chain =
      r.ledger.chain ++ (eventsTaken events r).flatMap addedBy := by
  induction events generalizing r with
  | nil => exact (List.append_nil _).symm
  | cons ev events ih =>
    rw [eventsTaken, List.flatMap_append, ← List.append_assoc, ← takeElement_chain]
    exact ih _

theorem takeElement_stream (x : Markup.Element) (r : Run) :
    (r.takeElement x).stream = r.stream := by
  have hx := r.takeElement_notices x
  generalize r.elementTaken x = taken, r.takeElement x = r' at hx ⊢
  cases hx with
  | routes _ _ _ => exact (Framed.route _ _).stream
  | _ => rfl

structure Intake (sig : Nat → Text × Markup.Attributes) (events : List Markup.ElementEvent)
    (r : Run) : Prop where
  taken : List.Forall₂ (TakenFor r) (r.routedElements events) (eventsTaken events r)
  drafts : Drafts sig (r.takeEvents events)
  intact : Intact r (r.takeEvents events)
  stream : (r.takeEvents events).stream = r.stream

theorem routedElements_append (r : Run) (evs evs' : List Markup.ElementEvent) :
    r.routedElements (evs ++ evs') = r.routedElements evs ++ r.routedElements evs' := by
  rw [Run.routedElements, Markup.doneElements_append, List.filter_append]
  rfl

theorem takeEvents_intake {events : List Markup.ElementEvent} (hd : Drafts sig r)
    (hsig : ∀ ev ∈ events, sig ev.element.index = (ev.element.tag, ev.element.attributes)) :
    Intake sig events r := by
  induction events generalizing r with
  | nil => exact ⟨.nil, hd, .refl r, rfl⟩
  | cons ev events ih =>
    obtain ⟨hfirst, hrest⟩ := List.forall_mem_cons.mp hsig
    have hintact := r.takeElement_intact ev.element
    have ih := ih (takeElement_drafts hd hfirst) hrest
    refine ⟨?_, ih.drafts, hintact.trans ih.intact, ?_⟩
    · have hone := elementTaken_forall hd hfirst ev.kind
      have hmore : List.Forall₂ (TakenFor r) (r.routedElements events)
          (eventsTaken events (r.takeElement ev.element)) := by
        rw [← hintact.routedElements]
        exact ih.taken.imp fun _ _ h => h.of_intact hintact
      rw [← List.singleton_append, routedElements_append]
      exact List.rel_append hone hmore
    · exact ih.stream.trans (r.takeElement_stream ev.element)

theorem apply_framed (hm : m.isInner = true) (r : Run) : Framed r (r.apply m) := by
  have hmove := r.apply_happens m
  generalize r.taken m = taken, r.apply m = r' at hmove ⊢
  cases hmove with
  | nothing => exact .refl r
  | @deliver m rest _ =>
    have htaken : Framed r { r with inbox := rest } := .of_ledger rfl rfl rfl
    exact htaken.trans (.receive _ _)
  | task hs => exact .steps hs
  | wait ms => exact .of_ledger rfl rfl rfl
  | _ => cases hm

theorem isPiece_eq_false (hm : m.isInner = true) : m.isPiece = false := by
  cases m <;> first | rfl | cases hm

theorem streamed_append (ms ms' : List Move) (r : Run) :
    streamed (ms ++ ms') r = streamed ms r ++ streamed ms' (r.applyAll ms) := by
  induction ms generalizing r with
  | nil => rfl
  | cons m ms ih =>
    rw [List.cons_append, streamed, streamed, ih, List.append_assoc]
    rfl

theorem timely_append (ms ms' : List Move) (r : Run) :
    timely (ms ++ ms') r = (timely ms r && timely ms' (r.applyAll ms)) := by
  induction ms generalizing r with
  | nil => rfl
  | cons m ms ih =>
    rw [List.cons_append, timely, timely, ih, Bool.and_assoc]
    rfl

/-- Without pieces nothing is taken in. -/
theorem streamed_eq_nil (h : ∀ m ∈ ms, m.isPiece = false) (r : Run) : streamed ms r = [] := by
  induction ms generalizing r with
  | nil => rfl
  | cons m ms ih =>
    obtain ⟨hm, hms⟩ := List.forall_mem_cons.mp h
    rw [streamed, hm]
    exact ih hms _

/-- A piece of text that is taken in time routes the entries of the elements it completes. -/
theorem feed_intake {p : Markup.Parser} {c : Text} (hstream : r.stream = some p)
    (hready : r.streamReady = true) (hd : Drafts sig r)
    (hsig : ∀ ev ∈ (p.feed c).2,
      sig ev.element.index = (ev.element.tag, ev.element.attributes)) :
    List.Forall₂ (TakenFor r) (r.routedElements (p.feed c).2) (r.taken (.feed c false)) ∧
      Drafts sig (r.apply (.feed c false)) ∧ Intact r (r.apply (.feed c false)) ∧
      (r.apply (.feed c false)).stream = some (p.feed c).1 := by
  have htaken : r.taken (.feed c false) =
      eventsTaken (p.feed c).2 { r with stream := some (p.feed c).1 } := by
    simp [taken, hready, feedTaken, hstream]
  have happly : r.apply (.feed c false) =
      takeEvents (p.feed c).2 { r with stream := some (p.feed c).1 } := by
    simp [apply, hready, feed, hstream]
  have hfed : Drafts sig { r with stream := some (p.feed c).1 } := hd
  have hset : Intact r { r with stream := some (p.feed c).1 } := ⟨rfl, rfl, rfl, rfl⟩
  have hintake := takeEvents_intake hfed hsig
  rw [htaken, happly]
  exact ⟨hintake.taken.imp fun _ _ h => h.of_intact hset, hintake.drafts,
    hset.trans hintake.intact, hintake.stream⟩

/-- So does the end of the stream. -/
theorem close_intake {p : Markup.Parser} (hstream : r.stream = some p)
    (hready : r.streamReady = true) (hd : Drafts sig r)
    (hsig : ∀ ev ∈ p.finish.2, sig ev.element.index = (ev.element.tag, ev.element.attributes)) :
    List.Forall₂ (TakenFor r) (r.routedElements p.finish.2) (r.taken (.closeStream false)) := by
  have htaken : r.taken (.closeStream false) =
      eventsTaken p.finish.2 { r with stream := none } := by
    simp [taken, hready, closeTaken, hstream]
  have hclosed : Drafts sig { r with stream := none } := hd
  have hset : Intact r { r with stream := none } := ⟨rfl, rfl, rfl, rfl⟩
  rw [htaken]
  exact (takeEvents_intake hclosed hsig).taken.imp fun _ _ h => h.of_intact hset

/-- Over every schedule that takes in the stream in pieces, the entries of the same elements are
routed, one after the other. -/
theorem streamed_forall {p : Markup.Parser} {chunks : List Text} (hstream : r.stream = some p)
    (hms : ms.filter (fun m => !m.isInner) = intake chunks) (htimely : timely ms r = true)
    (hsig : ∀ ev ∈ p.events chunks,
      sig ev.element.index = (ev.element.tag, ev.element.attributes)) (hd : Drafts sig r) :
    List.Forall₂ (TakenFor r) (r.routedElements (p.events chunks)) (streamed ms r) := by
  induction ms generalizing r p chunks with
  | nil =>
    have hlength := congrArg List.length hms
    simp [intake] at hlength
  | cons m ms ih =>
    obtain ⟨hready, htimely⟩ := Bool.and_eq_true_iff.mp htimely
    cases hinner : m.isInner with
    | true =>
      have hframed := apply_framed hinner r
      rw [List.filter_cons_of_neg (by simp [hinner])] at hms
      rw [streamed, isPiece_eq_false hinner, if_neg Bool.false_ne_true, List.nil_append,
        ← hframed.routedElements]
      have ih := ih (hframed.stream.trans hstream) hms htimely hsig (hd.framed hframed)
      exact ih.imp fun _ _ h => h.of_intact hframed.toIntact
    | false =>
      rw [List.filter_cons_of_pos (by simp [hinner])] at hms
      cases chunks with
      | nil =>
        -- The end of the stream was its last piece: only inner moves follow.
        obtain ⟨rfl, hrest⟩ := List.cons.inj hms
        have hinner : ∀ m ∈ ms, m.isPiece = false := fun m hm =>
          isPiece_eq_false (by simpa using List.filter_eq_nil_iff.mp hrest m hm)
        rw [streamed, streamed_eq_nil hinner, List.append_nil,
          if_pos (show Move.isPiece (.closeStream false) = true from rfl)]
        exact close_intake hstream hready hd hsig
      | cons c chunks =>
        obtain ⟨hm, hrest⟩ := List.cons.inj hms
        obtain rfl : m = .feed c false := hm
        rw [Markup.Parser.events_cons] at hsig ⊢
        obtain ⟨htaken, hdrafts, hintact, hfed⟩ :=
          feed_intake hstream hready hd fun ev hev => hsig ev (List.mem_append_left _ hev)
        have hmore := ih hfed hrest htimely
          (fun ev hev => hsig ev (List.mem_append_right _ hev)) hdrafts
        rw [streamed, if_pos (show Move.isPiece (.feed c false) = true from rfl),
          routedElements_append]
        refine List.rel_append htaken ?_
        rw [← hintact.routedElements]
        exact hmore.imp fun _ _ h => h.of_intact hintact

end Run

end TagLedger
