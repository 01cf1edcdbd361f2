import Mathlib.Tactic.Common
import TagLedger.Proofs.Markup.Brackets
import TagLedger.Proofs.Run.Mirror
import TagLedger.Proofs.Run.Sightings

/-!
The order of sightings. While a stream is taken in, its open elements are those of the parser, and
each of them that has an entry was last seen as it is; a new element has an index above all that the
open entries ever had. This lasts over every schedule, from one stream to the next.
-/

namespace TagLedger

variable {seen : List Sighting} {n : Nat} {r r' : Run}

namespace Run

/-- The first `N` identifiers that are given out are different. -/
def IdsApart (N : Nat) (r : Run) : Prop :=
  ∀ i, i < N → ∀ j, j < N → r.setup.ids i = r.setup.ids j → i = j

theorem IdsApart.congr {N : Nat} (h : IdsApart N r) (hsetup : r'.setup = r.setup) :
    IdsApart N r' := by
  intro i hi j hj hid
  rw [hsetup] at hid
  exact h i hi j hj hid

structure LastSeen (n : Nat) (seen : List Sighting) (r : Run) (x : Markup.Element)
    (s : Sighting) : Prop where
  mem : s ∈ seen
  stream : s.stream = n
  element : s.event.element = x
  entry : r.ledger.openEntries.get? x.index = some s.entry
  continues : ∀ a ∈ seen, a.index = x.index → a.Continues s

structure Watched (n : Nat) (seen : List Sighting) (nest : Markup.Nesting) (r : Run) : Prop where
  inOrder : Sighting.InOrder seen
  faithful : ∀ s ∈ seen, s.Faithful r
  /-- Identifiers of entries were given out before. -/
  drawn : ∀ s ∈ seen, ∃ j < r.drawn, s.entry.id = r.setup.ids j
  below : ∀ s ∈ seen, s.index < r.ledger.openEntries.nextIndex
  absent : ∀ i, r.ledger.openEntries.nextIndex ≤ i → r.ledger.openEntries.get? i = none
  /-- Elements without an entry may have taken further indices. -/
  reserved : r.ledger.openEntries.nextIndex ≤ nest.next
  sound : nest.Sound
  known : ∀ x ∈ nest.opened, ∀ kind, r.elementKind? x.tag = some kind →
    ∃ s, LastSeen n seen r x s

namespace Watched

variable {nest nest' : Markup.Nesting} {v : Markup.Vocabulary} {ev : Markup.ElementEvent}

theorem beside (h : Watched n seen nest r) (hb : Beside r r') : Watched n seen nest r' where
  inOrder := h.inOrder
  faithful := fun s hs => (h.faithful s hs).congr hb.setup
  drawn := by
    intro s hs
    obtain ⟨j, hj, hid⟩ := h.drawn s hs
    exact ⟨j, hj.trans_le hb.drawn, by rw [hb.setup, hid]⟩
  below := hb.openEntries ▸ h.below
  absent := hb.openEntries ▸ h.absent
  reserved := hb.openEntries ▸ h.reserved
  sound := h.sound
  known := by
    intro x hx kind hkind
    rw [elementKind?_congr hb.setup] at hkind
    obtain ⟨s, hs⟩ := h.known x hx kind hkind
    exact ⟨s, hs.mem, hs.stream, hs.element, hb.openEntries ▸ hs.entry, hs.continues⟩

/-- Without a stream, or at the beginning of one, nothing is open. -/
theorem reopen (h : Watched n seen nest r) (m : Nat) :
    Watched m seen ⟨[], r.ledger.openEntries.nextIndex⟩ r where
  inOrder := h.inOrder
  faithful := h.faithful
  drawn := h.drawn
  below := h.below
  absent := h.absent
  reserved := Nat.le_refl _
  sound := Markup.Nesting.sound_empty _
  known := by simp

/-- An event of an element without an entry. -/
theorem pass (h : Watched n seen nest r) (hs : Markup.Nesting.Step v nest ev nest')
    (hkind : r.elementKind? ev.element.tag = none) : Watched n seen nest' r where
  inOrder := h.inOrder
  faithful := h.faithful
  drawn := h.drawn
  below := h.below
  absent := h.absent
  reserved := by
    have hreserved := h.reserved
    rcases hs.starts_or_goes_on with ⟨-, -, -, hnext⟩ | ⟨-, hnext, -⟩ <;> omega
  sound := hs.sound h.sound
  known := by
    intro x hx kind hx'
    rcases hs.opened_after h.sound x hx with ⟨rfl, -⟩ | ⟨hx, -⟩
    · rw [hkind] at hx'
      cases hx'
    · exact h.known x hx kind hx'

/-- An event of an element with an entry, whose sighting fits those before it. -/
theorem see (h : Watched n seen nest r) (hs : Markup.Nesting.Step v nest ev nest') {e : Entry}
    (ht : Takes ev.element e r r') (hfits : Sighting.Fits seen ⟨n, ev, e⟩)
    (hfaithful : Sighting.Faithful r ⟨n, ev, e⟩) (hid : ∃ j ≤ r.drawn, e.id = r.setup.ids j) :
    Watched n (seen ++ [⟨n, ev, e⟩]) nest' r' where
  inOrder := .concat h.inOrder hfits
  faithful := by
    intro s hmem
    rcases List.mem_append.mp hmem with hmem | hmem
    · exact (h.faithful s hmem).congr ht.setup
    · rw [List.mem_singleton.mp hmem]
      exact hfaithful.congr ht.setup
  drawn := by
    intro s hmem
    rw [ht.setup]
    rcases List.mem_append.mp hmem with hmem | hmem
    · obtain ⟨j, hj, hsid⟩ := h.drawn s hmem
      exact ⟨j, hj.trans ht.drawn, hsid⟩
    · obtain ⟨j, hj, heid⟩ := hid
      rw [List.mem_singleton.mp hmem]
      exact ⟨j, hj.trans_lt ht.drawn, heid⟩
  below := by
    intro s hmem
    rw [ht.nextIndex]
    rcases List.mem_append.mp hmem with hmem | hmem
    · have hbelow := h.below s hmem
      omega
    · rw [List.mem_singleton.mp hmem]
      exact Nat.lt_of_lt_of_le (Nat.lt_succ_self _) (Nat.le_max_right _ _)
  absent := by
    intro i hi
    rw [ht.nextIndex] at hi
    rw [ht.others i (by omega)]
    exact h.absent i (by omega)
  reserved := by
    have hreserved := h.reserved
    have hindices := h.sound.below
    rw [ht.nextIndex]
    rcases hs.starts_or_goes_on with ⟨-, -, hindex, hnext⟩ | ⟨-, hnext, x, hx, hindex, -⟩
    · omega
    · have hbelow := hindices x hx
      omega
  sound := hs.sound h.sound
  known := by
    intro y hy kind hkind
    rw [elementKind?_congr ht.setup] at hkind
    rcases hs.opened_after h.sound y hy with ⟨rfl, hdone⟩ | ⟨hy, hne⟩
    · refine ⟨⟨n, ev, e⟩, by simp, rfl, rfl, by simp [ht.own, hdone], ?_⟩
      intro a ha hindex
      rcases List.mem_append.mp ha with ha | ha
      · exact hfits.continues a ha hindex
      · rw [List.mem_singleton.mp ha]
        exact .refl (by simp [Sighting.isDraft, hdone])
    · obtain ⟨s, hlast⟩ := h.known y hy kind hkind
      refine ⟨s, List.mem_append_left _ hlast.mem, hlast.stream, hlast.element, ?_, ?_⟩
      · rw [ht.others y.index hne, hlast.entry]
      · intro a ha hindex
        rcases List.mem_append.mp ha with ha | ha
        · exact hlast.continues a ha hindex
        · rw [List.mem_singleton.mp ha] at hindex
          exact absurd hindex.symm hne

/-- The first event of an element. -/
theorem fits_of_started (h : Watched n seen nest r) {N : Nat} (hids : IdsApart N r)
    (hdrawn : r.drawn < N) (hkind : ev.kind = .started) (hdone : ev.element.done = false)
    (hindex : r.ledger.openEntries.nextIndex ≤ ev.element.index) {e : Entry}
    (hid : e.id = r.setup.ids r.drawn) : Sighting.Fits seen ⟨n, ev, e⟩ where
  starts := by
    intro _
    refine ⟨by simp [Sighting.isDraft, hdone], ?_⟩
    intro a ha
    exact (h.below a ha).trans_le hindex
  started := fun hne => absurd hkind hne
  continues := by
    intro a ha hsame
    exact absurd hsame ((h.below a ha).trans_le hindex).ne
  apart := by
    intro a ha _ hsame
    obtain ⟨j, hj, haid⟩ := h.drawn a ha
    have hsamedraw := hids j (hj.trans hdrawn) r.drawn hdrawn (haid.symm.trans (hsame.trans hid))
    omega

/-- A later event of an element. -/
theorem fits_of_goesOn (h : Watched n seen nest r) {s : Sighting} {x : Markup.Element}
    (hs : LastSeen n seen r x s) (hkind : ev.kind ≠ .started)
    (hindex : ev.element.index = x.index)
    (hcontinues : s.Continues ⟨n, ev, s.entry.withElement ev.element⟩) :
    Sighting.Fits seen ⟨n, ev, s.entry.withElement ev.element⟩ := by
  have hsindex : s.index = ev.element.index := by rw [hindex, ← hs.element, Sighting.index]
  refine ⟨fun hstarted => absurd hstarted hkind, fun _ => ?_, ?_, ?_⟩
  · obtain ⟨a, ha, hstarted, hsame⟩ := h.inOrder.exists_started hs.mem
    exact ⟨a, ha, hstarted, hsame.trans hsindex⟩
  · intro a ha hsame
    exact (hs.continues a ha (hsame.trans hindex)).trans hcontinues
  · intro a ha hne
    rw [Entry.id_withElement]
    exact h.inOrder.id_ne ha hs.mem fun hsame => hne (hsame.trans hsindex)

/-- What is seen in an event fits what was seen before. -/
theorem takeElement (h : Watched n seen nest r) {N : Nat} (hids : IdsApart N r)
    (hdrawn : (r.takeElement ev.element).drawn ≤ N) (hs : Markup.Nesting.Step v nest ev nest') :
    Watched n (seen ++ r.elementSeen n ev) nest' (r.takeElement ev.element) := by
  cases hkind : r.elementKind? ev.element.tag with
  | none =>
    have hseen : r.elementSeen n ev = [] := by simp [elementSeen, hkind]
    have hsame : r.takeElement ev.element = r := by simp [Run.takeElement, hkind]
    rw [hseen, hsame, List.append_nil]
    exact h.pass hs hkind
  | some kind =>
    have ht := takeElement_takes hkind
    simp only [elementSeen, hkind]
    rcases hs.starts_or_goes_on with ⟨hstarted, hdone, hindex, -⟩ | ⟨hlater, -, x, hx, hindex, hsame⟩
    · have hnew : r.ledger.openEntries.nextIndex ≤ ev.element.index := hindex ▸ h.reserved
      rw [OpenEntries.getOrCreate_of_none (h.absent _ hnew)] at ht ⊢
      have hid : ((Entry.streaming kind r.nextId ev.element.index r.time).withElement
          ev.element).id = r.setup.ids r.drawn := by
        rw [Entry.id_withElement, Entry.id_streaming]
        rfl
      exact h.see hs ht (h.fits_of_started hids (ht.drawn.trans_le hdrawn) hstarted hdone hnew hid)
        ⟨kind, hkind, r.nextId, r.time, rfl⟩ ⟨r.drawn, Nat.le_refl _, hid⟩
    · obtain ⟨htag, hattributes, hcontent⟩ := hsame
      obtain ⟨s, hlast⟩ := h.known x hx kind (htag ▸ hkind)
      rw [OpenEntries.getOrCreate_of_some (hindex ▸ hlast.entry)] at ht ⊢
      have hfaithful := h.faithful s hlast.mem
      have hdraft : s.isDraft = true := by
        simp [Sighting.isDraft, hlast.element, h.sound.pending x hx]
      have hgrown : s.event.element.content <+: ev.element.content := hlast.element ▸ hcontent
      have hcontinues := hfaithful.continues hdraft hgrown
      rw [hlast.stream] at hcontinues
      obtain ⟨j, hj, hid⟩ := h.drawn s hlast.mem
      refine h.see hs ht (h.fits_of_goesOn hlast hlater hindex hcontinues) ?_ ?_
      · obtain ⟨kind', hkind', hentry⟩ := hfaithful
        rw [hlast.element] at hkind' hentry
        exact ⟨kind', by rw [← hkind', htag], hentry.withElement hindex.symm hattributes.symm⟩
      · exact ⟨j, hj.le, by rw [Entry.id_withElement, hid]⟩

theorem takeEvents {events : List Markup.ElementEvent} (h : Watched n seen nest r) {N : Nat}
    (hids : IdsApart N r) (hdrawn : (r.takeEvents events).drawn ≤ N)
    (ht : Markup.Nesting.Trace v nest events nest') :
    Watched n (seen ++ eventsSeen n events r) nest' (r.takeEvents events) := by
  induction ht generalizing r seen with
  | nil nest =>
    simp only [eventsSeen, List.append_nil]
    exact h
  | @cons nest nest₁ nest₂ ev events hs _ ih =>
    have hfirst := (Shows.takeEvents n events (r.takeElement ev.element)).drawn.trans hdrawn
    have hone := h.takeElement hids hfirst hs
    have hmore := ih hone (hids.congr (r.takeElement_intact ev.element).setup) hdrawn
    rwa [List.append_assoc] at hmore

end Watched

def nesting (r : Run) : Markup.Nesting :=
  match r.stream with
  | none => ⟨[], r.ledger.openEntries.nextIndex⟩
  | some p => p.nesting

structure Watching (n : Nat) (seen : List Sighting) (r : Run) : Prop where
  rooted : ∀ p ∈ r.stream, p.Rooted
  watched : Watched n seen r.nesting r

theorem stream_takeEvents (events : List Markup.ElementEvent) (r : Run) :
    (r.takeEvents events).stream = r.stream := by
  induction events generalizing r with
  | nil => rfl
  | cons ev events ih => exact (ih _).trans (r.takeElement_stream ev.element)

/-- Streams are opened and given up by moves of their own, and changed by their pieces. -/
theorem stream_apply {m : Move} (hm : m.isPiece = false) (hopen : m ≠ .openStream)
    (hdrop : m ≠ .dropStream) (r : Run) : (r.apply m).stream = r.stream := by
  have hmove := r.apply_happens m
  generalize r.taken m = taken, r.apply m = r' at hmove ⊢
  cases hmove with
  | start _ => exact r.start_framed.stream.trans r.stream_bound
  | nextStep _ => exact (Framed.commit _ _).stream
  | push e _ => exact (Framed.route _ _).stream
  | openStream _ => exact absurd rfl hopen
  | dropStream _ => exact absurd rfl hdrop
  | feed _ _ _ | closeStream _ _ => cases hm
  | deliver _ => exact (Framed.receive _ _).stream
  | task hs => exact (Framed.steps hs).stream
  | _ => rfl

namespace Watching

theorem beside (h : Watching n seen r) (hb : Beside r r') (hs : r'.stream = r.stream) :
    Watching n seen r' where
  rooted := hs ▸ h.rooted
  watched := by
    have hnesting : r'.nesting = r.nesting := by rw [nesting, nesting, hs, hb.openEntries]
    rw [hnesting]
    exact h.watched.beside hb

variable {N : Nat}

theorem feed (h : Watching n seen r) (hids : IdsApart N r) (chunk : Text)
    (hdrawn : (r.feed chunk).drawn ≤ N) :
    Watching n (seen ++ r.feedSeen n chunk) (r.feed chunk) := by
  unfold Run.feed at hdrawn ⊢
  unfold feedSeen
  cases hstream : r.stream with
  | none => simpa using h
  | some p =>
    simp only [hstream] at hdrawn
    have htraces := Markup.Parser.traces_feed (h.rooted p hstream) chunk
    have hfed : Watched n seen p.nesting { r with stream := some (p.feed chunk).1 } := by
      have hwatched := h.watched
      rw [nesting, hstream] at hwatched
      exact hwatched.beside (.of_ledger rfl rfl (Nat.le_refl _))
    have htaken := hfed.takeEvents (hids.congr rfl) hdrawn htraces.trace
    refine ⟨?_, ?_⟩
    · rw [stream_takeEvents]
      rintro _ ⟨⟩
      exact htraces.rooted
    · rw [nesting, stream_takeEvents]
      exact htaken

theorem closeStream (h : Watching n seen r) (hids : IdsApart N r)
    (hdrawn : r.closeStream.drawn ≤ N) :
    Watching n (seen ++ r.closeSeen n) r.closeStream := by
  unfold Run.closeStream at hdrawn ⊢
  unfold closeSeen
  cases hstream : r.stream with
  | none => simpa using h
  | some p =>
    simp only [hstream] at hdrawn
    have htraces := Markup.Parser.traces_finish (h.rooted p hstream)
    have hclosed : Watched n seen p.nesting { r with stream := none } := by
      have hwatched := h.watched
      rw [nesting, hstream] at hwatched
      exact hwatched.beside (.of_ledger rfl rfl (Nat.le_refl _))
    have htaken := hclosed.takeEvents (hids.congr rfl) hdrawn htraces.trace
    refine ⟨?_, ?_⟩
    · rw [stream_takeEvents]
      rintro _ ⟨⟩
    · rw [nesting, stream_takeEvents]
      exact htaken.reopen n

theorem openStream (h : Watching n seen r) : Watching (n + 1) seen r.openStream where
  rooted := by
    rintro _ ⟨⟩
    exact fun _ => rfl
  watched := (h.watched.reopen (n + 1)).beside (.of_ledger rfl rfl (Nat.le_refl _))

theorem dropStream (h : Watching n seen r) : Watching n seen r.dropStream where
  rooted := by rintro _ ⟨⟩
  watched := (h.watched.reopen n).beside (.of_ledger rfl rfl (Nat.le_refl _))

/-- A move that neither takes in a piece nor opens a stream or gives one up. -/
theorem quiet {m : Move} (h : Watching n seen r) (hm : m.isPiece = false) (hopen : m ≠ .openStream)
    (hdrop : m ≠ .dropStream) :
    Watching (n + r.opens m) (seen ++ r.seen (n + r.opens m) m) (r.apply m) := by
  have hopens : r.opens m = 0 := by
    cases m with
    | openStream => exact absurd rfl hopen
    | _ => rfl
  have hseen : r.seen n m = [] := by
    cases m with
    | feed chunk cancels => cases hm
    | closeStream cancels => cases hm
    | _ => rfl
  rw [hopens, Nat.add_zero, hseen, List.append_nil]
  exact h.beside (.apply hm r) (stream_apply hm hopen hdrop r)

theorem apply (h : Watching n seen r) (hids : IdsApart N r) (m : Move)
    (hdrawn : (r.apply m).drawn ≤ N) :
    Watching (n + r.opens m) (seen ++ r.seen (n + r.opens m) m) (r.apply m) := by
  have hcancel (cancels : Bool) : Watching n seen (if cancels then r.cancel else r) ∧
      IdsApart N (if cancels then r.cancel else r) := by
    split
    · exact ⟨h.beside (.of_ledger rfl rfl (Nat.le_refl _)) rfl, hids.congr rfl⟩
    · exact ⟨h, hids⟩
  cases m with
  | feed chunk cancels =>
    by_cases hready : r.streamReady = true
    · simp only [opens, Run.seen, Run.apply, hready, if_true] at hdrawn ⊢
      exact (hcancel cancels).1.feed (hcancel cancels).2 chunk hdrawn
    · simpa [opens, Run.seen, Run.apply, hready] using h
  | closeStream cancels =>
    by_cases hready : r.streamReady = true
    · simp only [opens, Run.seen, Run.apply, hready, if_true] at hdrawn ⊢
      exact (hcancel cancels).1.closeStream (hcancel cancels).2 hdrawn
    · simpa [opens, Run.seen, Run.apply, hready] using h
  | openStream =>
    dsimp only [opens, Run.seen, Run.apply]
    split
    · simpa using h.openStream
    · simpa using h
  | dropStream =>
    dsimp only [opens, Run.seen, Run.apply]
    split
    · simpa using h.dropStream
    · simpa using h
  | _ => exact h.quiet rfl (by simp) (by simp)

theorem applyAll (h : Watching n seen r) (hids : IdsApart N r) (ms : List Move)
    (hdrawn : (r.applyAll ms).drawn ≤ N) :
    ∃ n', Watching n' (seen ++ sightings n ms r) (r.applyAll ms) := by
  induction ms generalizing n seen r with
  | nil =>
    refine ⟨n, ?_⟩
    rw [sightings, List.append_nil]
    exact h
  | cons m ms ih =>
    have hlater := (Shows.applyAll n ms (r.apply m)).drawn
    have hfirst := h.apply hids m (hlater.trans hdrawn)
    obtain ⟨n', hall⟩ := ih hfirst (hids.congr (Shows.apply n m r).setup) hdrawn
    refine ⟨n', ?_⟩
    rw [sightings, ← List.append_assoc]
    exact hall

theorem new (setup : Setup) (store : Store) (archive : Archive) (subscribers : Subscribers) :
    Watching 0 [] (new setup store archive subscribers) where
  rooted := by rintro _ ⟨⟩
  watched := {
    inOrder := .nil
    faithful := by simp
    drawn := by simp
    below := by simp
    absent := fun _ _ => rfl
    reserved := Nat.le_refl _
    sound := Markup.Nesting.sound_empty _
    known := by simp [nesting, Run.new] }

end Watching

/-- Over every schedule a recorder is told of all that is seen of elements while they go on, and of
no other draft; each entry is that of its element, and the sightings are in order. -/
theorem sightings_inOrder (setup : Setup) (store : Store) (archive : Archive)
    (subscribers : Subscribers) {k : Nat} (hk : subscribers.members[k]? = some (.recorder []))
    (ms : List Move)
    (hids : ((List.range ((new setup store archive subscribers).applyAll ms).drawn).map
      setup.ids).Nodup) :
    let r := new setup store archive subscribers
    let seen := sightings 0 ms r
    (∃ told, (r.applyAll ms).ledger.subscribers.members[k]? = some (.recorder told) ∧
        draftEntries told = Sighting.drafts seen) ∧
      (∀ s ∈ seen, s.Faithful r) ∧ Sighting.InOrder seen := by
  intro r seen
  have hshows : Shows seen r (r.applyAll ms) := .applyAll 0 ms r
  have hapart : IdsApart (r.applyAll ms).drawn r := by
    intro i hi j hj hid
    exact (List.inj_on_of_nodup_map hids) (List.mem_range.mpr hi) (List.mem_range.mpr hj) hid
  obtain ⟨n, hwatching⟩ :=
    (Watching.new setup store archive subscribers).applyAll hapart ms (Nat.le_refl _)
  rw [List.nil_append] at hwatching
  obtain ⟨told, htold, hdrafts⟩ := hshows.tells
  refine ⟨⟨told, ?_, hdrafts⟩, ?_, hwatching.watched.inOrder⟩
  · rw [htold]
    exact Subscribers.recorder_foldl_notify hk told
  · intro s hs
    exact (hwatching.watched.faithful s hs).congr hshows.setup.symm

open Sample in
/-- An index that an element without an entry had in one stream is that of an element with an entry
in the next. -/
theorem sightings_inOrder_three_streams :
    let r := new noteSetup Store.empty Archive.empty faultySubscribers
    let ms : List Move := [.start, .openStream, .feed "<response><think>a".toList false, .deliver,
      .feed "b</think><action_call name=\"note\">[1]</action_call></response>".toList false,
      .closeStream false, .nextStep, .task 0, .deliver, .openStream,
      .feed "<think/><response>".toList false, .closeStream false, .openStream,
      .feed "<output>c".toList true, .dropStream]
    let seen := sightings 0 ms r
    seen.map (fun s => (s.stream, s.index, s.isDraft)) =
        [(1, 1, true), (1, 1, true), (1, 1, true), (1, 1, false), (1, 2, true), (1, 2, true),
          (1, 2, false), (2, 3, true), (2, 3, false), (3, 4, true), (3, 4, true)] ∧
      ((List.range (r.applyAll ms).drawn).map noteSetup.ids).Nodup ∧
      (∃ told, (r.applyAll ms).ledger.subscribers.members[1]? = some (.recorder told) ∧
        draftEntries told = Sighting.drafts seen) ∧
      (∀ s ∈ seen, s.Faithful r) ∧ Sighting.InOrder seen := by
  intro r ms seen
  have hids : ((List.range (r.applyAll ms).drawn).map noteSetup.ids).Nodup := by decide +kernel
  exact ⟨by decide +kernel, hids,
    sightings_inOrder noteSetup Store.empty Archive.empty faultySubscribers (k := 1) rfl ms hids⟩

end Run

end TagLedger
