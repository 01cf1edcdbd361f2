import Mathlib.Tactic.Common
import TagLedger.Proofs.Run.Intake

/-!
The opening of a run. Before it is started there are no tasks and no messages, so that only time can
pass; the start binds handlers and actions, and a stream is opened on that. From then on the
schedule has no part in what is routed for the stream.
-/

namespace TagLedger.Run

variable {r r' : Run} {m : Move} {ms : List Move}

/-- A run with working memory loaded and the catalog bound, if it can be loaded. -/
def bound (r : Run) : Run :=
  match WorkingMemory.load r.memoryKey r.store with
  | (.error _, store) => { r with store }
  | (.ok memory, store) => bindCatalog memory { r with store }

theorem start_framed (r : Run) : Framed r.bound r.start.2 := by
  have hopen (q : Run) : Framed q q.openRun := by
    have hname : Framed q ({ q with ledger := { q.ledger with runId := q.nextId } }.draw 1) :=
      .of_intact ⟨rfl, rfl, rfl, rfl⟩ rfl rfl rfl
    exact hname.trans (.commit _ _)
  have hstep (q : Run) : Framed q q.nextStep := by
    have hcount (l : Ledger) (hl : l = { q.ledger with step := q.ledger.step + 1 }) :
        Framed q ({ q with ledger := l }.draw 1) := by
      subst hl
      exact .of_intact ⟨rfl, rfl, rfl, rfl⟩ rfl rfl rfl
    exact (hcount _ rfl).trans (.commit _ _)
  unfold start bound
  generalize WorkingMemory.load r.memoryKey r.store = loaded
  obtain ⟨outcome, store⟩ := loaded
  cases outcome with
  | error err => exact .refl _
  | ok memory => exact (hopen _).trans (hstep _)

theorem setup_bound (r : Run) : r.bound.setup = r.setup := by
  unfold bound
  split <;> rfl

theorem stream_bound (r : Run) : r.bound.stream = r.stream := by
  unfold bound
  split <;> rfl

theorem openEntries_bound (r : Run) : r.bound.ledger.openEntries = r.ledger.openEntries := by
  unfold bound
  split <;> rfl

theorem archive_bound (r : Run) : r.bound.ledger.archive = r.ledger.archive := by
  unfold bound
  split <;> rfl

theorem actions_bound (r : Run) : r.bound.ledger.actions =
    match (WorkingMemory.load r.memoryKey r.store).1 with
    | .error _ => r.ledger.actions
    | .ok memory =>
      Action.prepare r.setup.catalog.actions r.setup.context r.setup.subContexts memory := by
  unfold bound
  generalize WorkingMemory.load r.memoryKey r.store = loaded
  obtain ⟨outcome, store⟩ := loaded
  cases outcome <;> rfl

theorem outputs_bound (r : Run) : r.bound.ledger.outputs =
    match (WorkingMemory.load r.memoryKey r.store).1 with
    | .error _ => r.ledger.outputs
    | .ok memory => OutputHandler.prepare r.setup.catalog.outputs r.setup.context memory := by
  unfold bound
  generalize WorkingMemory.load r.memoryKey r.store = loaded
  obtain ⟨outcome, store⟩ := loaded
  cases outcome <;> rfl

/-- Without tasks and messages only time passes. -/
theorem apply_idle (ht : r.tasks = []) (hi : r.inbox = []) (hm : m.isInner = true) :
    ∃ now, r.apply m = { r with now } := by
  cases m with
  | deliver =>
    refine ⟨r.now, ?_⟩
    have hdeliver : r.deliver = r := by rw [deliver, hi]
    dsimp only [apply]
    rw [hdeliver, ite_self]
  | task i =>
    refine ⟨r.now, ?_⟩
    have hnone : r.stepTask? i = none := by rw [stepTask?, ht, List.getElem?_nil, Option.bind_none]
    rw [apply, stepTask, hnone]
    rfl
  | wait ms => exact ⟨r.now + ms, rfl⟩
  | _ => cases hm

theorem applyAll_idle (ht : r.tasks = []) (hi : r.inbox = []) (hms : ∀ m ∈ ms, m.isInner = true) :
    ∃ now, r.applyAll ms = { r with now } := by
  induction ms generalizing r with
  | nil => exact ⟨r.now, rfl⟩
  | cons m ms ih =>
    obtain ⟨hm, hms⟩ := List.forall_mem_cons.mp hms
    obtain ⟨now, happly⟩ := apply_idle ht hi hm
    obtain ⟨now', hall⟩ := ih (r := { r with now }) ht hi hms
    refine ⟨now', ?_⟩
    have hcons : r.applyAll (m :: ms) = (r.apply m).applyAll ms := rfl
    rw [hcons, happly, hall]

theorem applyAll_framed (hms : ∀ m ∈ ms, m.isInner = true) (r : Run) :
    Framed r (r.applyAll ms) := by
  induction ms generalizing r with
  | nil => exact .refl r
  | cons m ms ih =>
    obtain ⟨hm, hms⟩ := List.forall_mem_cons.mp hms
    exact (apply_framed hm r).trans (ih hms _)

/-- The host starts the run and has it take in a stream in pieces; the rest is up to the tasks. -/
def Hosts (chunks : List Text) (ms : List Move) : Prop :=
  ms.filter (fun m => !m.isInner) = [.start, .openStream] ++ intake chunks

theorem Hosts.split {chunks : List Text} (h : Hosts chunks ms) : ∃ before between after,
    ms = before ++ .start :: (between ++ .openStream :: after) ∧
      (∀ m ∈ before, m.isInner = true) ∧ (∀ m ∈ between, m.isInner = true) ∧
      after.filter (fun m => !m.isInner) = intake chunks := by
  obtain ⟨before, rest, rfl, hbefore, _, hrest⟩ := List.filter_eq_cons_iff.mp h
  obtain ⟨between, after, rfl, hbetween, _, hafter⟩ := List.filter_eq_cons_iff.mp hrest
  exact ⟨before, between, after, rfl, by simpa using hbefore, by simpa using hbetween, hafter⟩

structure Opened (r q : Run) : Prop where
  intact : Intact r.bound q
  stream : q.stream =
    some (Markup.Parser.new r.setup.config.vocabulary r.ledger.openEntries.nextIndex)
  openEntries : q.ledger.openEntries = r.ledger.openEntries

theorem opened_of_inner (hstream : r.stream = none) {between : List Move}
    (hbetween : ∀ m ∈ between, m.isInner = true) :
    Opened r (((r.apply .start).applyAll between).apply .openStream) := by
  have hstart : r.apply .start = r.start.2 := by rw [apply, hstream]; rfl
  have hframed : Framed r.bound ((r.apply .start).applyAll between) :=
    (hstart ▸ r.start_framed).trans (applyAll_framed hbetween _)
  have hnone := hframed.stream.trans (r.stream_bound.trans hstream)
  have hentries := hframed.openEntries.trans r.openEntries_bound
  have hsetup := hframed.setup.trans r.setup_bound
  generalize (r.apply .start).applyAll between = q at *
  have hopen : q.apply .openStream = q.openStream := by rw [apply, hnone]; rfl
  rw [hopen]
  refine ⟨hframed.toIntact.trans ⟨rfl, rfl, rfl, rfl⟩, ?_, hentries⟩
  rw [openStream, hsetup, hentries]

/-- Whatever the schedule, the entries that are routed for a stream are those of its elements, by a
run that goes by what the start has bound. -/
theorem streamed_taken {chunks : List Text} (hms : Hosts chunks ms) (htimely : timely ms r = true)
    (hstream : r.stream = none) (htasks : r.tasks = []) (hinbox : r.inbox = [])
    (hentries : r.ledger.openEntries.entries = []) :
    ∃ now, List.Forall₂ (TakenFor ({ r with now } : Run).bound)
      (r.routedElements ((Markup.Parser.new r.setup.config.vocabulary
        r.ledger.openEntries.nextIndex).events chunks)) (streamed ms r) := by
  obtain ⟨before, between, after, rfl, hbefore, hbetween, hafter⟩ := hms.split
  obtain ⟨now, hidle⟩ := applyAll_idle htasks hinbox hbefore
  refine ⟨now, ?_⟩
  have hopened := opened_of_inner (r := { r with now }) hstream hbetween
  set q := ((({ r with now } : Run).apply .start).applyAll between).apply .openStream with hq
  have hnoPiece {ms : List Move} (hms : ∀ m ∈ ms, m.isInner = true) :
      ∀ m ∈ ms, m.isPiece = false := fun m hm => isPiece_eq_false (hms m hm)
  have hstreamed : streamed (before ++ .start :: (between ++ .openStream :: after)) r =
      streamed after q := by
    rw [streamed_append, streamed_eq_nil (hnoPiece hbefore), hidle, streamed, streamed_append,
      streamed_eq_nil (hnoPiece hbetween), streamed]
    rfl
  have hlater : timely after q = true := by
    rw [timely_append, hidle, timely, timely_append, timely] at htimely
    simp only [Bool.and_eq_true] at htimely
    exact htimely.2.2.2.2
  obtain ⟨sig, hsigns⟩ := Markup.Parser.exists_signs r.setup.config.vocabulary
    r.ledger.openEntries.nextIndex chunks
  have hdrafts : Drafts sig q := by
    intro i e hmem
    rw [hopened.openEntries] at hmem
    have hnone : (i, e) ∈ r.ledger.openEntries.entries := hmem
    rw [hentries] at hnone
    cases hnone
  have htaken := streamed_forall hopened.stream hafter hlater (fun ev hev => (hsigns ev hev).1)
    hdrafts
  have hsame : q.routedElements = r.routedElements := by
    funext events
    rw [hopened.intact.routedElements]
    simp only [routedElements, elementKind?, setup_bound]
  rw [hstreamed]
  rw [hsame] at htaken
  exact htaken.imp fun _ _ h => h.of_intact hopened.intact

end TagLedger.Run
