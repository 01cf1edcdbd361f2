import Mathlib.Tactic.Common
import TagLedger.Proofs.Run.Conduct
import TagLedger.Proofs.Run.Route
import TagLedger.Run.Move

/-!
The history of a run: what the dispatcher has taken in, be it a finished element of the stream, an
entry of the host or a message of a task, each with the run as it was then. Every schedule of moves
comes down to such takings, to steps of tasks, and to changes that log neither calls nor results.
-/

namespace TagLedger

namespace Entry

theorem finished_of_isDone {e : Entry} (h : e.isDone = true) : e.finished = e := by
  have hheader : { e.header with done := true } = e.header := by
    rw [← h]
    rfl
  rw [finished, hheader]
  cases e <;> rfl

theorem isDone_withElement (x : Markup.Element) (e : Entry) :
    (e.withElement x).isDone = x.done := by
  simp [withElement, isDone]

theorem finished_withElement {x : Markup.Element} (hdone : x.done = true) (e : Entry) :
    (e.withElement x).finished = e.withElement x :=
  finished_of_isDone ((isDone_withElement x e).trans hdone)

end Entry

namespace Run

def elementTaken (x : Markup.Element) (r : Run) : List (Run × Message) :=
  match r.elementKind? x.tag with
  | none => []
  | some kind =>
    let found := r.ledger.openEntries.getOrCreate x.index kind r.nextId r.time
    if x.done then
      [((r.draw 1).setOpen (found.2.remove x.index).2, .push (found.1.withElement x))]
    else []

/-- What becomes of a run when something happened to an element, with what is taken in. The entry of
the element is shown as it is, until the element is done and the entry is routed. -/
inductive Notices (x : Markup.Element) (r : Run) : List (Run × Message) → Run → Prop where
  | unknown (hkind : r.elementKind? x.tag = none) : Notices x r [] r
  | shows {kind : EntryKind} {found : Entry × OpenEntries}
    (hkind : r.elementKind? x.tag = some kind) (hdone : x.done = false)
    (hfound : found = r.ledger.openEntries.getOrCreate x.index kind r.nextId r.time) :
    Notices x r []
      (((r.draw 1).setOpen (found.2.set x.index (found.1.withElement x))).notify
        (found.1.withElement x) false)
  | routes {kind : EntryKind} {found : Entry × OpenEntries}
    (hkind : r.elementKind? x.tag = some kind) (hdone : x.done = true)
    (hfound : found = r.ledger.openEntries.getOrCreate x.index kind r.nextId r.time) :
    Notices x r
      [((r.draw 1).setOpen (found.2.remove x.index).2, .push (found.1.withElement x))]
      (((r.draw 1).setOpen (found.2.remove x.index).2).route (found.1.withElement x))

theorem takeElement_notices (x : Markup.Element) (r : Run) :
    Notices x r (r.elementTaken x) (r.takeElement x) := by
  unfold elementTaken takeElement
  cases hkind : r.elementKind? x.tag with
  | none => exact .unknown hkind
  | some kind =>
    dsimp only
    cases hdone : x.done with
    | false => exact .shows hkind hdone rfl
    | true => exact .routes hkind hdone rfl

def eventsTaken : List Markup.ElementEvent → Run → List (Run × Message)
  | [], _ => []
  | ev :: events, r => r.elementTaken ev.element ++ eventsTaken events (r.takeElement ev.element)

def feedTaken (chunk : Text) (r : Run) : List (Run × Message) :=
  match r.stream with
  | none => []
  | some p => eventsTaken (p.feed chunk).2 { r with stream := some (p.feed chunk).1 }

def closeTaken (r : Run) : List (Run × Message) :=
  match r.stream with
  | none => []
  | some p => eventsTaken p.finish.2 { r with stream := none }

/-- What a piece of the stream or its end comes to: its events are taken in, and the parser is
another or gone. -/
inductive TakesPiece (r : Run) : List (Run × Message) → Run → Prop where
  | nothing (h : r.stream = none) : TakesPiece r [] r
  | events (p : Option Markup.Parser) (events : List Markup.ElementEvent) :
    TakesPiece r (eventsTaken events { r with stream := p })
      ({ r with stream := p }.takeEvents events)

theorem feed_takesPiece (chunk : Text) (r : Run) :
    TakesPiece r (r.feedTaken chunk) (r.feed chunk) := by
  unfold feedTaken feed
  cases h : r.stream with
  | none => exact .nothing h
  | some p => exact .events _ _

theorem closeStream_takesPiece (r : Run) : TakesPiece r r.closeTaken r.closeStream := by
  unfold closeTaken closeStream
  cases h : r.stream with
  | none => exact .nothing h
  | some p => exact .events _ _

def deliverTaken (r : Run) : List (Run × Message) :=
  match r.inbox with
  | [] => []
  | m :: rest => [({ r with inbox := rest }, m)]

/-- What the dispatcher takes in with a move. -/
def taken (r : Run) : Move → List (Run × Message)
  | .push e => if r.stream.isNone then [(r, .push e)] else []
  | .feed chunk cancels =>
    if r.streamReady then (if cancels then r.cancel else r).feedTaken chunk else []
  | .closeStream cancels =>
    if r.streamReady then (if cancels then r.cancel else r).closeTaken else []
  | .deliver => if r.stream.isSome && r.cancelled then [] else r.deliverTaken
  | _ => []

/-- A move of a run, with what is taken in and the run that comes out of it. -/
inductive Happens (r : Run) : Move → List (Run × Message) → Run → Prop where
  /-- The move is not possible. -/
  | nothing (m : Move) : Happens r m [] r
  | start (hs : r.stream.isNone = true) : Happens r .start [] r.start.2
  | nextStep (hs : r.stream.isNone = true) : Happens r .nextStep [] r.nextStep
  | push (e : Entry) (hs : r.stream.isNone = true) :
    Happens r (.push e) [(r, .push e)] (receive (.push e) r)
  | openStream (hs : r.stream.isNone = true) : Happens r .openStream [] r.openStream
  | feed (chunk : Text) (cancels : Bool) (hready : r.streamReady = true) :
    Happens r (.feed chunk cancels) ((if cancels then r.cancel else r).feedTaken chunk)
      ((if cancels then r.cancel else r).feed chunk)
  | closeStream (cancels : Bool) (hready : r.streamReady = true) :
    Happens r (.closeStream cancels) (if cancels then r.cancel else r).closeTaken
      (if cancels then r.cancel else r).closeStream
  | dropStream (hc : r.cancelled = true) : Happens r .dropStream [] r.dropStream
  /-- The oldest message is taken. -/
  | deliver {m : Message} {rest : List Message} (hm : r.inbox = m :: rest) :
    Happens r .deliver [({ r with inbox := rest }, m)] (receive m { r with inbox := rest })
  | task {i : Nat} {r' : Run} (hs : r.stepTask? i = some r') : Happens r (.task i) [] r'
  | cancel : Happens r .cancel [] r.cancel
  | wait (ms : Nat) : Happens r (.wait ms) [] (r.wait ms)

/-- Whatever the move, it is one of these. -/
theorem apply_happens (r : Run) (m : Move) : Happens r m (r.taken m) (r.apply m) := by
  cases m with
  | start =>
    dsimp only [taken, apply]
    split
    · rename_i hs
      exact .start hs
    · exact .nothing _
  | nextStep =>
    dsimp only [taken, apply]
    split
    · rename_i hs
      exact .nextStep hs
    · exact .nothing _
  | push e =>
    dsimp only [taken, apply]
    split
    · rename_i hs
      exact .push e hs
    · exact .nothing _
  | openStream =>
    dsimp only [taken, apply]
    split
    · rename_i hs
      exact .openStream hs
    · exact .nothing _
  | feed chunk cancels =>
    dsimp only [taken, apply]
    split
    · rename_i hready
      exact .feed chunk cancels hready
    · exact .nothing _
  | closeStream cancels =>
    dsimp only [taken, apply]
    split
    · rename_i hready
      exact .closeStream cancels hready
    · exact .nothing _
  | dropStream =>
    dsimp only [taken, apply]
    split
    · rename_i hc
      exact .dropStream hc
    · exact .nothing _
  | deliver =>
    dsimp only [taken, apply]
    split
    · exact .nothing _
    · unfold deliverTaken deliver
      cases hinbox : r.inbox with
      | nil => exact .nothing _
      | cons m rest => exact .deliver hinbox
  | task i =>
    dsimp only [taken, apply, stepTask]
    cases hs : r.stepTask? i with
    | none => exact .nothing _
    | some r' => exact .task hs
  | cancel => exact .cancel
  | wait ms => exact .wait ms

/-- What the dispatcher takes in over a schedule, with the runs in which it does. -/
def history : List Move → Run → List (Run × Message)
  | [], _ => []
  | m :: ms, r => r.taken m ++ history ms (r.apply m)

theorem applyAll_append (r : Run) (ms ms' : List Move) :
    r.applyAll (ms ++ ms') = (r.applyAll ms).applyAll ms' := List.foldl_append

theorem applyAll_concat (r : Run) (ms : List Move) (m : Move) :
    r.applyAll (ms ++ [m]) = (r.applyAll ms).apply m := r.applyAll_append ms [m]

theorem history_append (ms ms' : List Move) (r : Run) :
    history (ms ++ ms') r = history ms r ++ history ms' (r.applyAll ms) := by
  induction ms generalizing r with
  | nil => rfl
  | cons m ms ih =>
    rw [List.cons_append, history, history, ih, List.append_assoc]
    rfl

/-- Changes of a run that no call and no task is concerned with. -/
inductive Calm (r : Run) : Run → Prop where
  | logs {r' : Run} (h : LogsPlain r r') : Calm r r'
  | cancels : Calm r r.cancel
  | waits (ms : Nat) : Calm r (r.wait ms)

/-- From a run to a later one, with what the dispatcher has taken in on the way. Of the tasks, those
in `S` may have taken steps. -/
inductive Trace (S : Nat → Prop) (r : Run) : List (Run × Message) → Run → Prop where
  | refl : Trace S r [] r
  | calm {h : List (Run × Message)} {q q' : Run} (ht : Trace S r h q) (hc : Calm q q') :
    Trace S r h q'
  /-- An entry comes from the host or from the stream. -/
  | tells {h : List (Run × Message)} {q : Run} (ht : Trace S r h q) (e : Entry) :
    Trace S r (h ++ [(q, .push e)]) (receive (.push e) q)
  /-- The oldest message is taken. -/
  | delivers {h : List (Run × Message)} {q : Run} {m : Message} {rest : List Message}
    (ht : Trace S r h q) (hm : q.inbox = m :: rest) :
    Trace S r (h ++ [({ q with inbox := rest }, m)]) (receive m { q with inbox := rest })
  | steps {h : List (Run × Message)} {q q' : Run} {i : Nat} (ht : Trace S r h q) (hi : S i)
    (hs : q.stepTask? i = some q') : Trace S r h q'

namespace Trace

variable {S S' : Nat → Prop} {r q q' : Run} {h h' : List (Run × Message)}

theorem of_calm (hc : Calm r q) : Trace S r [] q := .calm .refl hc

theorem trans (ht : Trace S r h q) (ht' : Trace S q h' q') : Trace S r (h ++ h') q' := by
  induction ht' with
  | refl => rwa [List.append_nil]
  | calm _ hc ih => exact .calm ih hc
  | tells _ e ih =>
    rw [← List.append_assoc]
    exact .tells ih e
  | delivers _ hm ih =>
    rw [← List.append_assoc]
    exact .delivers ih hm
  | steps _ hi hs ih => exact .steps ih hi hs

theorem mono (hS : ∀ i, S i → S' i) (ht : Trace S r h q) : Trace S' r h q := by
  induction ht with
  | refl => exact .refl
  | calm _ hc ih => exact .calm ih hc
  | tells _ e ih => exact .tells ih e
  | delivers _ hm ih => exact .delivers ih hm
  | steps _ hi hs ih => exact .steps ih (hS _ hi) hs

end Trace

variable {S : Nat → Prop}

theorem Reception.tasksOwn {r r' : Run} {m : Message} (h : Reception r m r') (hr : r.TasksOwn) :
    r'.TasksOwn := by
  cases h with
  | plain _ hl =>
    obtain ⟨_, _, hl, _⟩ := hl
    rwa [TasksOwn, hl.tasks]
  | result _ hl => rwa [TasksOwn, hl.tasks]
  | refused _ _ hl => rwa [TasksOwn, hl.tasks]
  | accepted _ _ hl =>
    intro t ht
    rcases List.mem_append.mp ht with ht | ht
    · exact hr t (hl.tasks ▸ ht)
    · rw [List.mem_singleton.mp ht]
      exact nofun
  | prepared id data => rwa [TasksOwn, (patchCall_untouched id data r).tasks]
  | failed hl => rwa [TasksOwn, hl.tasks]
  | completed hl => rwa [TasksOwn, hl.tasks]

theorem Advances.tasksOwn {i : Nat} {r r' : Run} (h : Advances i r r') (hr : r.TasksOwn) :
    r'.TasksOwn := by
  obtain ⟨t, t', sent, hsteps, _, hprogress⟩ := h
  intro u hu
  rcases hsteps.mem_cases hu with rfl | ⟨v, hv, hkept⟩
  · cases hprogress with
    | goesOn _ hown _ => exact hown
    | prepared data => exact nofun
    | rejected _ => exact nofun
    | completed _ => exact nofun
  · have hown := hr v hv
    cases hkept with
    | same => exact hown
    | admitted _ => exact nofun

theorem Calm.tasks {r r' : Run} (h : Calm r r') : r'.tasks = r.tasks := by
  cases h with
  | logs h =>
    obtain ⟨_, _, hl, _⟩ := h
    exact hl.tasks
  | cancels => rfl
  | waits ms => rfl

theorem Reception.setup {r r' : Run} {m : Message} (h : Reception r m r') :
    r'.setup = r.setup := by
  cases h with
  | plain _ hl =>
    obtain ⟨_, _, hl, _⟩ := hl
    exact hl.setup
  | result _ hl => exact hl.setup
  | refused _ _ hl => exact hl.setup
  | accepted _ _ hl => exact hl.setup
  | prepared id data => exact (patchCall_untouched id data r).setup
  | failed hl => exact hl.setup
  | completed hl => exact hl.setup

theorem Calm.setup {r r' : Run} (h : Calm r r') : r'.setup = r.setup := by
  cases h with
  | logs h =>
    obtain ⟨_, _, hl, _⟩ := h
    exact hl.setup
  | cancels => rfl
  | waits ms => rfl

theorem Trace.tasksOwn {r q : Run} {h : List (Run × Message)} (ht : Trace S r h q)
    (hr : r.TasksOwn) : q.TasksOwn := by
  induction ht with
  | refl => exact hr
  | calm _ hc ih => rwa [TasksOwn, hc.tasks]
  | tells _ e ih => exact (receive_reception _ _).tasksOwn ih
  | delivers _ hm ih => exact (receive_reception _ _).tasksOwn ih
  | steps _ _ hs ih =>
    exact (stepTask?_advances hs ih).tasksOwn ih

theorem Trace.setup {r q : Run} {h : List (Run × Message)} (ht : Trace S r h q) :
    q.setup = r.setup := by
  induction ht with
  | refl => rfl
  | calm _ hc ih => exact hc.setup.trans ih
  | tells _ e ih => exact (receive_reception _ _).setup.trans ih
  | delivers _ hm ih => exact (receive_reception _ _).setup.trans ih
  | steps _ _ hs ih =>
    obtain ⟨t, t', sent, ht, hconduct⟩ := stepTask?_conduct hs
    exact (hconduct.steps ht).setup.trans ih

theorem Calm.of_eq {r r' : Run} (h : Untouched r r') (hc : r'.ledger.chain = r.ledger.chain)
    (hm : r'.ledger.memory.forgetEpisodes = r.ledger.memory.forgetEpisodes)
    (he : r'.ledger.errors = r.ledger.errors) : Calm r r' :=
  .logs (Logs.of_eq h hc hm he).logsPlain

/-- A finished element is routed like an entry of the host. -/
theorem takeElement_trace (x : Markup.Element) (r : Run) :
    Trace S r (r.elementTaken x) (r.takeElement x) := by
  have hopen (o : OpenEntries) : Trace S r [] ((r.draw 1).setOpen o) :=
    .of_calm (.of_eq { Untouched.refl r with } rfl rfl rfl)
  have hx := r.takeElement_notices x
  generalize r.elementTaken x = taken, r.takeElement x = r' at hx ⊢
  cases hx with
  | unknown _ => exact .refl
  | shows _ _ _ => exact (hopen _).calm (.logs (notify_logs _ _ _).logsPlain)
  | @routes _ found _ hdone _ =>
    have h := (hopen (found.2.remove x.index).2).tells (found.1.withElement x)
    rwa [List.nil_append, receive, push, Entry.finished_withElement hdone] at h

theorem takeEvents_trace (events : List Markup.ElementEvent) (r : Run) :
    Trace S r (eventsTaken events r) (r.takeEvents events) := by
  induction events generalizing r with
  | nil => exact .refl
  | cons ev events ih => exact (r.takeElement_trace ev.element).trans (ih _)

theorem setStream_trace (p : Option Markup.Parser) (r : Run) :
    Trace S r [] { r with stream := p } :=
  .of_calm (.of_eq { Untouched.refl r with } rfl rfl rfl)

theorem TakesPiece.trace {r r' : Run} {h : List (Run × Message)} (hp : TakesPiece r h r') :
    Trace S r h r' := by
  cases hp with
  | nothing _ => exact .refl
  | events p events => exact (setStream_trace p r).trans (takeEvents_trace events _)

theorem nextStep_logs (r : Run) : LogsPlain r r.nextStep := by
  have hcount : Logs [] [] r { r with ledger := { r.ledger with step := r.ledger.step + 1 } } :=
    Logs.of_eq { Untouched.refl r with } rfl rfl rfl
  refine ⟨_, _, hcount.trans ((draw_logs 1 _).trans (commit_logs _ _)), ?_⟩
  simp [Entry.IsPlain, Entry.kind]

theorem openRun_logs (r : Run) : LogsPlain r r.openRun := by
  have hname : Logs [] [] r { r with ledger := { r.ledger with runId := r.nextId } } :=
    Logs.of_eq { Untouched.refl r with } rfl rfl rfl
  refine ⟨_, _, hname.trans ((draw_logs 1 _).trans (commit_logs _ _)), ?_⟩
  simp [Entry.IsPlain, Entry.kind]

/-- A start that loads working memory opens the run in it. -/
theorem start_trace {r : Run} {m : WorkingMemory} {store : Store}
    (h : WorkingMemory.load r.memoryKey r.store = (.ok m, store)) :
    Trace S (bindCatalog m { r with store }) [] r.start.2 := by
  unfold start
  rw [h]
  exact (Trace.of_calm (.logs (openRun_logs _))).calm (.logs (nextStep_logs _))

theorem LogsPlain.tasks {r r' : Run} (h : LogsPlain r r') : r'.tasks = r.tasks :=
  (Calm.logs h).tasks

theorem start_tasks (r : Run) : r.start.2.tasks = r.tasks := by
  unfold start
  split
  · rfl
  · exact (nextStep_logs _).tasks.trans (openRun_logs _).tasks

theorem cancel_trace (cancels : Bool) (r : Run) :
    Trace S r [] (if cancels then r.cancel else r) := by
  split
  · exact .of_calm .cancels
  · exact .refl

/-- Every move but a start is made of takings, steps of tasks and calm changes. -/
theorem apply_trace {m : Move} (hm : m ≠ .start) (r : Run) :
    Trace (fun i => m = .task i) r (r.taken m) (r.apply m) := by
  have hmove := r.apply_happens m
  generalize r.taken m = h, r.apply m = r' at hmove
  cases hmove with
  | nothing => exact .refl
  | start _ => contradiction
  | nextStep _ => exact .of_calm (.logs r.nextStep_logs)
  | push e _ => exact Trace.tells .refl e
  | openStream _ => exact setStream_trace _ r
  | feed chunk cancels _ => exact (cancel_trace cancels r).trans (feed_takesPiece chunk _).trace
  | closeStream cancels _ => exact (cancel_trace cancels r).trans (closeStream_takesPiece _).trace
  | dropStream _ => exact setStream_trace _ r
  | deliver hinbox => exact .delivers .refl hinbox
  | task hs => exact .steps .refl rfl hs
  | cancel => exact .of_calm .cancels
  | wait ms => exact .of_calm (.waits ms)

/-- So is every schedule that does not start the run again. -/
theorem applyAll_trace {ms : List Move} (hms : Move.start ∉ ms) (r : Run) :
    Trace (fun _ => True) r (history ms r) (r.applyAll ms) := by
  induction ms generalizing r with
  | nil => exact .refl
  | cons m ms ih =>
    have hm : m ≠ .start := fun h => hms (h ▸ List.mem_cons_self)
    have hrest : Move.start ∉ ms := fun h => hms (List.mem_cons_of_mem m h)
    exact ((apply_trace hm r).mono fun _ _ => trivial).trans (ih hrest (r.apply m))

end Run

end TagLedger
