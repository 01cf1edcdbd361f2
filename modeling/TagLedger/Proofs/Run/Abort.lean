import Mathlib.Tactic.Common
import TagLedger.Proofs.Run.Dispatches
import TagLedger.Proofs.Run.Endings
import TagLedger.Proofs.Run.Executions

/-!
Cancellation. From the moment at which a run is cancelled no attempt begins and no piece of a stream
is taken in, and every stream that is consumed ends with an error and changes nothing; but calls
still end, once each, and the run settles.
-/

namespace TagLedger

namespace Run

variable {r : Run} {ms : List Move} {x : Execution}

/-- Attempts are begun by runs that are not cancelled. -/
theorem not_cancelled_of_executed {i : Nat} (hx : x ∈ r.executed i) : r.cancelled = false := by
  by_contra hc
  obtain ⟨t, slice, ht, hphase, _, _⟩ := begins_of_executed hx
  have hscene : (r.scene slice).cancelled = true := by simpa [scene] using hc
  simp [executed, ht, hphase, Runner.Job.next, hscene] at hx

theorem executionsIn_eq_nil (hc : r.cancelled = true) (ms : List Move) :
    executionsIn ms r = [] := by
  refine List.eq_nil_iff_forall_not_mem.mpr fun x hx => ?_
  obtain ⟨before, after, _, hexecuted⟩ := exists_move_of_executionsIn hx
  have hlater := cancelled_applyAll hc before
  rw [not_cancelled_of_executed hexecuted] at hlater
  cases hlater

end Run

namespace Session

variable {s : Session} {r : Run}

/-- A stream that is being consumed when the run is cancelled is given up. -/
theorem consumeWithin_cancelled (hc : s.run.cancelled = true) (fuel : Nat) (pause : Option Nat)
    (items : List StreamItem) :
    (consumeWithin (fuel + 1) pause items s).1 = some .aborted ∧
      (consumeWithin (fuel + 1) pause items s).2.run = { s.run with stream := none } := by
  have hdrop : (s.move .dropStream).run = s.run.apply .dropStream := rfl
  simp [consumeWithin, hc, hdrop, Run.apply, Run.dropStream]

theorem consume_cancelled (hc : s.run.cancelled = true) (items : List StreamItem) :
    (s.consume items).1 = some .aborted ∧
      (s.consume items).2.run = { s.run with stream := none } := by
  have hopen : (s.move .openStream).run = s.run.apply .openStream := rfl
  have hsame : ∃ stream, s.run.apply .openStream = { s.run with stream } := by
    dsimp only [Run.apply]
    split <;> exact ⟨_, rfl⟩
  obtain ⟨stream, hstream⟩ := hsame
  rw [← hopen] at hstream
  have hcancelled : (s.move .openStream).run.cancelled = true := by
    rw [hstream]
    exact hc
  obtain ⟨herror, hrun⟩ := consumeWithin_cancelled hcancelled (Runner.patience - 1) none items
  rw [hstream] at hrun
  exact ⟨herror, hrun⟩

end Session

namespace Run

variable {r : Run} {ms ms' : List Move}

/-- A run that was cancelled by the end of one schedule, after another one. -/
structure Aborted (ms ms' : List Move) (r₀ : Run) : Prop where
  noAttempts : executionsIn ms' (r₀.applyAll ms) = []
  /-- Calls end once each, whenever they are dispatched. -/
  endings : ∀ (k : Nat) x, (acceptedCalls (history (ms ++ ms') r₀))[k]? = some x →
    EndsOnce k x (ms ++ ms') r₀
  /-- Whatever turns are taken, the time comes when no call is in flight, if the scripts that run
  and the hooks come to their ends and do not dispatch calls for ever. -/
  settles : (r₀.applyAll (ms ++ ms')).stream = none →
    (∀ a ∈ r₀.setup.catalog.actions, a.ReturnsIn true) →
    (∀ t ∈ (r₀.applyAll (ms ++ ms')).tasks, t.phase.Returns true) →
    DispatchesFinitely (r₀.applyAll (ms ++ ms')) →
    Inevitable IsSettled (r₀.applyAll (ms ++ ms'))
  /-- No piece of a stream has any effect. -/
  noPieces : ∀ m : Move, m.isPiece = true →
    (r₀.applyAll (ms ++ ms')).apply m = r₀.applyAll (ms ++ ms')
  /-- A stream that is being consumed is given up, whatever is left of it. -/
  givesUp : ∀ s : Session, s.run = r₀.applyAll (ms ++ ms') → ∀ fuel pause items,
    (Session.consumeWithin (fuel + 1) pause items s).1 = some .aborted ∧
      (Session.consumeWithin (fuel + 1) pause items s).2.run = { s.run with stream := none }
  /-- And so is every further stream. -/
  consumes : ∀ s : Session, s.run = r₀.applyAll (ms ++ ms') → ∀ items,
    (s.consume items).1 = some .aborted ∧
      (s.consume items).2.run = { s.run with stream := none }
  stops : (r₀.applyAll (ms ++ ms')).shouldContinue = false

/-- Whatever a run was doing when it was cancelled, and whatever happens afterwards, no attempt
begins, no stream is taken in, and there is no further step; but every call ends once, and the run
settles. -/
theorem applyAll_aborted (setup : Setup) (store : Store) (archive : Archive)
    (subscribers : Subscribers) (ms ms' : List Move)
    (hc : ((new setup store archive subscribers).applyAll ms).cancelled = true) :
    Aborted ms ms' (new setup store archive subscribers) := by
  obtain ⟨r₀, hr⟩ : ∃ r₀, r₀ = new setup store archive subscribers := ⟨_, rfl⟩
  rw [← hr] at hc ⊢
  have hlater : (r₀.applyAll (ms ++ ms')).cancelled = true := by
    rw [applyAll_append]
    exact cancelled_applyAll hc ms'
  refine ⟨executionsIn_eq_nil hc ms', fun k x hx => endsOnce_of_accepted hr hx, ?_, ?_, ?_, ?_, ?_⟩
  · intro hstream hhooks hscripts hfinite
    have hbound : Bound (r₀.applyAll (ms ++ ms')) :=
      hr ▸ (bound_applyAll_new setup store archive subscribers (ms ++ ms')).1
    have hsetup : (r₀.applyAll (ms ++ ms')).setup = r₀.setup := (r₀.applyAll_grows _).setup
    refine inevitable_isSettled (by rw [hr]) hlater hstream hfinite ⟨?_, ?_, ?_⟩ <;>
      rw [hlater]
    · exact hsetup ▸ hhooks
    · exact fun b hb => hhooks _ (hsetup ▸ hbound.actions b hb)
    · exact fun t ht => ⟨hhooks _ (hsetup ▸ hbound.tasks t ht), hscripts t ht⟩
  · intro m hm
    cases m with
    | feed chunk cancels => simp [apply, streamReady, hlater]
    | closeStream cancels => simp [apply, streamReady, hlater]
    | _ => cases hm
  · intro s hs fuel pause items
    exact Session.consumeWithin_cancelled (hs ▸ hlater) fuel pause items
  · intro s hs items
    exact Session.consume_cancelled (hs ▸ hlater) items
  · simp [shouldContinue, hlater]

end Run

namespace Sample

/-- One permit, and calls that need a second attempt. -/
def abortedRun : Run :=
  Run.new
    { noteSetup with
      config := { Config.standard with maxConcurrentTasks := 1 }
      catalog := ⟨[tellingAction], [], []⟩ }
    Store.empty Archive.empty Subscribers.empty

/-- The run is cancelled while the first call waits for its second attempt and the second call for a
permit. -/
def abortedMoves : List Move :=
  [.start, .push (callNamed "tell" 1), .push (callNamed "tell" 2)] ++
    List.replicate 6 (.task 0) ++ List.replicate 3 (.task 1) ++ [.cancel]

/-- The run is cancelled while the stream is asked for its next piece. -/
def lateStream : List StreamItem := [.abort, .chunk "<think>late</think>".toList]

def againAction : Action where
  name := "again"
  schema := none
  retry := none
  memory := none
  contextType := none
  enabled := fun _ _ => true
  execute := fun _ _ data _ => .done (.ok data)
  onError := fun e _ => .post (.entry (callNamed "again" 1)) (.done (.error e))
  format := fun _ => none
  onSuccess := fun _ _ => .done (.ok ())

def againRun : Run :=
  (Run.new { noteSetup with catalog := ⟨[againAction], [], []⟩ } Store.empty Archive.empty
    Subscribers.empty).applyAll [.start, .push (callNamed "again" 1), .cancel]

end Sample

open Sample in
/-- A third call is dispatched after the cancellation. All of them end, whatever turns are taken. -/
theorem Run.applyAll_aborted_in_backoff :
    let ms' : List Move := [.push (callNamed "tell" 3)]
    let r := abortedRun.applyAll (abortedMoves ++ ms')
    (abortedRun.applyAll abortedMoves).cancelled = true ∧
      r.tasks.map (·.phase.stage) = [4, 6, 9] ∧ Aborted abortedMoves ms' abortedRun ∧
      Inevitable IsSettled r := by
  intro ms' r
  have hc : (abortedRun.applyAll abortedMoves).cancelled = true := by decide +kernel
  have hstages : r.tasks.map (·.phase.stage) = [4, 6, 9] := by decide +kernel
  have haborted : Aborted abortedMoves ms' abortedRun :=
    applyAll_aborted _ Store.empty Archive.empty Subscribers.empty abortedMoves ms' hc
  have hidle : ∀ t ∈ r.tasks, t.phase.Returns true ∧ t.phase.PostsNoCalls := by
    intro t ht
    have hstage : t.phase.stage ∈ [4, 6, 9] := hstages ▸ List.mem_map.mpr ⟨t, ht, rfl⟩
    refine Phase.idle_of_stage ?_ true
    simp only [List.mem_cons, List.not_mem_nil, or_false] at hstage
    omega
  have hstream : r.stream = none := Option.isNone_iff_eq_none.mp (by decide +kernel)
  refine ⟨hc, hstages, haborted, haborted.settles hstream ?_ (fun t ht => (hidle t ht).1) ?_⟩
  · intro a ha
    obtain rfl : a = tellingAction := List.mem_singleton.mp ha
    exact ⟨by simp, fun _ _ => trivial, fun _ _ => trivial⟩
  · have hrun : r = abortedRun.applyAll (abortedMoves ++ ms') := rfl
    refine dispatchesFinitely_of_noCalls hrun ?_ hstream ?_ fun t ht => (hidle t ht).2
    · rw [applyAll_append]
      exact cancelled_applyAll hc ms'
    · intro a ha
      obtain rfl : a = tellingAction := List.mem_singleton.mp ha
      exact ⟨fun _ _ => trivial, fun _ _ => ⟨trivial, trivial⟩⟩

open Sample in
/-- A piece of a stream is still taken in if the run is cancelled while the stream is asked for it;
calls that are dispatched by the hook after a failure can keep a run from settling for ever; and a
call under the identifier of another one takes its slot. -/
theorem Run.late_piece_and_endless_calls :
    let s := (Session.new noteRun).start.2
    let before := s.run.ledger.chain.map Entry.kind
    let after := (s.consume lateStream).2.run.ledger.chain.map Entry.kind
    let twice := noteRun.applyAll
      ([.start, .push (noteCall 1), .push (noteCall 1), .cancel] ++
        List.replicate 9 (.task 0) ++ List.replicate 9 (.task 1) ++ List.replicate 4 .deliver)
    (s.consume lateStream).1 = some .aborted ∧ after = before ++ [.thought] ∧
      (twice.ledger.inFlight = 0 ∧
        twice.ledger.slots.map (fun s => decide (s.state = .dropped)) = [true, false]) ∧
      againRun.cancelled = true ∧ againRun.stream = none ∧
      (∀ a ∈ againRun.setup.catalog.actions, a.ReturnsIn true) ∧
      (∀ t ∈ againRun.tasks, t.phase.Returns true) ∧
      ∀ r, Relation.ReflTransGen Proceeds againRun r → 0 < r.ledger.inFlight := by
  intro s before after twice
  have hactions : againRun.ledger.actions = [⟨againAction, "context"⟩] := rfl
  have hstages : againRun.tasks.map (·.phase.stage) = [9] := by decide +kernel
  have hc : againRun.cancelled = true := rfl
  have hstream : againRun.stream = none := rfl
  refine ⟨by decide +kernel, by decide +kernel, ⟨by decide +kernel, by decide +kernel⟩, hc, hstream,
    ?_, ?_, ?_⟩
  · intro a ha
    obtain rfl : a = againAction := List.mem_singleton.mp ha
    exact ⟨by simp, fun _ _ => trivial, fun _ _ => trivial⟩
  · intro t ht
    have hstage : t.phase.stage ∈ [9] := hstages ▸ List.mem_map.mpr ⟨t, ht, rfl⟩
    refine (Phase.idle_of_stage ?_ true).1
    rw [List.mem_singleton] at hstage
    omega
  · intro r hr
    have hredispatches : Redispatches againRun.ledger.actions (callNamed "again" 1) := by
      rw [hactions]
      refine ⟨⟨_, _, rfl, rfl, rfl⟩, ?_, ?_⟩
      · intro b hb call payload err
        obtain rfl := List.mem_singleton.mp hb
        simp [PreparedCall.validated, againAction]
      · intro b hb err view
        obtain rfl := List.mem_singleton.mp hb
        exact ⟨_, rfl⟩
    exact inFlight_pos_of_redispatches rfl hc hstream hredispatches
      (.willPost (i := 0) rfl List.mem_cons_self .resolving) hr

end TagLedger
