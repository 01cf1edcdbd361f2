import Mathlib.Tactic.Common
import TagLedger.Proofs.Entry.Alike
import TagLedger.Proofs.Memory.Patch
import TagLedger.Proofs.Run.Conduct
import TagLedger.Proofs.Run.Route

/-!
What the dispatcher goes by when it takes in a stream: the handlers, the bound actions, the open
entries and the parser. Routing and commits, the messages of tasks and their steps leave all that as
it is. The chain grows at its end, and nothing in it changes but the data of calls.
-/

namespace TagLedger

theorem Archive.queryFault_query (a : Archive) (context : String) (text : Text) :
    (a.query context text).2.queryFault = a.queryFault := by
  unfold query
  split <;> rfl

theorem Archive.queryFault_upsert (a : Archive) (context : String) (docs : List Json) :
    (a.upsert context docs).2.queryFault = a.queryFault := by
  unfold upsert
  split <;> rfl

theorem InputHandler.queryFault_handleInput (handlers : List InputHandler) (context : ContextState)
    (memory : WorkingMemory) (archive : Archive) (e : Entry.Input) :
    (handleInput handlers context memory archive e).archive.queryFault = archive.queryFault := by
  unfold handleInput
  split
  · rfl
  · split
    · rfl
    · rename_i data _
      have hquery := archive.queryFault_query context.id data.toText
      split
      · rename_i heq
        rwa [heq] at hquery
      · rename_i heq
        rwa [heq] at hquery

namespace Run

variable {i : Nat} {r r' r'' : Run} {m : Message}

def chainWithoutData (r : Run) : List Entry := r.ledger.chain.map Entry.withoutData

/-- Noting the data of a call changes nothing but that. -/
theorem chainWithoutData_patchCall (id : Uuid) (data : Json) (r : Run) :
    (r.patchCall id data).chainWithoutData = r.chainWithoutData := by
  unfold patchCall
  split
  · rfl
  · refine WorkingMemory.map_updateFirst fun e he => ?_
    rename_i c hc
    obtain rfl := Option.some.inj (he.symm.trans (chainCall?_eq_some_iff.mp hc))
    rfl

structure Intact (r r' : Run) : Prop where
  setup : r'.setup = r.setup
  actions : r'.ledger.actions = r.ledger.actions
  outputs : r'.ledger.outputs = r.ledger.outputs
  queryFault : r'.ledger.archive.queryFault = r.ledger.archive.queryFault

namespace Intact

theorem refl (r : Run) : Intact r r := ⟨rfl, rfl, rfl, rfl⟩

theorem trans (h : Intact r r') (h' : Intact r' r'') : Intact r r'' where
  setup := h'.setup.trans h.setup
  actions := h'.actions.trans h.actions
  outputs := h'.outputs.trans h.outputs
  queryFault := h'.queryFault.trans h.queryFault

end Intact

structure Framed (r r' : Run) : Prop extends Intact r r' where
  stream : r'.stream = r.stream
  openEntries : r'.ledger.openEntries = r.ledger.openEntries
  chain : ∃ es, r'.chainWithoutData = r.chainWithoutData ++ es

namespace Framed

theorem trans (h : Framed r r') (h' : Framed r' r'') : Framed r r'' where
  toIntact := h.toIntact.trans h'.toIntact
  stream := h'.stream.trans h.stream
  openEntries := h'.openEntries.trans h.openEntries
  chain := by
    obtain ⟨es, hes⟩ := h.chain
    obtain ⟨fs, hfs⟩ := h'.chain
    exact ⟨es ++ fs, by rw [hfs, hes, List.append_assoc]⟩

/-- A change that the chain has no part in. -/
theorem of_intact (h : Intact r r') (hs : r'.stream = r.stream)
    (ho : r'.ledger.openEntries = r.ledger.openEntries)
    (hc : r'.ledger.chain = r.ledger.chain) : Framed r r' where
  toIntact := h
  stream := hs
  openEntries := ho
  chain := by
    refine ⟨[], ?_⟩
    rw [chainWithoutData, hc, List.append_nil]
    rfl

theorem refl (r : Run) : Framed r r := of_intact (.refl r) rfl rfl rfl

theorem of_ledger (hs : r'.setup = r.setup) (hstream : r'.stream = r.stream)
    (hl : r'.ledger = r.ledger) : Framed r r' := by
  refine of_intact ⟨hs, ?_, ?_, ?_⟩ hstream ?_ ?_
  all_goals rw [hl]

theorem draw (count : Nat) (r : Run) : Framed r (r.draw count) := .of_ledger rfl rfl rfl

theorem recordError (e : RunError) (r : Run) : Framed r (r.recordError e) :=
  .of_intact ⟨rfl, rfl, rfl, rfl⟩ rfl rfl rfl

theorem recordResult (e : Entry) (r : Run) : Framed r (r.recordResult e) := by
  unfold Run.recordResult
  split
  · unfold recordEpisode
    split
    · exact .of_intact ⟨rfl, rfl, rfl, Archive.queryFault_upsert _ _ _⟩ rfl rfl rfl
    · exact .refl r
  · exact .refl r

theorem commit (e : Entry) (r : Run) : Framed r (r.commit e) := by
  have happend : Framed r (r.append e) := by
    refine ⟨⟨rfl, rfl, rfl, rfl⟩, rfl, rfl, [e.withoutData], ?_⟩
    simp [chainWithoutData, append]
  have hsave (q : Run) : Framed q (q.persist.notify e true) :=
    .of_intact ⟨rfl, rfl, rfl, rfl⟩ rfl rfl rfl
  exact (happend.trans (.recordResult e _)).trans (hsave _)

theorem commitAll (es : List Entry) (r : Run) : Framed r (r.commitAll es) := by
  induction es generalizing r with
  | nil => exact .refl r
  | cons e es ih => exact (commit e r).trans (ih (r.commit e))

theorem commitSubstitutes (err : RunError) (r : Run) : Framed r (r.commitSubstitutes err) :=
  (draw 1 r).trans (commitAll _ _)

theorem routeInput (e : Entry.Input) (r : Run) : Framed r (r.routeInput e) := by
  unfold Run.routeInput
  set handled := InputHandler.handleInput r.setup.catalog.inputs r.setup.context r.ledger.memory
    r.ledger.archive e with hhandled
  have hfault : handled.archive.queryFault = r.ledger.archive.queryFault :=
    InputHandler.queryFault_handleInput _ _ _ _ _
  have hrecall : Framed r { r with ledger := { r.ledger with
      memory := handled.memory, archive := handled.archive } } :=
    .of_intact ⟨rfl, rfl, rfl, hfault⟩ rfl rfl rfl
  dsimp only
  split
  · exact hrecall.trans (commit _ _)
  · split
    · exact hrecall
    · exact hrecall.trans (.recordError _ _)

theorem routeOutput (e : Entry.Output) (r : Run) : Framed r (r.routeOutput e) := by
  unfold Run.routeOutput
  split
  · exact (draw _ r).trans (commitAll _ _)
  · rename_i err _
    dsimp only
    split
    · exact (Framed.recordError err r).trans (commitSubstitutes err _)
    · exact ((Framed.recordError err r).trans (draw 1 _)).trans (commitAll _ _)

theorem dispatch (c : Entry.Call) (r : Run) : Framed r (r.dispatch c) := by
  unfold Run.dispatch
  split
  · rename_i err _
    exact ((Framed.recordError err r).trans (commit _ _)).trans (commitSubstitutes err _)
  · have hslot : Framed r (r.openSlot c) := .of_intact ⟨rfl, rfl, rfl, rfl⟩ rfl rfl rfl
    have hspawn (p : PreparedCall) (slot : Nat) (q : Run) : Framed q (q.spawn c p slot) :=
      .of_intact ⟨rfl, rfl, rfl, rfl⟩ rfl rfl rfl
    exact (hslot.trans (commit _ _)).trans (hspawn _ _ _)

theorem route (e : Entry) (r : Run) : Framed r (r.route e) := by
  cases e with
  | input e => exact routeInput e r
  | output e => exact routeOutput e r
  | call c => exact dispatch c r
  | _ => exact commit _ r

theorem patchCall (id : Uuid) (data : Json) (r : Run) : Framed r (r.patchCall id data) := by
  have hchain := chainWithoutData_patchCall id data r
  unfold Run.patchCall at hchain ⊢
  split at hchain
  · exact .of_intact ⟨rfl, rfl, rfl, rfl⟩ rfl rfl rfl
  · exact ⟨⟨rfl, rfl, rfl, rfl⟩, rfl, rfl, [], hchain.trans (List.append_nil _).symm⟩

theorem receive (m : Message) (r : Run) : Framed r (receive m r) := by
  have hslot (id : Uuid) (state : CallState) : Framed r (r.resolveSlot id state) :=
    .of_intact ⟨rfl, rfl, rfl, rfl⟩ rfl rfl rfl
  cases m with
  | push e => exact route e.finished r
  | prepared id data => exact patchCall id data r
  | failed id err =>
    exact ((hslot id _).trans (.recordError err _)).trans (commitSubstitutes err _)
  | completed res => exact (hslot _ _).trans (commit _ _)

end Framed

theorem stream_absorb (s : Scene) (r : Run) : (r.absorb s).stream = r.stream := by
  rw [absorb_frame]

theorem stream_giveBack (r : Run) : r.giveBack.stream = r.stream := by
  rw [giveBack_frame]

/-- Steps of tasks do not touch the stream. -/
theorem Conduct.stream {t t' : CallTask} {sent : List Message} (h : Conduct i r t t' sent r') :
    r'.stream = r.stream := by
  have hkeep (a : Action) (slice : Json) : ((r.draw 1).keepSlice a slice).stream = r.stream := by
    rw [keepSlice_frame]
    rfl
  cases h with
  | works _ _ _ _ => exact stream_absorb _ _
  | succeeds _ _ => exact stream_giveBack r
  | fails _ _ => exact stream_giveBack r
  | crashes _ _ _ => exact stream_giveBack r
  | recovers _ _ _ _ => exact stream_absorb _ _
  | concludes _ _ _ => exact hkeep _ _
  | concludesError _ _ _ => exact hkeep _ _
  | follows _ _ _ _ => exact stream_absorb _ _
  | _ => rfl

theorem Framed.steps (hs : r.stepTask? i = some r') : Framed r r' := by
  obtain ⟨t, t', sent, ht, hconduct⟩ := stepTask?_conduct hs
  have hsteps := hconduct.steps ht
  exact .of_ledger hsteps.setup hconduct.stream hsteps.ledger

end Run

end TagLedger
