import Mathlib.Data.List.Forall2
import Mathlib.Tactic.Common
import TagLedger.Proofs.Run.Opening
import TagLedger.Proofs.Run.Places

/-!
Two runs that take in the same text. However it is cut and whatever the schedules are, the entries
that are routed are the same one after the other, but for their identifiers and times, and so are
those that are added to the chain for them.
-/

namespace TagLedger

theorem OutputHandler.mem_of_mem_prepare {handlers : List OutputHandler} {context : ContextState}
    {memory : WorkingMemory} {h : OutputHandler} (hmem : h ∈ prepare handlers context memory) :
    h ∈ handlers :=
  (List.mem_filter.mp hmem).1

def Archive.Steady (context : String) (a : Archive) : Prop :=
  ∀ n n', a.queryFault n context = a.queryFault n' context

theorem forall₂_of_common {α β γ : Type} {R : α → β → Prop} {S : α → γ → Prop} {xs : List α}
    {ys : List β} {zs : List γ} (h : List.Forall₂ R xs ys) (h' : List.Forall₂ S xs zs) :
    List.Forall₂ (fun y z => ∃ x, R x y ∧ S x z) ys zs := by
  induction h generalizing zs with
  | nil =>
    cases h'
    exact .nil
  | cons hr _ ih =>
    cases h' with
    | cons hs h' => exact .cons ⟨_, hr, hs⟩ (ih h')

theorem SamePlace.append {es es' fs fs' : List Entry} (h : es.length = es'.length) {a b : Uuid} :
    SamePlace (es ++ fs) (es' ++ fs') a b ↔ SamePlace es es' a b ∨ SamePlace fs fs' a b := by
  rw [SamePlace, List.map_append, List.map_append, List.zip_append (by simpa using h),
    List.mem_append]
  rfl

namespace Run

variable {r r' q q' : Run} {y z : Run × Message} {x : Markup.Element} {ms ms' : List Move}

structure TakenAlike (y z : Run × Message) : Prop where
  data : HandlesData y.1
  same : GoesBySame y.1 z.1
  entry : ∃ e id now, y.2 = .push e ∧ z.2 = .push (e.reissued id now)

theorem TakenFor.alike (h : TakenFor q x y) (h' : TakenFor q' x z) (hdata : HandlesData q)
    (hsame : GoesBySame q q') : TakenAlike y z := by
  obtain ⟨ids, epoch, hsetup⟩ := hsame.setup
  have hy := h.intact
  have hz := h'.intact
  refine ⟨⟨?_, ?_⟩, ⟨⟨ids, epoch, ?_⟩, ?_, ?_, ?_⟩, ?_⟩
  · rw [hy.setup]
    exact hdata.inputs
  · rw [hy.outputs]
    exact hdata.outputs
  · rw [hz.setup, hy.setup, hsetup]
  · rw [hz.actions, hy.actions, hsame.actions]
  · rw [hz.outputs, hy.outputs, hsame.outputs]
  · rw [Archive.QueriesAlike, hz.queryFault, hy.queryFault, hy.setup]
    exact hsame.queries
  · obtain ⟨kind, e, hkind, he, hpush⟩ := h.entry
    obtain ⟨kind', e', hkind', he', hpush'⟩ := h'.entry
    have hkinds : q'.elementKind? x.tag = q.elementKind? x.tag := by
      rw [elementKind?, hsetup]
      rfl
    obtain rfl := Option.some.inj ((hkind'.symm.trans hkinds).trans hkind)
    obtain ⟨id, now, rfl⟩ := he.reissued he'
    exact ⟨e, id, now, hpush, hpush'⟩

/-- What two such takings add to the chain is alike. -/
theorem TakenAlike.addedBy (h : TakenAlike y z) :
    List.Forall₂ (Entry.Alike (SamePlace (addedBy y) (addedBy z))) (addedBy y) (addedBy z) := by
  obtain ⟨e, id, now, hy, hz⟩ := h.entry
  have hleft : Run.addedBy y = y.1.entriesFor e := by rw [Run.addedBy, hy]
  have hright : Run.addedBy z = z.1.entriesFor (e.reissued id now) := by rw [Run.addedBy, hz]
  rw [hleft, hright]
  exact entriesFor_alike h.data h.same e id now

/-- So is what sequences of them add. -/
theorem flatMap_addedBy_alike {ys zs : List (Run × Message)} (h : List.Forall₂ TakenAlike ys zs) :
    List.Forall₂ (Entry.Alike (SamePlace (ys.flatMap addedBy) (zs.flatMap addedBy)))
      (ys.flatMap addedBy) (zs.flatMap addedBy) := by
  induction h with
  | nil => exact .nil
  | cons hfirst _ ih =>
    have hadded := hfirst.addedBy
    have hlength := hadded.length_eq
    rw [List.flatMap_cons, List.flatMap_cons]
    refine List.rel_append ?_ ?_
    · exact hadded.imp fun _ _ h => h.mono fun _ _ hp => (SamePlace.append hlength).mpr (.inl hp)
    · exact ih.imp fun _ _ h => h.mono fun _ _ hp => (SamePlace.append hlength).mpr (.inr hp)

/-- A run of that setup that has bound its catalog to the loaded memory, at any time. -/
def opened (setup : Setup) (store : Store) (archive : Archive) (subscribers : Subscribers)
    (now : Nat) : Run :=
  ({ new setup store archive subscribers with now } : Run).bound

section TwoRuns

variable {setup : Setup} {store : Store} {archive : Archive}
  {subscribers subscribers' : Subscribers} {chunks chunks' : List Text}

/-- The same setup with other identifiers and at another time goes by the same. -/
theorem opened_goesBySame (hsteady : archive.Steady setup.context.id) (ids : Nat → Uuid)
    (epoch : Timestamp) (now now' : Nat) :
    GoesBySame (opened setup store archive subscribers now)
      (opened { setup with ids, epoch } store archive subscribers' now') := by
  unfold opened
  refine ⟨⟨ids, epoch, ?_⟩, ?_, ?_, ?_⟩
  · rw [setup_bound, setup_bound]
    rfl
  · rw [actions_bound, actions_bound]
    rfl
  · rw [outputs_bound, outputs_bound]
    rfl
  · rw [setup_bound, archive_bound, archive_bound]
    exact hsteady

theorem opened_handlesData (hinputs : ∀ h ∈ setup.catalog.inputs, h.OnData)
    (houtputs : ∀ h ∈ setup.catalog.outputs, h.OnData) (now : Nat) :
    HandlesData (opened setup store archive subscribers now) := by
  unfold opened
  refine ⟨?_, ?_⟩
  · rw [setup_bound]
    exact hinputs
  · rw [outputs_bound]
    split
    · exact fun h hmem => by cases hmem
    · exact fun h hmem => houtputs h (OutputHandler.mem_of_mem_prepare hmem)

/-- Two runs take in the same text, in pieces and under schedules of their own. -/
theorem streamed_alike (hinputs : ∀ h ∈ setup.catalog.inputs, h.OnData)
    (houtputs : ∀ h ∈ setup.catalog.outputs, h.OnData)
    (hsteady : archive.Steady setup.context.id) (ids : Nat → Uuid) (epoch : Timestamp)
    (htext : chunks.flatten = chunks'.flatten) (hms : Hosts chunks ms) (hms' : Hosts chunks' ms')
    (htimely : timely ms (new setup store archive subscribers) = true)
    (htimely' : timely ms' (new { setup with ids, epoch } store archive subscribers') = true) :
    List.Forall₂ TakenAlike (streamed ms (new setup store archive subscribers))
      (streamed ms' (new { setup with ids, epoch } store archive subscribers')) := by
  obtain ⟨now, htaken⟩ := streamed_taken hms htimely rfl rfl rfl rfl
  obtain ⟨now', htaken'⟩ := streamed_taken hms' htimely' rfl rfl rfl rfl
  have helements : (new { setup with ids, epoch } store archive subscribers').routedElements
      ((Markup.Parser.new setup.config.vocabulary 0).events chunks') =
        (new setup store archive subscribers).routedElements
          ((Markup.Parser.new setup.config.vocabulary 0).events chunks) := by
    unfold routedElements
    rw [Markup.Parser.doneElements_events _ _ htext]
    rfl
  have hcommon := forall₂_of_common htaken (helements ▸ htaken')
  refine hcommon.imp ?_
  rintro y z ⟨x, hy, hz⟩
  exact hy.alike hz (opened_handlesData hinputs houtputs now)
    (opened_goesBySame hsteady ids epoch now now')

end TwoRuns

/-- The data of calls aside, sequences are alike as they are. -/
theorem forall₂_withoutData {ρ : Uuid → Uuid → Prop} {es es' : List Entry} :
    List.Forall₂ (Entry.Alike ρ) (es.map Entry.withoutData) (es'.map Entry.withoutData) ↔
      List.Forall₂ (Entry.Alike ρ) es es' := by
  rw [List.forall₂_map_left_iff, List.forall₂_map_right_iff]
  simp only [Entry.alike_withoutData]

/-- If two runs take in alike, the entries in the places of their streams are alike. -/
theorem directEntries_alike (h : List.Forall₂ TakenAlike (streamed ms r) (streamed ms' r')) :
    List.Forall₂ (Entry.Alike (SamePlace (directEntries ms r) (directEntries ms' r')))
      (directEntries ms r) (directEntries ms' r') := by
  have hids {ms : List Move} {r : Run} :
      (directEntries ms r).map Entry.id = ((streamed ms r).flatMap addedBy).map Entry.id := by
    have hsame := congrArg (List.map Entry.id) (directEntries_withoutData ms r)
    simpa only [List.map_map, Function.comp_def, Entry.id_withoutData] using hsame
  have hadded := flatMap_addedBy_alike h
  unfold SamePlace at hadded ⊢
  rw [← hids, ← hids, ← forall₂_withoutData, ← directEntries_withoutData,
    ← directEntries_withoutData, forall₂_withoutData] at hadded
  exact hadded

end Run

end TagLedger
