import Mathlib.Tactic.Common
import TagLedger.Proofs.Entry.Outcome
import TagLedger.Proofs.Run.Roster

/-!
How the log is written. A chain changes in two ways alone: a final entry is added at its end, or the
data of a call in it is noted. Subscribers are told of each such change, in the same order, and the
errors of a run only grow at their end.
-/

namespace TagLedger

inductive Change (chain : List Entry) : Entry → List Entry → Prop where
  | added {e : Entry} (hdone : e.isDone = true) : Change chain e (chain ++ [e])
  | noted {c : Entry.Call} {id : Uuid} (hc : Run.chainCall? id chain = some c) (data : Json) :
    Change chain (.call { c with data := some data })
      (Run.replaceFirst id (.call { c with data := some data }) chain)

inductive Changes (chain : List Entry) : List Entry → List Entry → Prop where
  | refl : Changes chain [] chain
  | concat {es chain' chain'' : List Entry} {e : Entry} (h : Changes chain es chain')
    (hc : Change chain' e chain'') : Changes chain (es ++ [e]) chain''

theorem Changes.trans {chain chain' chain'' es fs : List Entry} (h : Changes chain es chain')
    (h' : Changes chain' fs chain'') : Changes chain (es ++ fs) chain'' := by
  induction h' with
  | refl => rwa [List.append_nil]
  | concat _ hc ih =>
    rw [← List.append_assoc]
    exact .concat ih hc

/-- All entries of the chain stay final. -/
theorem Change.done {chain chain' : List Entry} {e : Entry} (h : Change chain e chain')
    (hdone : ∀ x ∈ chain, x.isDone = true) : ∀ x ∈ chain', x.isDone = true := by
  cases h with
  | added he =>
    intro x hx
    rcases List.mem_append.mp hx with hx | hx
    · exact hdone x hx
    · rwa [List.mem_singleton.mp hx]
  | @noted c id hc data =>
    have hsame : (Run.replaceFirst id (.call { c with data := some data }) chain).map
        Entry.isDone = chain.map Entry.isDone := by
      refine WorkingMemory.map_updateFirst fun x hx => ?_
      obtain rfl := Option.some.inj (hx.symm.trans (Run.chainCall?_eq_some_iff.mp hc))
      rfl
    intro x hx
    obtain ⟨y, hy, hxy⟩ := List.mem_map.mp (hsame ▸ List.mem_map_of_mem hx)
    rw [← hxy, hdone y hy]

theorem Changes.done {chain chain' es : List Entry} (h : Changes chain es chain')
    (hdone : ∀ x ∈ chain, x.isDone = true) : ∀ x ∈ chain', x.isDone = true := by
  induction h with
  | refl => exact hdone
  | concat _ hc ih => exact hc.done ih

theorem committedEntries_append (ns ns' : List Notification) :
    committedEntries (ns ++ ns') = committedEntries ns ++ committedEntries ns' := by
  simp [committedEntries]

namespace Run

variable {r r' r'' : Run} {m : Message}

theorem subscribers_recordResult (e : Entry) (r : Run) :
    (r.recordResult e).ledger.subscribers = r.ledger.subscribers := by
  unfold recordResult
  split
  · unfold recordEpisode
    split <;> rfl
  · rfl

/-- The chain of a run was changed, subscribers were told, and errors may have been added. -/
structure Writes (r r' : Run) : Prop where
  told : ∃ ns, r'.ledger.subscribers = ns.foldl Subscribers.notify r.ledger.subscribers ∧
    Changes r.ledger.chain (committedEntries ns) r'.ledger.chain
  errors : r.ledger.errors <+: r'.ledger.errors

namespace Writes

theorem trans (h : Writes r r') (h' : Writes r' r'') : Writes r r'' where
  told := by
    obtain ⟨ns, hns, hchain⟩ := h.told
    obtain ⟨ns', hns', hchain'⟩ := h'.told
    refine ⟨ns ++ ns', by rw [hns', hns, List.foldl_append], ?_⟩
    rw [committedEntries_append]
    exact hchain.trans hchain'
  errors := h.errors.trans h'.errors

/-- Nothing is written but errors. -/
theorem of_eq (hs : r'.ledger.subscribers = r.ledger.subscribers)
    (hc : r'.ledger.chain = r.ledger.chain) (he : r.ledger.errors <+: r'.ledger.errors) :
    Writes r r' where
  told := ⟨[], hs, hc ▸ .refl⟩
  errors := he

theorem of_ledger (h : r'.ledger = r.ledger) : Writes r r' :=
  of_eq (by rw [h]) (by rw [h]) (h ▸ List.prefix_refl _)

theorem refl (r : Run) : Writes r r := of_ledger rfl

theorem draw (count : Nat) (r : Run) : Writes r (r.draw count) := of_ledger rfl

theorem recordError (err : RunError) (r : Run) : Writes r (r.recordError err) :=
  of_eq rfl rfl (List.prefix_append _ _)

theorem commit {e : Entry} (hdone : e.isDone = true) (r : Run) : Writes r (r.commit e) where
  told := by
    refine ⟨[⟨e, true⟩], ?_, ?_⟩
    · exact congrArg (·.notify ⟨e, true⟩) (subscribers_recordResult e (r.append e))
    · rw [(commit_logs e r).chain]
      exact .concat .refl (.added hdone)
  errors := by
    obtain ⟨faults, hfaults, _⟩ := (commit_logs e r).errors
    rw [hfaults, List.append_nil]
    exact List.prefix_append _ _

theorem commitAll {es : List Entry} (hdone : ∀ e ∈ es, e.isDone = true) (r : Run) :
    Writes r (r.commitAll es) := by
  induction es generalizing r with
  | nil => exact refl r
  | cons e es ih =>
    obtain ⟨he, hes⟩ := List.forall_mem_cons.mp hdone
    exact (commit he r).trans (ih hes _)

theorem commitSubstitutes (err : RunError) (r : Run) : Writes r (r.commitSubstitutes err) :=
  (draw 1 r).trans (commitAll (fun _ => Entry.isDone_of_mem_ofError) _)

theorem routeInput {e : Entry.Input} (hdone : e.done = true) (r : Run) :
    Writes r (r.routeInput e) := by
  unfold Run.routeInput
  set handled := InputHandler.handleInput r.setup.catalog.inputs r.setup.context r.ledger.memory
    r.ledger.archive e with hhandled
  have hrecall : Writes r { r with ledger := { r.ledger with
      memory := handled.memory, archive := handled.archive } } := of_eq rfl rfl (List.prefix_refl _)
  dsimp only
  split
  · rename_i o ho
    exact hrecall.trans (commit (e := .input o) (InputHandler.done_of_outcome hdone ho) _)
  · split
    · exact hrecall
    · exact hrecall.trans (recordError _ _)

theorem routeOutput {e : Entry.Output} (hdone : e.done = true) (r : Run) :
    Writes r (r.routeOutput e) := by
  unfold Run.routeOutput
  split
  · rename_i es hes
    refine (draw _ r).trans (commitAll (fun x hx => ?_) _)
    obtain ⟨o, ho, rfl⟩ := List.mem_map.mp hx
    exact OutputHandler.done_of_mem_handleOutput hdone hes ho
  · rename_i err _
    dsimp only
    split
    · exact (recordError err r).trans (commitSubstitutes err _)
    · exact ((recordError err r).trans (draw 1 _)).trans
        (commitAll (fun _ => Entry.isDone_of_mem_degradedOutput) _)

theorem dispatch {c : Entry.Call} (hdone : c.done = true) (r : Run) : Writes r (r.dispatch c) := by
  have hcommit (q : Run) : Writes q (q.commit (.call c)) := commit (e := .call c) hdone q
  unfold Run.dispatch
  split
  · rename_i err _
    exact ((recordError err r).trans (hcommit _)).trans (commitSubstitutes err _)
  · have hslot : Writes r (r.openSlot c) := of_eq rfl rfl (List.prefix_refl _)
    have hspawn (p : PreparedCall) (slot : Nat) (q : Run) : Writes q (q.spawn c p slot) :=
      of_eq rfl rfl (List.prefix_refl _)
    exact (hslot.trans (hcommit _)).trans (hspawn _ _ _)

/-- Routing an entry that is final. -/
theorem route {e : Entry} (hdone : e.isDone = true) (r : Run) : Writes r (r.route e) := by
  cases e with
  | input e => exact routeInput hdone r
  | output e => exact routeOutput hdone r
  | call c => exact dispatch hdone r
  | _ => exact commit hdone r

theorem push (e : Entry) (r : Run) : Writes r (r.push e) := route (Entry.isDone_finished e) r

theorem patchCall (id : Uuid) (data : Json) (r : Run) : Writes r (r.patchCall id data) := by
  unfold Run.patchCall
  split
  · exact of_eq rfl rfl (List.prefix_refl _)
  · rename_i c hc
    exact ⟨⟨[⟨_, true⟩], rfl, .concat .refl (.noted hc data)⟩, List.prefix_refl _⟩

/-- Taking a message whose result, if it brings one, is final. -/
theorem receive (hm : ∀ res, m = .completed res → res.done = true) (r : Run) :
    Writes r (receive m r) := by
  have hslot (id : Uuid) (state : CallState) : Writes r (r.resolveSlot id state) :=
    of_eq rfl rfl (List.prefix_refl _)
  cases m with
  | push e => exact push e r
  | prepared id data => exact patchCall id data r
  | failed id err =>
    exact ((hslot id _).trans (recordError err _)).trans (commitSubstitutes err _)
  | completed res => exact (hslot _ _).trans (commit (e := .result res) (hm res rfl) _)

theorem takeElement (x : Markup.Element) (r : Run) : Writes r (r.takeElement x) := by
  have hopen (o : OpenEntries) : Writes r ((r.draw 1).setOpen o) :=
    of_eq rfl rfl (List.prefix_refl _)
  have hx := r.takeElement_notices x
  generalize r.elementTaken x = taken, r.takeElement x = r' at hx ⊢
  cases hx with
  | unknown _ => exact refl r
  | shows _ _ _ => exact (hopen _).trans ⟨⟨[⟨_, false⟩], rfl, .refl⟩, List.prefix_refl _⟩
  | routes _ hdone _ =>
    refine (hopen _).trans (route ?_ _)
    rwa [Entry.isDone_withElement]

theorem takeEvents (events : List Markup.ElementEvent) (r : Run) :
    Writes r (r.takeEvents events) := by
  induction events generalizing r with
  | nil => exact refl r
  | cons ev events ih => exact (takeElement ev.element r).trans (ih _)

theorem piece {taken : List (Run × Message)} (hp : TakesPiece r taken r') : Writes r r' := by
  cases hp with
  | nothing _ => exact refl r
  | events p events =>
    have hset : Writes r { r with stream := p } := of_ledger rfl
    exact hset.trans (takeEvents events _)

theorem nextStep (r : Run) : Writes r r.nextStep := by
  have hcount : Writes r { r with ledger := { r.ledger with step := r.ledger.step + 1 } } :=
    of_eq rfl rfl (List.prefix_refl _)
  exact hcount.trans ((draw 1 _).trans (commit rfl _))

theorem openRun (r : Run) : Writes r r.openRun := by
  have hname : Writes r { r with ledger := { r.ledger with runId := r.nextId } } :=
    of_eq rfl rfl (List.prefix_refl _)
  exact hname.trans ((draw 1 _).trans (commit rfl _))

theorem start (r : Run) : Writes r r.start.2 := by
  unfold Run.start
  split
  · exact of_ledger rfl
  · rename_i m store _
    have hbind : Writes r (bindCatalog m { r with store }) := of_eq rfl rfl (List.prefix_refl _)
    exact (hbind.trans (openRun _)).trans (nextStep _)

end Writes

structure ResultsDone (r : Run) : Prop where
  settled : ∀ t ∈ r.tasks, ∀ slice res script, t.phase = .succeeding slice res script →
    res.done = true
  sent : ∀ res, .completed res ∈ r.inbox → res.done = true

theorem Conduct.resultsDone {i : Nat} {t t' : CallTask} {sent : List Message}
    (h : Conduct i r t t' sent r')
    (ht : ∀ slice res script, t.phase = .succeeding slice res script → res.done = true) :
    (∀ slice res script, t'.phase = .succeeding slice res script → res.done = true) ∧
      ∀ res, .completed res ∈ sent → res.done = true := by
  have hended {res : Entry.Result} (hres : res.done = true) :
      (∀ slice res script, ({ t with phase := .ended } : CallTask).phase =
        .succeeding slice res script → res.done = true) ∧
      ∀ res', .completed res' ∈ [Message.completed res] → res'.done = true := by
    refine ⟨by simp, fun res' hmem => ?_⟩
    obtain rfl := Message.completed.inj (List.mem_singleton.mp hmem)
    exact hres
  have hposts {posts : List Post} {sent : List Message} (hcome : ComeOf posts sent)
      (res : Entry.Result) (hmem : .completed res ∈ sent) : res.done = true := by
    obtain ⟨e, he⟩ := hcome.isPush _ hmem
    cases he
  cases h with
  | crashes _ _ hresult => exact hended (by rw [hresult]; rfl)
  | recoveryBreaks _ _ hresult => exact hended (by rw [hresult]; rfl)
  | followBreaks _ _ hresult => exact hended (by rw [hresult]; rfl)
  | concludesError _ _ _ hdone => exact hended hdone
  | finishes hp _ => exact hended (ht _ _ _ hp)
  | works _ _ _ hcome => exact ⟨by simp, hposts hcome⟩
  | recovers _ _ _ hcome => exact ⟨by simp, hposts hcome⟩
  | follows hp _ _ hcome =>
    refine ⟨fun slice res script hphase => ?_, hposts hcome⟩
    cases hphase
    exact ht _ _ _ hp
  | concludes _ _ _ hdone =>
    refine ⟨fun slice res script hphase => ?_, by simp⟩
    cases hphase
    exact hdone
  | _ => exact ⟨by simp, by simp⟩

namespace ResultsDone

theorem congr (h : ResultsDone r) (ht : r'.tasks = r.tasks) (hi : r'.inbox = r.inbox) :
    ResultsDone r' :=
  ⟨ht ▸ h.settled, hi ▸ h.sent⟩

theorem steps {i : Nat} (h : ResultsDone r) (hs : r.stepTask? i = some r') : ResultsDone r' := by
  obtain ⟨t, t', sent, ht, hconduct⟩ := stepTask?_conduct hs
  have hsteps := hconduct.steps ht
  obtain ⟨hsettled, hsent⟩ := hconduct.resultsDone (h.settled t (List.mem_of_getElem? ht))
  refine ⟨fun u hu => ?_, fun res hmem => ?_⟩
  · rcases hsteps.mem_cases hu with rfl | ⟨v, hv, hkept⟩
    · exact hsettled
    · cases hkept with
      | same => exact h.settled _ hv
      | admitted _ => simp
  · rw [hsteps.inbox] at hmem
    rcases List.mem_append.mp hmem with hmem | hmem
    · exact h.sent res hmem
    · exact hsent res hmem

theorem reception (h : ResultsDone r) (hm : Reception r m r') : ResultsDone r' := by
  refine ⟨fun t ht => ?_, hm.inbox ▸ h.sent⟩
  cases hm.enlists with
  | same _ htasks => exact h.settled t (htasks ▸ ht)
  | more _ _ htasks =>
    rw [htasks] at ht
    rcases List.mem_append.mp ht with ht | ht
    · exact h.settled t ht
    · obtain rfl := List.mem_singleton.mp ht
      simp

theorem applyAll (h : ResultsDone r) (ms : List Move) : ResultsDone (r.applyAll ms) := by
  refine applyAll_keeps (I := fun _ q => ResultsDone q) (g := []) ?_ ?_ ?_ ?_ h ms
  · exact fun h hq => h.congr hq.tasks hq.inbox
  · exact fun h hm => h.reception hm
  · intro _ q m rest q' h hinbox hm
    have htaken : ResultsDone { q with inbox := rest } :=
      ⟨h.settled, fun res hmem => h.sent res (hinbox ▸ List.mem_cons_of_mem m hmem)⟩
    exact htaken.reception hm
  · exact fun h hs => h.steps hs

theorem new (setup : Setup) (store : Store) (archive : Archive) (subscribers : Subscribers) :
    ResultsDone (new setup store archive subscribers) := by
  refine ⟨?_, ?_⟩ <;> simp [Run.new]

end ResultsDone

namespace Writes

theorem steps {i : Nat} (hs : r.stepTask? i = some r') : Writes r r' := by
  obtain ⟨t, t', sent, ht, hconduct⟩ := stepTask?_conduct hs
  exact of_ledger (hconduct.steps ht).ledger

theorem apply (h : ResultsDone r) (m : Move) : Writes r (r.apply m) := by
  have hcancel (cancels : Bool) : Writes r (if cancels then r.cancel else r) := by
    split <;> exact of_ledger rfl
  have hmove := r.apply_happens m
  generalize r.taken m = taken, r.apply m = r' at hmove ⊢
  cases hmove with
  | nothing => exact refl r
  | start _ => exact start r
  | nextStep _ => exact nextStep r
  | push e _ => exact push e r
  | feed chunk cancels _ => exact (hcancel cancels).trans (piece (feed_takesPiece chunk _))
  | closeStream cancels _ => exact (hcancel cancels).trans (piece (closeStream_takesPiece _))
  | @deliver m rest hinbox =>
    have htaken : Writes r { r with inbox := rest } := of_ledger rfl
    refine htaken.trans (receive (fun res hm => h.sent res ?_) _)
    rw [hinbox, hm]
    exact List.mem_cons_self
  | task hs => exact steps hs
  | _ => exact of_ledger rfl

theorem applyAll (h : ResultsDone r) (ms : List Move) : Writes r (r.applyAll ms) := by
  induction ms generalizing r with
  | nil => exact refl r
  | cons m ms ih => exact (apply h m).trans (ih (h.applyAll [m]))

end Writes

end Run

end TagLedger
