import Mathlib.Data.List.Infix
import Mathlib.Tactic.Common
import TagLedger.Proofs.Entry.Outcome
import TagLedger.Proofs.Run.Deeds
import TagLedger.Proofs.Run.Frame
import TagLedger.Proofs.Run.Host

/-!
Working memory in the store. A commit writes working memory as it is then; all else that the
dispatcher does leaves it as it was written, but for two things: the payload of a call is noted
without a write, and so are the episodes that are recalled for an input whose handler then fails.
-/

namespace TagLedger

namespace Store

structure Spares (key : String) (s s' : Store) : Prop where
  writeFault : s'.writeFault = s.writeFault
  operations : s.operations ≤ s'.operations
  value : s'.value? key = s.value? key

namespace Spares

variable {key other : String} {s s' : Store}

theorem refl (s : Store) : Spares key s s := ⟨rfl, Nat.le_refl _, rfl⟩

theorem of_eq (h : s' = s) : Spares key s s' := by
  rw [h]
  exact refl s

theorem read (s : Store) : Spares key s (s.read other).2 := by
  unfold Store.read
  split <;> exact ⟨rfl, Nat.le_succ _, rfl⟩

theorem write (h : other ≠ key) (value : Json) (s : Store) :
    Spares key s (s.write other value).2 where
  writeFault := writeFault_write s other value
  operations := by
    unfold Store.write
    split <;> exact Nat.le_succ _
  value := value?_write_of_ne s value h.symm

end Spares

theorem value?_write {s : Store} {key : String} (h : s.writeFault s.operations key = none)
    (value : Json) : (s.write key value).2.value? key = some value := by
  unfold write
  rw [h]
  exact Json.Members.get?_insert_self _ _ _

theorem operations_write (s : Store) (key : String) (value : Json) :
    (s.write key value).2.operations = s.operations + 1 := by
  unfold write
  split <;> rfl

end Store

namespace Run

variable {r r' r'' : Run}

/-- What is stored under the key of working memory is working memory. -/
def Persisted (r : Run) : Prop := r.store.value? r.memoryKey = some r.ledger.memory.toJson

structure Onward (r r' : Run) : Prop where
  setup : r'.setup = r.setup
  writeFault : r'.store.writeFault = r.store.writeFault
  operations : r.store.operations ≤ r'.store.operations

/-- The writes of working memory between two runs succeed. -/
def WritesSucceed (r r' : Run) : Prop :=
  ∀ n, r.store.operations ≤ n → n < r'.store.operations → r.store.writeFault n r.memoryKey = none

namespace Onward

theorem refl (r : Run) : Onward r r := ⟨rfl, rfl, Nat.le_refl _⟩

theorem trans (h : Onward r r') (h' : Onward r' r'') : Onward r r'' where
  setup := h'.setup.trans h.setup
  writeFault := h'.writeFault.trans h.writeFault
  operations := Nat.le_trans h.operations h'.operations

theorem memoryKey (h : Onward r r') : r'.memoryKey = r.memoryKey := by
  unfold Run.memoryKey
  rw [h.setup]

theorem spares (hs : r'.setup = r.setup) (h : r.store.Spares r.memoryKey r'.store) :
    Onward r r' := ⟨hs, h.writeFault, h.operations⟩

end Onward

namespace WritesSucceed

theorem left (h : WritesSucceed r r'') (ho : Onward r' r'') : WritesSucceed r r' :=
  fun n hn hn' => h n hn (Nat.lt_of_lt_of_le hn' ho.operations)

theorem right (h : WritesSucceed r r'') (ho : Onward r r') : WritesSucceed r' r'' := by
  intro n hn hn'
  rw [ho.writeFault, ho.memoryKey]
  exact h n (Nat.le_trans ho.operations hn) hn'

end WritesSucceed

theorem Persisted.congr (h : r.Persisted) (hs : r'.setup = r.setup)
    (hstore : r.store.Spares r.memoryKey r'.store) (hm : r'.ledger.memory = r.ledger.memory) :
    r'.Persisted := by
  have hkey : r'.memoryKey = r.memoryKey := (Onward.spares hs hstore).memoryKey
  rw [Persisted, hkey, hstore.value, hm]
  exact h

/-- Working memory stays written, if the writes on the way succeed; no message comes or goes. -/
structure Saves (r r' : Run) : Prop extends Onward r r' where
  inbox : r'.inbox = r.inbox
  tasks : r.tasks <+: r'.tasks
  persisted : WritesSucceed r r' → r.Persisted → r'.Persisted

theorem store_recordResult (e : Entry) (r : Run) : (r.recordResult e).store = r.store := by
  unfold recordResult
  split
  · unfold recordEpisode
    split <;> rfl
  · rfl

/-- A commit is one operation of the store. -/
theorem operations_commit (e : Entry) (r : Run) :
    (r.commit e).store.operations = r.store.operations + 1 := by
  have hsave (q : Run) : (q.persist.notify e true).store.operations = q.store.operations + 1 :=
    Store.operations_write _ _ _
  rw [commit, hsave, store_recordResult]
  rfl

/-- Working memory is written with every commit. -/
theorem commit_persisted {e : Entry} (h : WritesSucceed r (r.commit e)) :
    (r.commit e).Persisted := by
  have hwrite : r.store.writeFault r.store.operations r.memoryKey = none := by
    refine h _ (Nat.le_refl _) ?_
    rw [operations_commit]
    exact Nat.lt_succ_self _
  have hepisode := (r.append e).recordResult_logs e
  have hsave (q : Run) (hq : q.store.writeFault q.store.operations q.memoryKey = none) :
      (q.persist.notify e true).Persisted := Store.value?_write hq _
  refine hsave _ ?_
  rw [store_recordResult, hepisode.memoryKey]
  exact hwrite

namespace Saves

theorem refl (r : Run) : Saves r r := ⟨.refl r, rfl, List.prefix_rfl, fun _ h => h⟩

theorem trans (h : Saves r r') (h' : Saves r' r'') : Saves r r'' where
  toOnward := h.toOnward.trans h'.toOnward
  inbox := h'.inbox.trans h.inbox
  tasks := h.tasks.trans h'.tasks
  persisted := fun hw hp =>
    h'.persisted (hw.right h.toOnward) (h.persisted (hw.left h'.toOnward) hp)

/-- Neither the store nor working memory changes. -/
theorem of_eq (hs : r'.setup = r.setup) (hstore : r'.store = r.store) (hi : r'.inbox = r.inbox)
    (ht : r.tasks <+: r'.tasks) (hm : r'.ledger.memory = r.ledger.memory) : Saves r r' where
  toOnward := .spares hs (.of_eq hstore)
  inbox := hi
  tasks := ht
  persisted := fun _ hp => hp.congr hs (.of_eq hstore) hm

theorem commit (e : Entry) (r : Run) : Saves r (r.commit e) where
  setup := (r.commit_logs e).setup
  writeFault := (r.commit_logs e).writeFault
  operations := by
    rw [operations_commit]
    exact Nat.le_succ _
  inbox := (r.commit_logs e).inbox
  tasks := by rw [(r.commit_logs e).tasks]
  persisted := fun hw _ => commit_persisted hw

theorem deed (h : Deed r r') : Saves r r' := by
  cases h with
  | commits e => exact commit e r
  | spawns c p slot => exact .of_eq rfl rfl rfl (List.prefix_append _ _) rfl
  | _ => exact .of_eq rfl rfl rfl List.prefix_rfl rfl

theorem deeds (h : Deeds r r') : Saves r r' :=
  h.keep refl (fun _ _ _ => trans) (fun _ _ => deed)

end Saves

/-- Whether there is a handler for an input that is asked about it and fails. -/
def inputFails (e : Entry.Input) (r : Run) : Bool :=
  (r.setup.catalog.inputs.find? (·.type == e.type)).any fun h =>
    (h.validated e).toOption.any fun data =>
      (r.ledger.archive.query r.setup.context.id data.toText).1.toOption.any fun episodes =>
        !(h.handle data
          ⟨r.setup.context, { r.ledger.memory with episodes := some episodes }⟩).isOk

/-- Whether a handler of inputs fails when a message is taken. -/
def handlerFails (r : Run) : Message → Bool
  | .push e =>
    match e.finished with
    | .input e => r.inputFails e
    | _ => false
  | _ => false

/-- Without a failure of its handler, an input that is dropped leaves working memory as it was. -/
theorem memory_handled {e : Entry.Input} {err : RunError} (hok : r.inputFails e = false)
    (h : (r.handled e).outcome = .error err) : (r.handled e).memory = r.ledger.memory := by
  have hend := InputHandler.handleInput_outcome r.setup.catalog.inputs r.setup.context
    r.ledger.memory r.ledger.archive e
  rw [handled] at h ⊢
  generalize InputHandler.handleInput r.setup.catalog.inputs r.setup.context r.ledger.memory
    r.ledger.archive e = made at hend h ⊢
  cases hend with
  | unknown _ => rfl
  | malformed _ _ => rfl
  | unanswered _ _ _ => rfl
  | @recalled x data episodes _ hfind hv hquery =>
    cases hx : x.handle data
      ⟨r.setup.context, { r.ledger.memory with episodes := some episodes }⟩ with
    | error err =>
      simp [inputFails, hfind, hv, hquery, hx, Except.toOption, Except.isOk, Except.toBool] at hok
    | ok response =>
      rw [hx] at h
      cases h

namespace Saves

theorem routeInput {e : Entry.Input} (hok : r.inputFails e = false) : Saves r (r.routeInput e) := by
  cases h : (r.handled e).outcome with
  | ok o =>
    have hcommit : Saves (r.recalled e) ((r.recalled e).commit (.input o)) := commit _ _
    rw [routeInput_of_ok h]
    -- Between the recall and the commit working memory is not written, so these do not compose.
    exact {
      toOnward := ⟨hcommit.setup, hcommit.writeFault, hcommit.operations⟩
      inbox := hcommit.inbox
      tasks := hcommit.tasks
      persisted := fun hw _ => commit_persisted hw }
  | error err =>
    have hrecalled : Saves r (r.recalled e) :=
      .of_eq rfl rfl rfl List.prefix_rfl (memory_handled hok h)
    exact hrecalled.trans (deeds (routeInput_deeds e r))

theorem push {e : Entry} (hok : r.handlerFails (.push e) = false) : Saves r (r.push e) := by
  rw [handlerFails] at hok
  unfold Run.push
  split at hok
  · rename_i heq
    rw [heq]
    exact routeInput hok
  · rename_i hne
    refine deeds (.route ?_ r)
    intro hkind
    cases hfinished : e.finished with
    | input i => exact hne i hfinished
    | _ =>
      rw [hfinished] at hkind
      cases hkind

theorem takeElement {x : Markup.Element}
    (hok : ∀ y ∈ r.elementTaken x, y.1.handlerFails y.2 = false) : Saves r (r.takeElement x) := by
  have hopen (o : OpenEntries) : Saves r ((r.draw 1).setOpen o) :=
    .of_eq rfl rfl rfl List.prefix_rfl rfl
  have hx := r.takeElement_notices x
  generalize r.elementTaken x = taken, r.takeElement x = r' at hx hok ⊢
  cases hx with
  | unknown _ => exact refl r
  | shows _ _ _ => exact .of_eq rfl rfl rfl List.prefix_rfl rfl
  | @routes _ found _ hdone _ =>
    have hpush := (hopen (found.2.remove x.index).2).trans (push (hok _ (List.mem_singleton_self _)))
    rwa [Run.push, Entry.finished_withElement hdone] at hpush

theorem takeEvents {events : List Markup.ElementEvent}
    (hok : ∀ y ∈ eventsTaken events r, y.1.handlerFails y.2 = false) :
    Saves r (r.takeEvents events) := by
  induction events generalizing r with
  | nil => exact refl r
  | cons ev events ih =>
    rw [eventsTaken] at hok
    have hfirst : Saves r (r.takeElement ev.element) :=
      takeElement fun y hy => hok y (List.mem_append_left _ hy)
    exact hfirst.trans (ih fun y hy => hok y (List.mem_append_right _ hy))

theorem setStream (p : Option Markup.Parser) (r : Run) : Saves r { r with stream := p } :=
  .of_eq rfl rfl rfl List.prefix_rfl rfl

theorem piece {taken : List (Run × Message)} (hp : TakesPiece r taken r')
    (hok : ∀ y ∈ taken, y.1.handlerFails y.2 = false) : Saves r r' := by
  cases hp with
  | nothing _ => exact refl r
  | events p events => exact (setStream p r).trans (takeEvents hok)

end Saves

theorem nextStep_persisted (hw : WritesSucceed r r.nextStep) : r.nextStep.Persisted :=
  commit_persisted hw

/-- A start that succeeds leaves working memory written, and one that fails leaves it alone. -/
theorem start_saves (r : Run) :
    Saves r r.start.2 ∧ (r.start.1 = none → WritesSucceed r r.start.2 → r.start.2.Persisted) := by
  have hread : r.store.Spares r.memoryKey (WorkingMemory.load r.memoryKey r.store).2 := by
    rw [WorkingMemory.load_store]
    exact .read _
  unfold start
  cases hload : WorkingMemory.load r.memoryKey r.store with
  | mk loaded store =>
    rw [hload] at hread
    cases loaded with
    | error err =>
      constructor
      · exact {
          toOnward := .spares rfl hread
          inbox := rfl
          tasks := List.prefix_rfl
          persisted := fun _ hp => hp.congr rfl hread rfl }
      · simp
    | ok memory =>
      dsimp only
      set q := bindCatalog memory { r with store }
      have hbound : Onward r q := .spares rfl hread
      have hopened := Saves.deeds (Deeds.openRun q)
      have hlater := hopened.trans (Saves.deeds (Deeds.nextStep q.openRun))
      have hpersisted (hw : WritesSucceed r q.openRun.nextStep) : q.openRun.nextStep.Persisted :=
        nextStep_persisted (hw.right (hbound.trans hopened.toOnward))
      constructor
      · exact {
          toOnward := hbound.trans hlater.toOnward
          inbox := hlater.inbox
          tasks := hlater.tasks
          persisted := fun hw _ => hpersisted hw }
      · intro _
        exact hpersisted

theorem store_absorb (s : Scene) (r : Run) : (r.absorb s).store = r.store := by
  rw [absorb_frame]

theorem store_giveBack (r : Run) : r.giveBack.store = r.store := by
  rw [giveBack_frame]

variable {i : Nat} {t t' : CallTask} {sent : List Message} {key : String}

/-- The step of a task writes no memory but that of its action. -/
theorem Conduct.spares (h : Conduct i r t t' sent r') (hp : t.phase ≠ .loading)
    (hkeys : ∀ m, t.action.action.memory = some m → m.key ≠ key) :
    r.store.Spares key r'.store := by
  have hkeep (slice : Json) :
      r.store.Spares key ((r.draw 1).keepSlice t.action.action slice).store := by
    unfold keepSlice
    split
    · exact .refl _
    · rename_i m hm
      exact .write (hkeys m hm) slice _
  cases h with
  | loads hload => exact absurd hload hp
  | works _ _ _ _ => exact .of_eq (store_absorb _ r)
  | recovers _ _ _ _ => exact .of_eq (store_absorb _ r)
  | follows _ _ _ _ => exact .of_eq (store_absorb _ r)
  | succeeds _ _ => exact .of_eq r.store_giveBack
  | fails _ _ => exact .of_eq r.store_giveBack
  | crashes _ _ _ => exact .of_eq r.store_giveBack
  | concludes _ _ _ => exact hkeep _
  | concludesError _ _ _ => exact hkeep _
  | _ => exact .refl _

theorem stepTask?_spares (ht : r.tasks[i]? = some t) (h : r.stepTask? i = some r')
    (hkeys : ∀ m, t.action.action.memory = some m → m.key ≠ key) :
    r.store.Spares key r'.store := by
  by_cases hp : t.phase = .loading
  · obtain rfl := Option.some.inj ((stepTask?_loading ht hp).symm.trans h)
    change r.store.Spares key (r.readStore t.action.action)
    unfold readStore
    split
    · exact .refl _
    · exact .read _
  · obtain ⟨u, _, _, hu, hconduct⟩ := stepTask?_conduct h
    obtain rfl : t = u := Option.some.inj (ht.symm.trans hu)
    exact hconduct.spares hp hkeys

end Run

end TagLedger
