import Mathlib.Tactic.Common
import TagLedger.Run.Stream

/-!
What the dispatcher adds to the log. Commits append to the chain and push to working memory, whose
trimming drops the oldest; beyond that, an operation may record errors of its own, and each failed
write of working memory adds one. Tasks, messages and slots are left alone.
-/

namespace TagLedger

namespace WorkingMemory

def forgetEpisodes (m : WorkingMemory) : WorkingMemory := { m with episodes := none }

theorem forgetEpisodes_push (m : WorkingMemory) (e : Entry) :
    (m.push e).forgetEpisodes = m.forgetEpisodes.push e := by
  cases e <;> rfl

end WorkingMemory

namespace RunRecord

@[simp] theorem rebuild_nil (ret : Retention) (m : WorkingMemory) : rebuild ret m [] = m := rfl

@[simp] theorem rebuild_cons (ret : Retention) (m : WorkingMemory) (e : Entry) (es : List Entry) :
    rebuild ret m (e :: es) = rebuild ret (ret.trim (m.push e)) es := rfl

theorem rebuild_append (ret : Retention) (m : WorkingMemory) (es fs : List Entry) :
    rebuild ret m (es ++ fs) = rebuild ret (rebuild ret m es) fs :=
  List.foldl_append

end RunRecord

namespace Run

/-- The error text of a write of working memory that fails in a store. -/
def IsWriteFault (r : Run) (text : String) : Prop :=
  ∃ n e, r.store.writeFault n r.memoryKey = some e ∧ text = e.message

/-- What no commit changes: all but the log, the store and the counters. In the store only working
memory is written. -/
structure Untouched (r r' : Run) : Prop where
  setup : r'.setup = r.setup
  inbox : r'.inbox = r.inbox
  tasks : r'.tasks = r.tasks
  permits : r'.permits = r.permits
  executions : r'.executions = r.executions
  cancelled : r'.cancelled = r.cancelled
  now : r'.now = r.now
  slots : r'.ledger.slots = r.ledger.slots
  inFlight : r'.ledger.inFlight = r.ledger.inFlight
  actions : r'.ledger.actions = r.ledger.actions
  readFault : r'.store.readFault = r.store.readFault
  writeFault : r'.store.writeFault = r.store.writeFault
  cells : ∀ key, key ≠ r.memoryKey → r'.store.value? key = r.store.value? key

namespace Untouched

variable {r r' r'' : Run}

theorem refl (r : Run) : Untouched r r :=
  ⟨rfl, rfl, rfl, rfl, rfl, rfl, rfl, rfl, rfl, rfl, rfl, rfl, fun _ _ => rfl⟩

theorem memoryKey (h : Untouched r r') : r'.memoryKey = r.memoryKey := by
  unfold Run.memoryKey
  rw [h.setup]

theorem trans (h : Untouched r r') (h' : Untouched r' r'') : Untouched r r'' where
  setup := h'.setup.trans h.setup
  inbox := h'.inbox.trans h.inbox
  tasks := h'.tasks.trans h.tasks
  permits := h'.permits.trans h.permits
  executions := h'.executions.trans h.executions
  cancelled := h'.cancelled.trans h.cancelled
  now := h'.now.trans h.now
  slots := h'.slots.trans h.slots
  inFlight := h'.inFlight.trans h.inFlight
  actions := h'.actions.trans h.actions
  readFault := h'.readFault.trans h.readFault
  writeFault := h'.writeFault.trans h.writeFault
  cells := fun key hkey =>
    (h'.cells key (h.memoryKey ▸ hkey)).trans (h.cells key hkey)

theorem isWriteFault (h : Untouched r r') {text : String} :
    r'.IsWriteFault text ↔ r.IsWriteFault text := by
  simp only [IsWriteFault, h.writeFault, h.memoryKey]

end Untouched

/-- Entries were committed, in order, and errors were recorded: first those of the operation itself,
then those of failed writes. Recalled episodes may differ. -/
structure Logs (own : List String) (es : List Entry) (r r' : Run) : Prop
    extends Untouched r r' where
  chain : r'.ledger.chain = r.ledger.chain ++ es
  memory : r'.ledger.memory.forgetEpisodes =
    RunRecord.rebuild r.setup.config.retention r.ledger.memory.forgetEpisodes es
  errors : ∃ faults, r'.ledger.errors = r.ledger.errors ++ own ++ faults ∧
    ∀ f ∈ faults, r.IsWriteFault f

namespace Logs

variable {r r' r'' : Run} {own : List String} {es fs : List Entry}

theorem refl (r : Run) : Logs [] [] r r where
  toUntouched := Untouched.refl r
  chain := (List.append_nil _).symm
  memory := rfl
  errors := ⟨[], by simp, by simp⟩

theorem trans (h : Logs own es r r') (h' : Logs [] fs r' r'') : Logs own (es ++ fs) r r'' where
  toUntouched := h.toUntouched.trans h'.toUntouched
  chain := by rw [h'.chain, h.chain, List.append_assoc]
  memory := by rw [h'.memory, h.memory, h.setup, RunRecord.rebuild_append]
  errors := by
    obtain ⟨xs, hxs, hx⟩ := h.errors
    obtain ⟨ys, hys, hy⟩ := h'.errors
    refine ⟨xs ++ ys, by simp [hys, hxs], fun f hf => ?_⟩
    rcases List.mem_append.mp hf with hf | hf
    · exact hx f hf
    · exact h.isWriteFault.mp (hy f hf)

theorem of_eq (h : Untouched r r') (hc : r'.ledger.chain = r.ledger.chain)
    (hm : r'.ledger.memory.forgetEpisodes = r.ledger.memory.forgetEpisodes)
    (he : r'.ledger.errors = r.ledger.errors) : Logs [] [] r r' where
  toUntouched := h
  chain := by rw [hc, List.append_nil]
  memory := hm
  errors := ⟨[], by simp [he], by simp⟩

end Logs

theorem draw_logs (count : Nat) (r : Run) : Logs [] [] r (r.draw count) :=
  Logs.of_eq { Untouched.refl r with } rfl rfl rfl

theorem notify_logs (e : Entry) (done : Bool) (r : Run) : Logs [] [] r (r.notify e done) :=
  Logs.of_eq { Untouched.refl r with } rfl rfl rfl

theorem recordEpisode_logs (result : Entry.Result) (r : Run) :
    Logs [] [] r (r.recordEpisode result) := by
  unfold recordEpisode
  split
  · exact Logs.of_eq { Untouched.refl r with } rfl rfl rfl
  · exact Logs.refl r

theorem recordResult_logs (e : Entry) (r : Run) : Logs [] [] r (r.recordResult e) := by
  unfold recordResult
  split
  · exact r.recordEpisode_logs _
  · exact Logs.refl r

theorem recordError_logs (e : RunError) (r : Run) : Logs [e.message] [] r (r.recordError e) where
  toUntouched := { Untouched.refl r with }
  chain := (List.append_nil _).symm
  memory := rfl
  errors := ⟨[], by simp [recordError, addErrors], by simp⟩

end Run

namespace Store

@[simp] theorem readFault_write (s : Store) (key : String) (value : Json) :
    (s.write key value).2.readFault = s.readFault := by
  unfold write
  split <;> rfl

@[simp] theorem writeFault_write (s : Store) (key : String) (value : Json) :
    (s.write key value).2.writeFault = s.writeFault := by
  unfold write
  split <;> rfl

theorem value?_write_of_ne (s : Store) {key other : String} (value : Json) (h : other ≠ key) :
    (s.write key value).2.value? other = s.value? other := by
  unfold write
  split
  · rfl
  · exact Json.Members.get?_insert_of_ne h

theorem writeFault_of_write {s : Store} {key : String} {value : Json} {e : RunError}
    (h : (s.write key value).1 = some e) : s.writeFault s.operations key = some e := by
  unfold write at h
  split at h
  · rename_i heq
    rw [heq]
    exact h
  · cases h

end Store

namespace Run

theorem persist_untouched (r : Run) : Untouched r r.persist := by
  refine { Untouched.refl r with readFault := ?_, writeFault := ?_, cells := ?_ }
  · exact Store.readFault_write _ _ _
  · exact Store.writeFault_write _ _ _
  · exact fun key hkey => Store.value?_write_of_ne _ _ hkey

theorem persist_errors (r : Run) :
    ∃ faults, r.persist.ledger.errors = r.ledger.errors ++ faults ∧
      ∀ f ∈ faults, r.IsWriteFault f := by
  refine ⟨_, rfl, fun f hf => ?_⟩
  obtain ⟨e, he, rfl⟩ := Option.map_eq_some_iff.mp (Option.mem_toList.mp hf)
  exact ⟨_, e, Store.writeFault_of_write he, rfl⟩

theorem commit_logs (e : Entry) (r : Run) : Logs [] [e] r (r.commit e) := by
  have happend : Untouched r (r.append e) := { Untouched.refl r with }
  have hepisode := (r.append e).recordResult_logs e
  have hsave := ((r.append e).recordResult e).persist_untouched
  suffices h : Logs [] [e] r ((r.append e).recordResult e).persist from
    h.trans (notify_logs e true _)
  refine
    { toUntouched := (happend.trans hepisode.toUntouched).trans hsave
      chain := ?_, memory := ?_, errors := ?_ }
  · exact hepisode.chain.trans (List.append_nil _)
  · have hmemory := hepisode.memory
    rw [RunRecord.rebuild_nil] at hmemory
    have htrim (ret : Retention) (m : WorkingMemory) :
        (ret.trim m).forgetEpisodes = ret.trim m.forgetEpisodes := rfl
    have hkept : ((r.append e).recordResult e).persist.ledger.memory =
        ((r.append e).recordResult e).setup.config.retention.trim
          ((r.append e).recordResult e).ledger.memory := rfl
    rw [hkept, htrim, hmemory, hepisode.setup, RunRecord.rebuild_cons, RunRecord.rebuild_nil,
      ← WorkingMemory.forgetEpisodes_push]
    rfl
  · obtain ⟨xs, hxs, hx⟩ := hepisode.errors
    obtain ⟨ys, hys, hy⟩ := ((r.append e).recordResult e).persist_errors
    refine ⟨xs ++ ys, by rw [hys, hxs]; simp [append], fun f hf => ?_⟩
    rcases List.mem_append.mp hf with hf | hf
    · exact happend.isWriteFault.mp (hx f hf)
    · exact (happend.trans hepisode.toUntouched).isWriteFault.mp (hy f hf)

theorem commitAll_logs (es : List Entry) (r : Run) : Logs [] es r (r.commitAll es) := by
  induction es generalizing r with
  | nil => exact Logs.refl r
  | cons e es ih => exact (r.commit_logs e).trans (ih (r.commit e))

theorem commitSubstitutes_logs (err : RunError) (r : Run) :
    Logs [] (Entry.ofError r.nextId r.time err) r (r.commitSubstitutes err) :=
  (r.draw_logs 1).trans (commitAll_logs _ _)

end Run

end TagLedger
