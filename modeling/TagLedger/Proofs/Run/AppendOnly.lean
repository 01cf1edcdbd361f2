import Mathlib.Tactic.Common
import TagLedger.Proofs.Run.Bare
import TagLedger.Proofs.Run.Once
import TagLedger.Proofs.Run.Operations
import TagLedger.Proofs.Run.Writes

/-!
The log is append-only. Whatever the schedule, entries of the chain are final, keep their places and
all that they have but for the data of calls, and errors are added at the end; the data of a call of
the stream changes at most once, from absent to present.
-/

namespace TagLedger

namespace Run

variable {r r' : Run}

/-- How the log of a run stands to its log later on. The places are those of the stream. -/
structure AppendOnly (places : List Nat) (r r' : Run) : Prop where
  /-- Entries are added at the end, and keep all that they have but for the data of calls. -/
  chain : r.chainWithoutData <+: r'.chainWithoutData
  /-- A call of the stream is the same, or had no data and has it now. -/
  data : ∀ k ∈ places, ∀ c, r.ledger.chain[k]? = some (.call c) →
    r'.ledger.chain[k]? = some (.call c) ∨
      c.data = none ∧ ∃ data, r'.ledger.chain[k]? = some (.call { c with data := some data })
  errors : r.ledger.errors <+: r'.ledger.errors
  done : ∀ e ∈ r'.ledger.chain, e.isDone = true

theorem ids_prefix_of_chainWithoutData (h : r.chainWithoutData <+: r'.chainWithoutData) :
    r.ledger.chain.map Entry.id <+: r'.ledger.chain.map Entry.id := by
  have hids (q : Run) : q.chainWithoutData.map Entry.id = q.ledger.chain.map Entry.id := by
    simp [chainWithoutData]
  rw [← hids r, ← hids r']
  exact h.map Entry.id

/-- From any moment of a run to any later one, the log is append-only. -/
theorem appendOnly_of_noted {r₀ : Run} {ms ms' : List Move} (hnew : Noted [] r₀)
    (hopen : OpenBare r₀) (hresults : ResultsDone r₀)
    (hdone : ∀ e ∈ r₀.ledger.chain, e.isDone = true)
    (hids : (((r₀.applyAll ms).applyAll ms').ledger.chain.map Entry.id).Nodup) :
    AppendOnly (directPlaces ms r₀) (r₀.applyAll ms) ((r₀.applyAll ms).applyAll ms') := by
  set r := r₀.applyAll ms with hr
  have hchain : r.chainWithoutData <+: (r.applyAll ms').chainWithoutData := by
    obtain ⟨es, hes⟩ := r.applyAll_chainWithoutData ms'
    exact hes ▸ List.prefix_append _ _
  have hbefore := hids.sublist (ids_prefix_of_chainWithoutData hchain).sublist
  have hsince := (NotedSince.of_noted (hnew.applyAll ms hbefore)).applyAll ms' hids
  have hwrites : Writes r₀ (r.applyAll ms') := by
    rw [hr, ← applyAll_append]
    exact .applyAll hresults _
  refine ⟨hchain, fun k hk c hc => ?_, ?_, ?_⟩
  · obtain ⟨c', hc', hlater⟩ := hsince.since k c hc
    rcases hlater with rfl | ⟨⟨x, hx, rfl⟩, data, rfl⟩
    · exact .inl hc'
    · refine .inr ⟨?_, data, hc'⟩
      obtain ⟨y, hy, hid, hnone⟩ := exists_routed_of_directPlaces hopen hk hc
      have hrouted : y ∈ routedCalls ([] ++ history ms r₀ ++ history ms' r) := by
        rw [routedCalls_append]
        exact List.mem_append_left _ hy
      obtain rfl := List.inj_on_of_nodup_map (hsince.distinctRouted hids) hrouted
        (List.mem_filter.mp hx).1 hid
      exact hnone
  · exact (Writes.applyAll (hresults.applyAll ms) ms').errors
  · obtain ⟨_, _, hchanges⟩ := hwrites.told
    exact hchanges.done hdone

/-- Whatever was done to a run and whatever is done next, moves or operations of a session, the log
is append-only, as long as no two entries have the same identifier. -/
theorem applyAll_appendOnly (setup : Setup) (store : Store) (archive : Archive)
    (subscribers : Subscribers) (ms : List Move) :
    let r₀ := new setup store archive subscribers
    let r := r₀.applyAll ms
    (∀ ms', ((r.applyAll ms').ledger.chain.map Entry.id).Nodup →
      AppendOnly (directPlaces ms r₀) r (r.applyAll ms')) ∧
      ∀ s s' : Session, s.run = r → s.Operates s' → (s'.run.ledger.chain.map Entry.id).Nodup →
        AppendOnly (directPlaces ms r₀) r s'.run := by
  intro r₀ r
  have hmoves (ms' : List Move) (hids : ((r.applyAll ms').ledger.chain.map Entry.id).Nodup) :
      AppendOnly (directPlaces ms r₀) r (r.applyAll ms') := by
    refine appendOnly_of_noted (.new setup store archive subscribers) ?_
      (.new setup store archive subscribers) ?_ hids
    · intro p hp
      cases hp
    · intro e he
      cases he
  refine ⟨hmoves, fun s s' hs hoperates hids => ?_⟩
  obtain ⟨ms', hms'⟩ := hoperates.exists_schedule
  rw [hs] at hms'
  rw [hms'] at hids ⊢
  exact hmoves ms' hids

end Run

namespace Sample

def streamedCall : Text := "<action_call name=\"note\">[1]</action_call>".toList

end Sample

open Sample in
/-- A call of the stream gets its data after it was committed, and its result comes after it. -/
theorem Run.applyAll_appendOnly_streamed :
    let ms : List Move := [.start, .openStream, .feed streamedCall false, .closeStream false]
    let r := noteRun.applyAll ms
    let noted := r.applyAll [.task 0, .deliver]
    let s := ms.foldl (fun s m => s.move m) (Session.new noteRun)
    directPlaces ms noteRun = [2] ∧
      (r.ledger.chain.map fun e => e.call?.bind (·.data)) = [none, none, none] ∧
      (noted.ledger.chain.map fun e => e.call?.bind (·.data)) =
        [none, none, some (.arr [Json.ofNat 1])] ∧
      s.settle.run.ledger.chain.length = 4 ∧ (noted.ledger.chain.map Entry.id).Nodup ∧
      (s.settle.run.ledger.chain.map Entry.id).Nodup ∧
      AppendOnly (directPlaces ms noteRun) r noted ∧
      AppendOnly (directPlaces ms noteRun) r s.settle.run := by
  intro ms r noted s
  have hplaces : directPlaces ms noteRun = [2] := by decide +kernel
  have hbefore : (r.ledger.chain.map fun e => e.call?.bind (·.data)) = [none, none, none] := by
    decide +kernel
  have hafter : (noted.ledger.chain.map fun e => e.call?.bind (·.data)) =
      [none, none, some (.arr [Json.ofNat 1])] := by decide +kernel
  have hlength : s.settle.run.ledger.chain.length = 4 := by decide +kernel
  have hnoted : (noted.ledger.chain.map Entry.id).Nodup := by decide +kernel
  have hsettled : (s.settle.run.ledger.chain.map Entry.id).Nodup := by decide +kernel
  obtain ⟨hmoves, hoperations⟩ :=
    applyAll_appendOnly noteSetup Store.empty Archive.empty Subscribers.empty ms
  exact ⟨hplaces, hbefore, hafter, hlength, hnoted, hsettled, hmoves _ hnoted,
    hoperations s _ rfl .settle hsettled⟩

end TagLedger
