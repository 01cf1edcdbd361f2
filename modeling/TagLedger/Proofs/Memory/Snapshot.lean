import TagLedger.Memory.Snapshot
import TagLedger.Proofs.Entry.Written
import TagLedger.Proofs.Memory.Patch

/-!
Snapshots of working memory. A memory is read back from its snapshot as it was, but for optional
data that is null, which counts as absent. So a memory that was saved and loaded again is the
trimmed memory, and saving it once more writes what was written before.
-/

namespace TagLedger

open Json (Mismatch)

/-- A list is read back if each of its items is. -/
theorem Json.Decode.list_map {α β : Type} (read : Json → Except Mismatch β) (write : α → Json)
    (back : α → β) (xs : List α) (h : ∀ x ∈ xs, read (write x) = .ok (back x)) :
    list read (.arr (xs.map write)) = .ok (xs.map back) := by
  rw [list]
  induction xs with
  | nil => rfl
  | cons x xs ih =>
    rw [List.map_cons, List.mapM_cons, h x List.mem_cons_self,
      ih fun y hy => h y (List.mem_cons_of_mem _ hy)]
    rfl

@[simp] theorem Json.Decode.list_ok (xs : List Json) : list .ok (.arr xs) = .ok xs := by
  simpa using list_map .ok id id xs fun _ _ => rfl

namespace Retention

theorem keepLast_keepLast {α : Type} (max : Nat) (xs : List α) :
    keepLast max (keepLast max xs) = keepLast max xs := by
  have hzero : (keepLast max xs).length - max = 0 := by
    simp only [keepLast, List.length_drop]
    omega
  rw [keepLast, hzero, List.drop_zero]

/-- A trimmed memory needs no trimming. -/
theorem trim_trim (r : Retention) (m : WorkingMemory) : r.trim (r.trim m) = r.trim m := by
  cases hclear : r.clearSteps <;> simp [trim, hclear, keepLast_keepLast]

end Retention

namespace WorkingMemory

def entries (m : WorkingMemory) : List Entry :=
  m.runs.map .run ++ m.steps.map .step ++ m.inputs.map .input ++ m.outputs.map .output ++
    m.calls.map .call ++ m.results.map .result ++ m.events.map .event ++ m.thoughts.map .thought

theorem mem_entries {m : WorkingMemory} {e : Entry} :
    e ∈ m.entries ↔ match e with
      | .run e => e ∈ m.runs
      | .step e => e ∈ m.steps
      | .input e => e ∈ m.inputs
      | .output e => e ∈ m.outputs
      | .call e => e ∈ m.calls
      | .result e => e ∈ m.results
      | .event e => e ∈ m.events
      | .thought e => e ∈ m.thoughts := by
  cases e <;> simp [entries]

/-- Whether every entry of a memory is in the range of its written form. -/
def IsWritable (m : WorkingMemory) : Prop := ∀ e ∈ m.entries, e.IsWritable

instance (m : WorkingMemory) : Decidable m.IsWritable :=
  inferInstanceAs (Decidable (∀ e ∈ m.entries, e.IsWritable))

def readBack (m : WorkingMemory) : WorkingMemory :=
  { m with
    inputs := m.inputs.map fun e => { e with data := Entry.readData e.data }
    outputs := m.outputs.map fun e => { e with data := Entry.readData e.data }
    calls := m.calls.map fun e => { e with data := Entry.readData e.data } }

@[simp] theorem decodeEpisodes_episodesJson (episodes : List Json) :
    decodeEpisodes (episodesJson episodes) = .ok episodes := by
  simp [decodeEpisodes, episodesJson, Json.Decode.record, Json.Decode.fields, bind, Except.bind]

theorem optional_decodeEpisodes (episodes : List Json) :
    Json.Decode.optional decodeEpisodes (episodesJson episodes) = .ok (some episodes) :=
  congrArg (Except.map some) (decodeEpisodes_episodesJson episodes)

/-- A memory is read back from its snapshot. -/
theorem decode_toJson {m : WorkingMemory} (h : m.IsWritable) :
    decode m.toJson = .ok m.readBack := by
  have hmem : ∀ e ∈ m.entries, e.header.IsWritable := fun e he => (h e he).header
  have hruns := Json.Decode.list_map Entry.Run.decode (fun e => .obj e.members) id m.runs
    fun e he => Entry.Run.decode_members (hmem (.run e) (mem_entries.mpr he))
  have hsteps := Json.Decode.list_map Entry.Step.decode (fun e => .obj e.members) id m.steps
    fun e he => Entry.Step.decode_members (hmem (.step e) (mem_entries.mpr he))
      ((h (.step e) (mem_entries.mpr he)).step e.step rfl)
  have hinputs := Json.Decode.list_map Entry.Input.decode (fun e => .obj e.members) _ m.inputs
    fun e he => Entry.Input.decode_members (hmem (.input e) (mem_entries.mpr he))
  have houtputs := Json.Decode.list_map Entry.Output.decode (fun e => .obj e.members) _ m.outputs
    fun e he => Entry.Output.decode_members (hmem (.output e) (mem_entries.mpr he))
  have hcalls := Json.Decode.list_map Entry.Call.decode (fun e => .obj e.members) _ m.calls
    fun e he => Entry.Call.decode_members (hmem (.call e) (mem_entries.mpr he))
  have hresults := Json.Decode.list_map Entry.Result.decode (fun e => .obj e.members) id m.results
    fun e he => Entry.Result.decode_members (hmem (.result e) (mem_entries.mpr he))
  have hevents := Json.Decode.list_map Entry.Event.decode (fun e => .obj e.members) id m.events
    fun e he => Entry.Event.decode_members (hmem (.event e) (mem_entries.mpr he))
  have hthoughts := Json.Decode.list_map Entry.Thought.decode (fun e => .obj e.members) id
    m.thoughts fun e he => Entry.Thought.decode_members (hmem (.thought e) (mem_entries.mpr he))
  rw [List.map_id] at hruns hsteps hresults hevents hthoughts
  cases hepisodes : m.episodes with
  | none =>
    simp [decode, toJson, hepisodes, Json.Decode.record, Json.Decode.fields, fields, hruns, hsteps,
      hinputs, houtputs, hcalls, hresults, hevents, hthoughts, bind, Except.bind, pure, Except.pure,
      empty, readBack]
  | some episodes =>
    simp [decode, toJson, hepisodes, Json.Decode.record, Json.Decode.fields, fields, hruns, hsteps,
      hinputs, houtputs, hcalls, hresults, hevents, hthoughts, optional_decodeEpisodes, bind,
      Except.bind, pure, Except.pure, readBack]

/-- A memory that was read back is written as before. -/
theorem toJson_readBack (m : WorkingMemory) : m.readBack.toJson = m.toJson := by
  simp [toJson, readBack, Entry.Input.members, Entry.Output.members, Entry.Call.members,
    Entry.ofOption_readData]

theorem trim_readBack (r : Retention) (m : WorkingMemory) :
    r.trim m.readBack = (r.trim m).readBack := by
  simp [Retention.trim, readBack, Retention.keepLast_map]

/-- Trimming brings no entry into a memory. -/
theorem mem_entries_of_trim {r : Retention} {m : WorkingMemory} {e : Entry}
    (h : e ∈ (r.trim m).entries) : e ∈ m.entries := by
  rw [mem_entries] at h ⊢
  cases e with
  | step e =>
    simp only [Retention.trim] at h ⊢
    split at h
    · exact absurd h List.not_mem_nil
    · exact h
  | _ => exact List.mem_of_mem_drop h

theorem IsWritable.trim {m : WorkingMemory} (h : m.IsWritable) (r : Retention) :
    (r.trim m).IsWritable := fun e he => h e (mem_entries_of_trim he)

/-- What is saved under a key, if nothing fails. -/
theorem save_of_noFault {s : Store} {key : String} (h : s.writeFault s.operations key = none)
    (r : Retention) (m : WorkingMemory) :
    (save r key m s).fault = none ∧
      (save r key m s).store.value? key = some (r.trim m).toJson := by
  simp [save, Store.write, h, Store.value?]

theorem load_of_value? {s : Store} {key : String} {m : WorkingMemory} (hm : m.IsWritable)
    (hread : s.readFault s.operations key = none) (hvalue : s.value? key = some m.toJson) :
    (load key s).1 = .ok m.readBack := by
  simp [load, Store.read, hread, hvalue, decode_toJson hm]

/-- A memory survives being written and read again. What is loaded from a store that has kept the
saved value is the trimmed memory, and saving that stores the same value. -/
theorem load_of_saved {m : WorkingMemory} (hm : m.IsWritable) (r : Retention) (key : String)
    (s s' s'' : Store) (hwrite : s.writeFault s.operations key = none)
    (hkept : s'.value? key = (save r key m s).store.value? key)
    (hread : s'.readFault s'.operations key = none)
    (hagain : s''.writeFault s''.operations key = none) :
    decode m.toJson = .ok m.readBack ∧ (save r key m s).fault = none ∧
      (load key s').1 = .ok (r.trim m).readBack ∧
      (save r key (r.trim m).readBack s'').store.value? key =
        (save r key m s).store.value? key := by
  obtain ⟨hfault, hsaved⟩ := save_of_noFault hwrite r m
  obtain ⟨-, hresaved⟩ := save_of_noFault hagain r (r.trim m).readBack
  have hload := load_of_value? (hm.trim r) hread (hkept.trans hsaved)
  refine ⟨decode_toJson hm, hfault, hload, ?_⟩
  rw [hresaved, hsaved, trim_readBack, toJson_readBack, Retention.trim_trim]

namespace Sample

def moment : Timestamp := ⟨1704067200, 5000000⟩

def header (n : Nat) : Header :=
  ⟨Uuid.numbered n, if n % 2 = 0 then none else some n, moment, true, false⟩

def memory : WorkingMemory :=
  { runs := [{ toHeader := header 0, contextType := "root" }]
    steps := [{ toHeader := header 1, step := 1, type := "root" }]
    inputs := [{ toHeader := header 2, type := "ask", content := "why", data := some .null,
                 params := [("to", .str "me")], formatted := some "why?" }]
    outputs := [{ toHeader := header 3, type := "say", content := "so", data := some (.arr [.null]),
                  params := [], formatted := none }]
    calls := [{ toHeader := header 4, name := "note", content := "", data := none, params := [] },
              { toHeader := header 5, name := "note", content := "null", data := some .null,
                params := [] }]
    results := [{ toHeader := header 6, callId := Uuid.numbered 5, name := "note", data := .null,
                  formatted := some "done" }]
    events := [{ toHeader := header 7, name := "seen", data := .bool true, params := [] }]
    thoughts := [{ toHeader := header 8, content := "on" }]
    episodes := some [.str "before"] }

end Sample

theorem load_of_saved_sample :
    let saved := (save Retention.standard "memory" Sample.memory Store.empty).store
    Sample.memory.IsWritable ∧
      (load "memory" saved).1 = .ok (Retention.standard.trim Sample.memory).readBack ∧
      (Retention.standard.trim Sample.memory).readBack.calls.map (·.data) = [none, none] := by
  intro saved
  have hm : Sample.memory.IsWritable := by decide +kernel
  have hall := load_of_saved hm Retention.standard "memory" Store.empty saved saved rfl rfl rfl rfl
  exact ⟨hm, hall.2.2.1, rfl⟩

end WorkingMemory

end TagLedger
