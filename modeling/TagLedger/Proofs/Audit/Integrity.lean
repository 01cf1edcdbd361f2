import TagLedger.Audit.Record
import TagLedger.Proofs.Entry.Written

/-!
What the hash of a chain tells. If neither the digest nor the text confuses the two chains that are
compared, a record is intact only if its chain is the one that was hashed, entry by entry, but for
data that is null. A log holds the last record of each run, and its two readers, the check and the
replay, come to the same verdict.
-/

namespace TagLedger

/-- The value whose compact text is hashed. -/
def chainJson (chain : List Entry) : Json := .arr (chain.map Entry.toJson)

/-- Whether two chains are the same, entry by entry, but for data that is null. -/
def SameChain (c d : List Entry) : Prop := c.map Entry.readBack = d.map Entry.readBack

instance (c d : List Entry) : Decidable (SameChain c d) :=
  inferInstanceAs (Decidable (_ = _))

/-- Chains of writable entries are written alike only if they are the same. -/
theorem chainJson_eq_iff {c d : List Entry} (hc : ∀ e ∈ c, e.IsWritable)
    (hd : ∀ e ∈ d, e.IsWritable) : chainJson c = chainJson d ↔ SameChain c d := by
  rw [chainJson, chainJson, Json.arr.injEq, SameChain]
  induction c generalizing d with
  | nil => cases d <;> simp
  | cons e c ih =>
    cases d with
    | nil => simp
    | cons f d =>
      have hrest := ih (fun e he => hc e (List.mem_cons_of_mem _ he))
        (fun f hf => hd f (List.mem_cons_of_mem _ hf))
      have hfirst := Entry.toJson_eq_iff (hc e List.mem_cons_self) (hd f List.mem_cons_self)
      simp only [List.map_cons, List.cons.injEq, hfirst, hrest]

/-- Whether the hash tells two chains apart: the digest does not collide on their texts, and the
text determines the value. -/
structure HashTells (c d : List Entry) : Prop where
  digest : Sha256.hexDigest (chainText c) = Sha256.hexDigest (chainText d) →
    chainText c = chainText d
  text : (chainJson c).compact = (chainJson d).compact → chainJson c = chainJson d

theorem isIntact_iff {r : RunRecord} {c : List Entry} (hhash : r.chainHash = chainHash c)
    (hstored : ∀ e ∈ r.chain, e.IsWritable) (hc : ∀ e ∈ c, e.IsWritable)
    (htells : HashTells r.chain c) :
    r.isIntact = true ↔ SameChain r.chain c := by
  rw [RunRecord.isIntact, beq_iff_eq, hhash, ← chainJson_eq_iff hstored hc]
  constructor
  · intro h
    exact htells.text (htells.digest h)
  · intro h
    have htext : chainText r.chain = chainText c := congrArg Json.compact h
    rw [chainHash, chainHash, htext]

namespace AuditLog

/-- A record is found under its run, and changes nothing under other runs. -/
theorem get?_record (log : AuditLog) (r : RunRecord) (id : Uuid) :
    (log.record r).get? id = if r.runId = id then some r else log.get? id := by
  obtain ⟨rs⟩ := log
  simp only [record, get?]
  induction rs with
  | nil => by_cases h : r.runId = id <;> simp [insertRecord, h]
  | cons x rs ih =>
    rw [insertRecord]
    by_cases hsame : x.runId = r.runId
    · rw [if_pos hsame]
      by_cases h : r.runId = id
      · simp [h]
      · simp [hsame, h]
    · rw [if_neg hsame, List.find?_cons, ih]
      by_cases h : r.runId = id
      · have hx : (x.runId == id) = false := by simpa [← h] using hsame
        simp [hx, h]
      · simp [List.find?_cons, h]

def recorded (rs : List RunRecord) (log : AuditLog) : AuditLog := rs.foldl record log

/-- A log holds the last record of each run. -/
theorem get?_recorded (rs : List RunRecord) (log : AuditLog) (id : Uuid) :
    (recorded rs log).get? id = (rs.reverse.find? fun r => r.runId == id).or (log.get? id) := by
  induction rs generalizing log with
  | nil => rfl
  | cons r rs ih =>
    have hrest := ih (log.record r)
    rw [get?_record] at hrest
    rw [recorded, List.foldl_cons, ← recorded, hrest, List.reverse_cons, List.find?_append,
      Option.or_assoc]
    by_cases h : r.runId = id <;> simp [h]

/-- Replaying fails exactly when the check does, for a run that is recorded. -/
theorem replay_fails_iff {log : AuditLog} {id : Uuid} {r : RunRecord} (h : log.get? id = some r)
    (ret : Retention) : (∃ e, log.replay ret id = .error e) ↔ log.verify id = false := by
  simp only [replay, verify, h]
  cases hintact : r.isIntact <;> simp

/-- Whatever was recorded, in whatever order and however often, the check of a recorded run looks at
its last record. It succeeds iff the chain that is stored is the one that was hashed, and replaying
fails exactly when it does not. -/
theorem verify_recorded_iff {rs : List RunRecord} {id : Uuid} (h : id ∈ rs.map (·.runId)) :
    let log := recorded rs empty
    ∃ r ∈ rs, r.runId = id ∧ (rs.reverse.find? fun x => x.runId == id) = some r ∧
      log.get? id = some r ∧
      (∀ c, r.chainHash = chainHash c → (∀ e ∈ r.chain, e.IsWritable) → (∀ e ∈ c, e.IsWritable) →
        HashTells r.chain c → (log.verify id = true ↔ SameChain r.chain c)) ∧
      ∀ ret, (∃ e, log.replay ret id = .error e) ↔ log.verify id = false := by
  intro log
  obtain ⟨x, hx, hid⟩ := List.mem_map.mp h
  have hfound : (rs.reverse.find? fun r => r.runId == id).isSome = true := by
    rw [List.find?_isSome]
    exact ⟨x, List.mem_reverse.mpr hx, beq_iff_eq.mpr hid⟩
  obtain ⟨r, hr⟩ := Option.isSome_iff_exists.mp hfound
  have hget : log.get? id = some r := by
    rw [get?_recorded, hr]
    rfl
  refine ⟨r, List.mem_reverse.mp (List.mem_of_find?_eq_some hr), ?_, hr, hget, ?_, ?_⟩
  · simpa using List.find?_some hr
  · intro c hhash hstored hc htells
    rw [← isIntact_iff hhash hstored hc htells, verify, hget]
  · exact replay_fails_iff hget

namespace Sample

def header : Header := ⟨Uuid.nil, none, ⟨0, 0⟩, true, false⟩

def run : Entry := .run { toHeader := header, contextType := "" }

def call (data : Option Json) : Entry :=
  .call { toHeader := header, name := "note", content := "", data, params := [] }

/-- A record of a run whose hash was computed from another chain. -/
def record (id : Uuid) (hashed stored : List Entry) : RunRecord :=
  { runId := id, contextId := "main", contextType := "root", chain := stored, errors := [],
    steps := 1, startedAt := ⟨0, 0⟩, finishedAt := ⟨0, 0⟩, chainHash := chainHash hashed }

theorem chainHash_record (id : Uuid) (hashed stored : List Entry) :
    (record id hashed stored).chainHash = chainHash hashed := rfl

/-- The first run is recorded again without its entry; the second keeps its entry, but null data. -/
def records : List RunRecord :=
  [record (Uuid.numbered 1) [run] [run],
    record (Uuid.numbered 2) [call (some .null)] [call none],
    record (Uuid.numbered 1) [run] []]

theorem hashTells_dropped : HashTells [] [run] :=
  ⟨fun h => absurd h (by decide +kernel), fun h => absurd h (by decide +kernel)⟩

theorem hashTells_null : HashTells [call none] [call (some .null)] := ⟨fun _ => rfl, fun _ => rfl⟩

end Sample

theorem verify_recorded_sample :
    let log := recorded Sample.records empty
    log.verify (Uuid.numbered 1) = false ∧
      (∃ e, log.replay Retention.standard (Uuid.numbered 1) = .error e) ∧
      log.verify (Uuid.numbered 2) = true := by
  intro log
  obtain ⟨r, -, -, hlast, -, hiff, hreplay⟩ := verify_recorded_iff
    (show Uuid.numbered 1 ∈ Sample.records.map (·.runId) by decide +kernel)
  obtain ⟨x, -, -, hlast', -, hiff', -⟩ := verify_recorded_iff
    (show Uuid.numbered 2 ∈ Sample.records.map (·.runId) by decide +kernel)
  have hr : Sample.record (Uuid.numbered 1) [Sample.run] [] = r := Option.some.inj hlast
  have hx : Sample.record (Uuid.numbered 2) [Sample.call (some .null)] [Sample.call none] = x :=
    Option.some.inj hlast'
  subst hr hx
  have hdropped := hiff [Sample.run] (Sample.chainHash_record _ _ _) (by decide +kernel)
    (by decide +kernel) Sample.hashTells_dropped
  have hnull := hiff' [Sample.call (some .null)] (Sample.chainHash_record _ _ _)
    (by decide +kernel) (by decide +kernel) Sample.hashTells_null
  have hfails : log.verify (Uuid.numbered 1) = false :=
    Bool.eq_false_iff.mpr fun h => absurd (hdropped.mp h) (by decide)
  exact ⟨hfails, (hreplay Retention.standard).mpr hfails, hnull.mpr rfl⟩

end AuditLog

end TagLedger
