import TagLedger.Audit.Sha256
import TagLedger.Error
import TagLedger.Json.Printer
import TagLedger.Memory.Retention

/-!
Records of finished runs. A record holds the committed chain and a hash of it, so that it can be
checked and replayed later.
-/

namespace TagLedger

/-- The text that is hashed: the chain as a compact JSON array. -/
def chainText (chain : List Entry) : String := (Json.arr (chain.map Entry.toJson)).compact

def chainHash (chain : List Entry) : String := Sha256.hexDigest (chainText chain)

structure RunRecord where
  /-- The identifier of the entry that opened the run. -/
  runId : Uuid
  contextId : String
  contextType : String
  chain : List Entry
  errors : List String
  steps : Nat
  startedAt : Timestamp
  finishedAt : Timestamp
  chainHash : String
deriving DecidableEq, Repr

namespace RunRecord

/-- Whether the chain has the hash that was recorded. -/
def isIntact (r : RunRecord) : Bool := TagLedger.chainHash r.chain == r.chainHash

def toJson (r : RunRecord) : Json :=
  .obj [("run_id", r.runId.toJson), ("context_id", .str r.contextId),
    ("context_type", .str r.contextType), ("chain", .arr (r.chain.map Entry.toJson)),
    ("errors", .arr (r.errors.map .str)), ("steps", Json.ofNat r.steps),
    ("started_at", r.startedAt.toJson), ("finished_at", r.finishedAt.toJson),
    ("chain_hash", .str r.chainHash)]

/-- The working memory that a chain leads to: each entry is added and the memory trimmed. -/
def rebuild (retention : Retention) (m : WorkingMemory) (chain : List Entry) : WorkingMemory :=
  chain.foldl (fun m e => retention.trim (m.push e)) m

end RunRecord

/-- The records of runs, one for each run. -/
structure AuditLog where
  records : List RunRecord
deriving Repr

namespace AuditLog

def empty : AuditLog := ⟨[]⟩

/-- Replaces the record of the same run, or adds the record. -/
def insertRecord (r : RunRecord) : List RunRecord → List RunRecord
  | [] => [r]
  | x :: xs => if x.runId = r.runId then r :: xs else x :: insertRecord r xs

def record (log : AuditLog) (r : RunRecord) : AuditLog := ⟨insertRecord r log.records⟩

def get? (log : AuditLog) (runId : Uuid) : Option RunRecord :=
  log.records.find? (·.runId == runId)

/-- The runs of a context, the oldest first. -/
def runsOf (log : AuditLog) (contextId : String) : List Uuid :=
  ((log.records.filter (·.contextId == contextId)).mergeSort
    fun a b => a.startedAt.le b.startedAt).map (·.runId)

/-- Whether a run is recorded and its record intact. -/
def verify (log : AuditLog) (runId : Uuid) : Bool :=
  match log.get? runId with
  | some r => r.isIntact
  | none => false

/-- The working memory of a recorded run; an error if its record is not intact. -/
def replay (log : AuditLog) (retention : Retention) (runId : Uuid) :
    Except RunError (Option WorkingMemory) :=
  match log.get? runId with
  | none => .ok none
  | some r =>
    if r.isIntact then .ok (some (RunRecord.rebuild retention WorkingMemory.empty r.chain))
    else
      .error (.failure .store ("run " ++ runId.toString ++ " failed integrity verification"))

end AuditLog

end TagLedger
