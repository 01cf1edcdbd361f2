import TagLedger.Run.Basic

/-!
Commits: an entry is added to the chain and to working memory, a result is kept as an episode, the
trimmed memory is written, and the subscribers are told. A failed write is an error of the run and
stops nothing.
-/

namespace TagLedger.Run

def notify (e : Entry) (done : Bool) (r : Run) : Run :=
  { r with ledger := { r.ledger with subscribers := r.ledger.subscribers.notify ⟨e, done⟩ } }

def addErrors (texts : List String) (r : Run) : Run :=
  { r with ledger := { r.ledger with errors := r.ledger.errors ++ texts } }

def recordError (e : RunError) (r : Run) : Run := r.addErrors [e.message]

def append (e : Entry) (r : Run) : Run :=
  { r with
    ledger := { r.ledger with
      chain := r.ledger.chain ++ [e]
      memory := r.ledger.memory.push e } }

/-- The call that an episode tells of: the call of the result if memory still has it, or else the
last call. -/
def episodeCall? (m : WorkingMemory) (result : Entry.Result) : Option Entry.Call :=
  (m.call? result.callId).or m.lastCall?

/-- Keeps a result as an episode, if there was a thought and a call. -/
def recordEpisode (result : Entry.Result) (r : Run) : Run :=
  match r.ledger.memory.lastThought?, episodeCall? r.ledger.memory result with
  | some thought, some call =>
    let episode := Episode.ofResult r.nextId r.time thought call result
    let kept := r.ledger.archive.upsert r.setup.context.id [episode.toJson]
    { r.draw 1 with ledger := { r.ledger with archive := kept.2 } }
  | _, _ => r

def recordResult (e : Entry) (r : Run) : Run :=
  match e with
  | .result result => r.recordEpisode result
  | _ => r

def persist (r : Run) : Run :=
  let saved :=
    WorkingMemory.save r.setup.config.retention r.memoryKey r.ledger.memory r.store
  let r := { r with store := saved.store, ledger := { r.ledger with memory := saved.memory } }
  r.addErrors (saved.fault.map RunError.message).toList

def commit (e : Entry) (r : Run) : Run :=
  (((r.append e).recordResult e).persist).notify e true

def commitAll (es : List Entry) (r : Run) : Run := es.foldl (fun r e => r.commit e) r

end TagLedger.Run
