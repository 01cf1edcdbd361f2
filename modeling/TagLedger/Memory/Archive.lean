import TagLedger.Entry.Codec
import TagLedger.Json.Printer
import TagLedger.Memory.Snapshot
import TagLedger.Text.Alphanumeric
import TagLedger.Text.Lowercase

/-!
Episodes and the archive they are recalled from. Documents are kept for each context. A query is
compared with a document word by word: the score is the number of different words that the query and
the written document share.
-/

namespace TagLedger

/-- What an action was asked for, after which thought, and what came of it. -/
structure Episode where
  id : Uuid
  thought : String
  action : String
  call : Json
  result : Json
  timestamp : Timestamp
deriving DecidableEq, Repr

namespace Episode

/-- The call is told by its payload, or by its text when it has none. -/
def ofResult (id : Uuid) (now : Timestamp) (thought : Entry.Thought) (call : Entry.Call)
    (result : Entry.Result) : Episode where
  id := id
  thought := thought.content
  action := call.name
  call := call.data.getD (.str call.content)
  result := result.data
  timestamp := now

def toJson (e : Episode) : Json :=
  .obj [("id", e.id.toJson), ("thought", .str e.thought), ("action", .str e.action),
    ("call", e.call), ("result", e.result), ("timestamp", e.timestamp.toJson)]

end Episode

/-- The documents of every context. -/
structure Archive where
  buckets : List (String × List Json)
  /-- How many queries and insertions there were. -/
  operations : Nat
  queryFault : FaultPlan
  upsertFault : FaultPlan

namespace Archive

def empty : Archive := ⟨[], 0, FaultPlan.none, FaultPlan.none⟩

/-- How many documents a query gives at most. -/
def topCount : Nat := 5

/-- The different words of a text in lower case. -/
def words (t : Text) : List Text :=
  (((Text.splitBy (fun c => !Text.isAlphanumeric c) t).filter fun w => !w.isEmpty).map
    Text.lowercase).eraseDups

/-- How many words a document shares with the wanted ones. -/
def score (wanted : List Text) (doc : Json) : Nat :=
  ((words doc.toText).filter wanted.contains).length

def hasId (id : Json) (doc : Json) : Bool :=
  match doc.get? "id" with
  | some other => other.sameValue id
  | none => false

/-- Replaces the first document with the same `id`, or adds the document at the end. -/
def place (docs : List Json) (doc : Json) : List Json :=
  match (doc.get? "id").bind fun id => docs.findIdx? (hasId id) with
  | some i => docs.set i doc
  | none => docs ++ [doc]

/-- A document with its score and its place among the documents of the context. -/
structure Hit where
  score : Nat
  position : Nat
  doc : Json

/-- Whether a hit comes before another: higher scores first, later documents first on ties. -/
def Hit.precedes (a b : Hit) : Bool :=
  b.score < a.score || (a.score == b.score && b.position ≤ a.position)

def hits (wanted : List Text) (docs : List Json) : List Hit :=
  (docs.zipIdx.map fun d => ⟨score wanted d.1, d.2, d.1⟩).filter fun h => 0 < h.score

/-- The best documents for a query. -/
def best (query : Text) (docs : List Json) : List Json :=
  (((hits (words query) docs).mergeSort Hit.precedes).take topCount).map (·.doc)

def bucket (r : Archive) (context : String) : List Json := (r.buckets.lookup context).getD []

def count (r : Archive) (context : String) : Nat := (r.bucket context).length

/-- Replaces the bucket of a context, or adds it. -/
def setBucket (context : String) (docs : List Json) :
    List (String × List Json) → List (String × List Json)
  | [] => [(context, docs)]
  | b :: bs => if b.1 = context then (context, docs) :: bs else b :: setBucket context docs bs

def counted (r : Archive) : Archive := { r with operations := r.operations + 1 }

def upsert (r : Archive) (context : String) (docs : List Json) : Option RunError × Archive :=
  match r.upsertFault r.operations context with
  | some e => (some e, r.counted)
  | none =>
    (none, { r.counted with
      buckets := setBucket context (docs.foldl place (r.bucket context)) r.buckets })

def query (r : Archive) (context : String) (text : Text) : Except RunError (List Json) × Archive :=
  match r.queryFault r.operations context with
  | some e => (.error e, r.counted)
  | none => (.ok (best text (r.bucket context)), r.counted)

end Archive

end TagLedger
