import TagLedger.Cli.Transcript
import TagLedger.Config.Reader
import TagLedger.Text.Printable

/-!
What the stream runner prints: the committed chain, the run and its errors, or why there is none.
-/

namespace TagLedger.Cli

inductive Failure where
  | config (fault : Config.Fault)
  | missingFile
  | unreadableFile (reason : String)
deriving DecidableEq, Repr

def quotedText (s : String) : String := String.ofList (Text.quoted s.toList)

def Failure.description : Failure → String
  | .config f => "InvalidConfig(" ++ quotedText f.message ++ ")"
  | .missingFile =>
    "Os \x7b code: 2, kind: NotFound, message: " ++ quotedText "No such file or directory" ++
      " \x7d"
  | .unreadableFile reason => "Custom(" ++ quotedText reason ++ ")"

structure Outcome where
  code : Nat
  printed : List String
  complaints : List String
deriving DecidableEq, Repr

def errorLines (errors : List String) : List String :=
  if errors.isEmpty then []
  else
    "" :: "Errors:" :: errors.zipIdx.map fun e =>
      "  " ++ toString (e.2 + 1) ++ ": " ++ e.1

def recordLines (r : RunRecord) : List String :=
  ["", "=== COMMITTED CHAIN ===", (Json.arr (r.chain.map Entry.toJson)).indented, "",
    "Run ID: " ++ r.runId.toString, "Steps: " ++ toString r.steps,
    "Chain hash: " ++ r.chainHash] ++ errorLines r.errors

/-- Plays a transcript with the configuration of an environment. The environment is looked at before
the transcript. -/
def perform (env : Config.Environment) (transcript : Except Failure String) (ids : Nat → Uuid)
    (epoch : Timestamp) : Outcome :=
  let result : Except Failure RunRecord := do
    let config ← (Config.fromEnvironment env).mapError .config
    let text ← transcript
    return play config ids epoch text.toList
  match result with
  | .ok r => ⟨0, recordLines r, []⟩
  | .error f => ⟨1, [], ["Error: " ++ f.description]⟩

end TagLedger.Cli
