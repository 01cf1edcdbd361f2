import TagLedger.Cli.Trading
import TagLedger.Run.Session
import TagLedger.Text.Pieces

/-!
Transcripts: the recorded output of a model, one text for each step. A transcript is streamed in
small pieces; a further step is taken only while the run wants one.
-/

namespace TagLedger.Cli

/-- No run has more steps. -/
def maxSteps : Nat := 4

/-- How many characters arrive at once. -/
def chunkSize : Nat := 12

/-- What stands between the texts of two steps. -/
def stepSeparator : Text := "\n---\n".toList

def stepTexts (transcript : Text) : List Text := Text.pieces stepSeparator maxSteps transcript

def chunks (text : Text) : List StreamItem := (Text.chunksOf chunkSize text).map .chunk

/-- Takes in the text of one step and waits for its calls. -/
def playStep (text : Text) (s : Session) : Session := (s.consume (chunks text)).2.settle

/-- Takes in the texts of further steps while the run wants another one. -/
def playSteps : List Text → Session → Session
  | [], s => s
  | text :: rest, s =>
    if s.run.shouldContinue then playSteps rest (playStep text (s.move .nextStep)) else s

/-- Plays a transcript in a new run. -/
def play (config : Config) (ids : Nat → Uuid) (epoch : Timestamp) (transcript : Text) :
    RunRecord :=
  let setup : Setup :=
    { config, catalog
      context := ⟨"cli:demo", "cli", .obj []⟩
      subContexts := []
      resolver := none
      policy := ContinuePolicy.onCalls
      ids, epoch }
  let started := (Session.new (Run.new setup Store.empty Archive.empty Subscribers.empty)).start.2
  let played :=
    match stepTexts transcript with
    | [] => started
    | text :: rest => playSteps rest (playStep text started)
  played.finish.1

/-- A transcript to show what the runner does. -/
def demoTranscript : String :=
  "<think>The user wants a BTC position. Look up the market first.</think>\n" ++
  "<action_call name=\"getMarket\">\x7b\"symbol\": \"BTC\"\x7d</action_call>\n" ++
  "<action_call name=\"openOrder\">\x7b\"market\": \"\x7b\x7bcalls.0.data.market\x7d\x7d\", " ++
  "\"size\": 0.1\x7d</action_call>\n" ++
  "---\n" ++
  "<think>Order is open, tell the user.</think>\n" ++
  "<response><output type=\"cli:message\">" ++
  "\x7b\"message\": \"Opened 0.1 on BTC-USD-PERP\"\x7d</output></response>\n"

end TagLedger.Cli
