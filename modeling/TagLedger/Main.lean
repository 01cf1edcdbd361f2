import Std.Time.DateTime.Timestamp
import TagLedger.Audit.Sha256
import TagLedger.Cli.Report
import TagLedger.Uuid

/-!
The stream runner: plays the transcript in the file that is named on the command line, or a
transcript of its own, and prints the committed chain. Identifiers are drawn from a seed, in the
layout of version four.
-/

namespace TagLedger.Cli

/-- The bits of an identifier that the layout leaves free. -/
def freeBits : BitVec 128 := 0xffffffffffff0fff3fffffffffffffff#128

/-- The bits that the layout sets. -/
def layoutBits : BitVec 128 := 0x00000000000040008000000000000000#128

/-- The identifier with that number. -/
def seededId (seed : String) (n : Nat) : Uuid :=
  let digits := (Sha256.hexDigest (seed ++ ":" ++ toString n)).toList.take 32
  let value := BitVec.ofNat 128 ((Uuid.ofHex? digits).getD 0)
  ⟨value &&& freeBits ||| layoutBits⟩

/-- The variables of the environment that matter. -/
def readEnvironment : IO Config.Environment :=
  Config.variableNames.filterMapM fun name => do
    return (← IO.getEnv name).map fun value => (name, value)

/-- The transcript of the command line. -/
def readTranscript : List String → IO (Except Failure String)
  | [] => return .ok demoTranscript
  | path :: _ => do
    try
      return .ok (← IO.FS.readFile path)
    catch
      | .noFileOrDirectory _ _ _ => return .error .missingFile
      | e => return .error (.unreadableFile (toString e))

def now : IO Timestamp := do
  let t ← Std.Time.Timestamp.now
  return ⟨t.val.second.val, t.val.nano.val.toNat⟩

def seed : IO String := do
  let bytes ← IO.getRandomBytes 16
  return " ".intercalate (bytes.toList.map fun b => toString b)

end TagLedger.Cli

open TagLedger.Cli in
def main (args : List String) : IO UInt32 := do
  let env ← readEnvironment
  let transcript ← readTranscript args
  let outcome := perform env transcript (seededId (← seed)) (← now)
  outcome.printed.forM fun line => IO.println line
  outcome.complaints.forM fun line => IO.eprintln line
  return outcome.code.toUInt32
