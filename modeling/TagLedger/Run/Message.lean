import TagLedger.Run.Route

/-!
Messages of tasks, as the dispatcher takes them.
-/

namespace TagLedger.Run

/-- Ends the call that is waited for under an identifier. -/
def resolveSlot (id : Uuid) (state : CallState) (r : Run) : Run :=
  { r with
    ledger := { r.ledger with
      inFlight := r.ledger.inFlight - 1
      slots := CallSlot.resolve id state r.ledger.slots } }

/-- The call that the first entry of that identifier is, if it is one. -/
def chainCall? (id : Uuid) (chain : List Entry) : Option Entry.Call :=
  match chain.find? fun e => e.id == id with
  | some (.call c) => some c
  | _ => none

def replaceFirst (id : Uuid) (e : Entry) (chain : List Entry) : List Entry :=
  WorkingMemory.updateFirst (fun x => x.id == id) (fun _ => e) chain

/-- Notes the data of a call wherever the call is kept. -/
def patchCall (id : Uuid) (data : Json) (r : Run) : Run :=
  let memory := r.ledger.memory.setCallData id data
  match chainCall? id r.ledger.chain with
  | none => { r with ledger := { r.ledger with memory } }
  | some c =>
    let e : Entry := .call { c with data := some data }
    notify e true
      { r with ledger := { r.ledger with memory, chain := replaceFirst id e r.ledger.chain } }

def receive (m : Message) (r : Run) : Run :=
  match m with
  | .push e => r.push e
  | .prepared id data => r.patchCall id data
  | .failed id err =>
    ((r.resolveSlot id (.failed err.message)).recordError err).commitSubstitutes err
  | .completed result =>
    (r.resolveSlot result.callId (.completed result)).commit (.result result)

def deliver (r : Run) : Run :=
  match r.inbox with
  | [] => r
  | m :: rest => receive m { r with inbox := rest }

end TagLedger.Run
