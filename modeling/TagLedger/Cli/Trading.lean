import TagLedger.Catalog

/-!
The catalog of the stream runner: looking up a market, opening an order, and a message to the user.
-/

namespace TagLedger.Cli

/-- A member of a value, null if there is none. -/
def member (j : Json) (key : String) : Json := (j.get? key).getD .null

/-- An action that does nothing after an error or a success and is enabled everywhere. -/
def plainAction (name : String) (execute : Json → Script (Except RunError Json)) : Action where
  name := name
  schema := none
  retry := none
  memory := none
  contextType := none
  enabled := fun _ _ => true
  execute := fun _ _ data _ => execute data
  onError := fun e _ => .done (.error e)
  format := fun _ => none
  onSuccess := fun _ _ => .done (.ok ())

/-- The market of a symbol. -/
def marketName (symbol : String) : String := symbol ++ "-USD-PERP"

def getMarket : Action :=
  { plainAction "getMarket" fun data =>
      let symbol := ((data.get? "symbol").bind Json.str?).getD "BTC"
      .done (.ok (.obj [("market", .str (marketName symbol))])) with
    schema := some (.object [("symbol", .string)]) }

/-- An order book with one more open order. A book without a list of orders stays as it is. -/
def withOrder (order : Json) : Json → Json
  | .obj ms =>
    match Json.Members.get? ms "open" with
    | some (.arr orders) => .obj (Json.Members.insert ms "open" (.arr (orders ++ [order])))
    | _ => .obj ms
  | book => book

/-- Opens an order and keeps it in mind. -/
def openOrder : Action :=
  { plainAction "openOrder" fun data =>
      let order : Json :=
        .obj [("market", member data "market"), ("size", member data "size")]
      .updateMemory (withOrder order) (.emit "order:opened" order (.done (.ok order))) with
    schema := some (.object [("market", .string), ("size", .number)])
    memory := some ⟨"orders", .obj [("open", .arr [])]⟩
    format := fun r =>
      some ("opened " ++ (member r.data "market").compact ++ " x " ++
        (member r.data "size").compact) }

def message : OutputHandler where
  type := "cli:message"
  schema := some (.object [("message", .string)])
  enabled := fun _ _ => true
  handle := fun _ _ => .ok .unchanged
  format := fun data => (data.get? "message").bind Json.str?

def catalog : Catalog := ⟨[getMarket, openOrder], [message], []⟩

theorem catalog_valid : catalog.validate = .ok () := by rfl

theorem ofLists_catalog :
    Catalog.ofLists catalog.actions catalog.outputs catalog.inputs = .ok catalog := by rfl

end TagLedger.Cli
