/-
# The chain API's table rows

`get_table_rows` of `antelope/api/v1/chain.cpp`: how it normalizes a query before it
is sent, and what it makes of the node's answer.
-/
import Dwarfkit.Antelope.Serializer.Traits

namespace Dwarfkit

/-- `GetTableRowsResponse`. -/
structure GetTableRowsResponse where
  rows : Json := .arr []
  more : Bool := false
  next_key : Json := .null
  ram_payers : Option (List Name) := none

namespace ChainAPI

/-- The key type of a query: names when none is given. -/
def keyTypeOf (params : Json) : Result Str := do
  let key_type ← params.valueStr "key_type" ""
  return if key_type = [] then "name" else key_type

/-- The scope of a query: the code when none is given, and the json text of anything
but a string. -/
def scopeOf (dump : Json → Str) (params : Json) : Result Str :=
  match params.find "scope" with
  | none => do
    let code ← params.valueStr "code" ""
    return (Name.ofString code).toString
  | some (.str s) => .ok s
  | some j => .ok (dump j)

/-- A limit given as text is read. -/
def limitOf (members : List (Str × Json)) : Result (List (Str × Json)) :=
  match Json.lookup members "limit" with
  | some (.str text) =>
    match stoull text with
    | some n => .ok (Json.insert members "limit" (.uint (UInt64.ofInt n)))
    | none => thrown "stoul"
  | _ => .ok members

/-- A bound that is neither text nor null is sent as its json text. -/
def boundAsText (dump : Json → Str) (bound : Str) (members : List (Str × Json)) :
    List (Str × Json) :=
  match Json.lookup members bound with
  | none | some (.str _) | some .null => members
  | some j => Json.insert members bound (.str (dump j))

/-- The request `get_table_rows_impl` sends, and whether it asks for the payers. -/
def tableRowsRequest (dump : Json → Str) (params : List (Str × Json))
    (defaultJson : Option Bool) : Result (Json × Bool) := do
  let key_type ← keyTypeOf (.obj params)
  let jsonRows ← match Json.lookup params "json" with
    | some j => j.getBool
    | none => .ok (defaultJson.getD true)
  let scope ← scopeOf dump (.obj params)
  let code ← (Json.obj params).valueStr "code" ""
  let request := Json.insert params "code" (.str (Name.ofString code).toString)
  let table ← (Json.obj request).valueStr "table" ""
  let request := Json.insert request "table" (.str (Name.ofString table).toString)
  let request ← limitOf request
  let request := Json.insert request "scope" (.str scope)
  let request := Json.insert request "key_type" (.str key_type)
  let request := Json.insert request "json" (.bool jsonRows)
  let request := boundAsText dump "lower_bound" (boundAsText dump "upper_bound" request)
  let showPayer ← (← (Json.obj request).valueOr "show_payer" (.bool false)).getBool
  return (.obj request, showPayer)

/-- The next key as it is sent back: names come as the text of an integer. -/
def nextKeyText (key_type raw : Str) : Result Str :=
  if key_type = lit "name" then
    match stoull raw with
    | some n => .ok (Name.mk (UInt64.ofInt n)).toString
    | none => err .invalid "Invalid next_key"
  else if key_type ∈ [lit "i64", lit "i128", lit "float64", lit "float128", lit "sha256",
      lit "ripemd160"] then .ok raw
  else err .invalid (lit "Unsupported key type: " ++ key_type)

/-- A row of an answer with payers: the payer and the row itself. -/
def unwrapPayer (row : Json) : Result (Name × Json) := do
  let payer ← row.valueStr "payer" ""
  let data ← row.valueOr "data" .null
  return (.ofString payer, data)

/-- The rows of an answer, and their payers if it has them. -/
def unwrapRows (showPayer : Bool) (rows : Json) : Result (Json × Option (List Name)) :=
  if showPayer then do
    let unwrapped ← rows.elements.mapM unwrapPayer
    return (.arr (unwrapped.map Prod.snd), some (unwrapped.map Prod.fst))
  else .ok (rows, none)

/-- What `get_table_rows_impl` makes of the node's answer. -/
def tableRowsResponse (key_type : Str) (showPayer : Bool) (response : Json) :
    Result GetTableRowsResponse := do
  let more ← (← response.valueOr "more" (.bool false)).getBool
  let rows ← response.valueOr "rows" (.arr [])
  let (rows, payers) ← unwrapRows showPayer rows
  let next_key ← response.valueOr "next_key" .null
  match next_key with
  | .str raw =>
    if raw = [] then return { rows := rows, more := more, ram_payers := payers }
    else
      let text ← nextKeyText key_type raw
      return { rows := rows, more := more, next_key := .str text, ram_payers := payers }
  | _ => return { rows := rows, more := more, ram_payers := payers }

/-- `get_table_rows_impl`, with the node's side of `call`. -/
def get_table_rows_impl (dump : Json → Str) (call : Json → Result Json)
    (params : List (Str × Json)) (defaultJson : Option Bool) : Result GetTableRowsResponse := do
  let key_type ← keyTypeOf (.obj params)
  let (request, showPayer) ← tableRowsRequest dump params defaultJson
  let response ← call request
  tableRowsResponse key_type showPayer response

/-- `get_table_rows`. -/
def get_table_rows (dump : Json → Str) (call : Json → Result Json)
    (params : List (Str × Json)) : Result GetTableRowsResponse :=
  get_table_rows_impl dump call params none

end ChainAPI

end Dwarfkit
