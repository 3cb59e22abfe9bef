/-
# Table cursors

`TableCursor` and `TableRowCursor` of `contract/table.cpp`, over the `get_table_rows`
of a node that keeps its rows in key order.

* `next_spec` : the page one call to `next` returns, and the state it leaves;
* `all_forward` : a forward cursor returns all matching rows up to its maximum;
* `all_complete_iff` : a reverse one does so exactly when its first page already holds
  them, or the rows happen to repeat.
-/
import Dwarfkit.Antelope.Api.Chain
import Dwarfkit.Antelope.Chain.Abi
import Dwarfkit.Library.Paging

namespace Dwarfkit

/-- `wrapIndexValue`: numbers become unsigned integers, anything else passes. -/
def wrapIndexValue (value : Json) : Json :=
  match value with
  | .null => .null
  | .uint n => uint64ToJSON n
  | .int n => uint64ToJSON n.toUInt64
  | .float d =>
    -- what cannot be cast to an unsigned integer is no table index
    if d.bits >>> 52 &&& 0x7ff = 0x7ff ∨ (d.bits >>> 63 = 1 ∧ d.isZero = false) ∨
      2 ^ 64 ≤ d.trunc then .null
    else uint64ToJSON (UInt64.ofInt d.trunc)
  | j => j

/-! ## The cursor -/

/-- `Number.MAX_SAFE_INTEGER`. -/
def unlimited : ℤ := 9007199254740991

/-- What a cursor is made with; the parameters are an object. -/
structure TableCursorArgs where
  abi : ABI
  params : List (Str × Json)
  maxRows : Option Int64 := none

/-- The state of a cursor. -/
structure TableCursor where
  abi : ABI
  type : Str
  params : List (Str × Json)
  next_key : Json := .null
  endReached : Bool := false
  rowsCount : ℤ := 0
  maxRows : ℤ := unlimited

/-- What a cursor calls: the node, the json text of a value, and the decoder of binary
rows by their type. -/
structure TableClient where
  call : Json → Result Json
  dump : Json → Str
  decode : ABI → Str → Bytes → Result Json

namespace TableCursor

/-- `init`: the defaults overridden by the given parameters. -/
def init (args : TableCursorArgs) : Result TableCursor := do
  let defaults : List (Str × Json) := [(lit "json", .bool false), (lit "limit", .int 1000)]
  let params := args.params.foldl (fun members item => Json.insert members item.1 item.2) defaults
  let tableName ← (Json.obj params).valueStr "table" ""
  match args.abi.tables.find? (fun t => t.name = Name.ofString tableName) with
  | some table =>
    return { abi := args.abi, type := table.type, params := params
             maxRows := (args.maxRows.map Int64.toInt).getD unlimited }
  | none => err .notFound "Table not found"

/-- `reset`. -/
def reset (c : TableCursor) : TableCursor :=
  { c with next_key := .null, endReached := false, rowsCount := 0 }

/-- Is there no further key? -/
def noNextKey (next_key : Json) : Bool := next_key = .null ∨ next_key = .str []

/-- A member of the query that is left out when null. -/
def setBound (query : List (Str × Json)) (bound : Str) (value : Json) : List (Str × Json) :=
  if value = .null then Json.erase query bound else Json.insert query bound value

/-- `getTableRowsParams`: the next key replaces the lower bound, and the limit is the
lowest of the rows remaining, the rows per request and the configured one. -/
def getTableRowsParams (c : TableCursor) (rowsPerAPIRequest : ℤ) :
    Result (List (Str × Json)) := do
  let lower_bound := if c.next_key ≠ .null then c.next_key
    else (Json.obj c.params).jsonAt "lower_bound"
  let rowsRemaining := c.maxRows - c.rowsCount
  let configured ← (← (Json.obj c.params).valueOr "limit" (.int 1000)).getInt64
  let limit := min (min rowsRemaining rowsPerAPIRequest) configured
  let query := Json.insert c.params "limit" (.int (Int64.ofInt limit))
  let query := setBound query "lower_bound" (wrapIndexValue lower_bound)
  return setBound query "upper_bound" (wrapIndexValue ((Json.obj c.params).jsonAt "upper_bound"))

/-- A row of the answer: hex text is decoded unless the node did that. -/
def decodeRow (client : TableClient) (c : TableCursor) (requiresDecoding : Bool) (row : Json) :
    Result Json :=
  match requiresDecoding, row with
  | true, .str hex => do
    let data ← hexToArray hex
    client.decode c.abi c.type data
  | _, _ => .ok row

/-- `TableRowCursor::next`. -/
def next (client : TableClient) (c : TableCursor) (rowsPerAPIRequest : ℤ) :
    Result (List Json × TableCursor) :=
  if c.endReached then .ok ([], c)
  else do
    let query ← c.getTableRowsParams rowsPerAPIRequest
    let result ← ChainAPI.get_table_rows client.dump client.call query
    let asJson ← (← (Json.obj query).valueOr "json" (.bool false)).getBool
    let rows ← result.rows.elements.mapM (decodeRow client c (!asJson))
    let rowsCount := c.rowsCount + rows.length
    return (rows, { c with
      next_key := result.next_key
      rowsCount := rowsCount
      endReached := noNextKey result.next_key || rows.isEmpty || rowsCount = c.maxRows })

/-- The loop of `all`, in at most `fuel` rounds. -/
def allLoop (client : TableClient) : (fuel : ℕ) → TableCursor → List Json →
    Option (Result (List Json))
  | 0, _, _ => none
  | fuel + 1, c, rows =>
    match c.next client unlimited with
    | .error e => some (.error e)
    | .ok (batch, c) =>
      if batch = [] ∨ noNextKey c.next_key then some (.ok (rows ++ batch))
      else allLoop client fuel c (rows ++ batch)

/-- `all` returns `rows`. -/
def AllReturns (client : TableClient) (c : TableCursor) (rows : List Json) : Prop :=
  ∃ fuel, allLoop client fuel c [] = some (.ok rows)

/-- More rounds change nothing. -/
theorem allLoop_more (client : TableClient) {fuel : ℕ} {c : TableCursor} {rows : List Json}
    {result : Result (List Json)} (h : allLoop client fuel c rows = some result) (extra : ℕ) :
    allLoop client (fuel + extra) c rows = some result := by
  induction fuel generalizing c rows with
  | zero => cases h
  | succ fuel ih =>
    rw [Nat.add_right_comm]
    unfold allLoop at h ⊢
    cases hnext : c.next client unlimited with
    | error e =>
      rw [hnext] at h
      exact h
    | ok answer =>
      obtain ⟨batch, c'⟩ := answer
      rw [hnext] at h
      by_cases hend : batch = [] ∨ noNextKey c'.next_key = true
      · simp only [if_pos hend] at h ⊢
        exact h
      · simp only [if_neg hend] at h ⊢
        exact ih h

/-- `all` returns at most one result. -/
theorem AllReturns.unique {client : TableClient} {c : TableCursor} {xs ys : List Json}
    (hx : AllReturns client c xs) (hy : AllReturns client c ys) : xs = ys := by
  obtain ⟨m, hm⟩ := hx
  obtain ⟨n, hn⟩ := hy
  have hm' := allLoop_more client hm n
  have hn' := allLoop_more client hn m
  rw [Nat.add_comm] at hn'
  have heq := hm'.symm.trans hn'
  simpa using heq

end TableCursor

/-! ## The node -/

/-- How a node writes the keys of one index in `next_key`, and reads them from a bound.
What the client sends back for a key is read as that key; it is empty for the first key
at most. -/
structure KeyCodec (K : Type) [LinearOrder K] where
  keyType : Str
  write : K → Str
  read : Str → Option K
  write_ne_nil : ∀ k, write k ≠ []
  resumes : ∀ k, ∃ text, ChainAPI.nextKeyText keyType (write k) = .ok text ∧
    (text ≠ [] → read text = some k) ∧ (text = [] → ∀ k', k ≤ k')

/-- A node and the rows of the table and scope a cursor asks for. -/
structure Node (K : Type) [LinearOrder K] where
  codec : KeyCodec K
  contents : Paging.Contents K Json

section Node

variable {K : Type} [LinearOrder K]

/-- What the client sends back for a key. -/
def KeyCodec.sentBack (codec : KeyCodec K) (k : K) : Str :=
  (ChainAPI.nextKeyText codec.keyType (codec.write k)).toOption.getD []

/-- The client's side of a key, and what the node makes of it. -/
theorem KeyCodec.sentBack_spec (codec : KeyCodec K) (k : K) :
    ChainAPI.nextKeyText codec.keyType (codec.write k) = .ok (codec.sentBack k) ∧
      (codec.sentBack k ≠ [] → codec.read (codec.sentBack k) = some k) ∧
      (codec.sentBack k = [] → ∀ k', k ≤ k') := by
  obtain ⟨text, htext, hread, hfirst⟩ := codec.resumes k
  have hsent : codec.sentBack k = text := by
    unfold sentBack
    rw [htext]
    rfl
  rw [hsent]
  exact ⟨htext, hread, hfirst⟩

namespace Node

variable (node : Node K)

/-- The text of a bound: empty text is no bound. -/
def readText (text : Str) : Option (Option K) :=
  if text = [] then some none else (node.codec.read text).map some

/-- A bound of a request, if it can be read. -/
def bound (request : Json) (key : Str) : Option (Option K) :=
  match request.find key with
  | none | some .null => some none
  | some (.str text) => node.readText text
  | some _ => none

/-- A row of an answer, with or without its payer. -/
def answerRow (showPayer : Bool) (row : Json) : Json :=
  if showPayer then .obj [(lit "data", row), (lit "payer", .str [])] else row

/-- The limit of a request. -/
def limitOf (request : Json) : ℕ :=
  match request.find "limit" with
  | some (.int n) => n.toInt.toNat
  | some (.uint n) => n.toNat
  | _ => 10

/-- An answer of the node. -/
def answer (showPayer : Bool) (rows : List (K × Json)) (next : Option K) : Json :=
  .obj [(lit "rows", .arr (rows.map (fun r => answerRow showPayer r.2))),
    (lit "more", .bool next.isSome),
    (lit "next_key", .str (next.elim [] node.codec.write))]

/-- `/v1/chain/get_table_rows`: the first rows in range, and the first key not
returned. -/
def getTableRows (request : Json) : Result Json :=
  match node.bound request "lower_bound", node.bound request "upper_bound" with
  | some lower, some upper =>
    let descending := request.find "reverse" = some (.bool true)
    let showPayer := request.find "show_payer" = some (.bool true)
    .ok (node.answer showPayer (node.contents.page lower upper descending (limitOf request))
      (node.contents.nextKey lower upper descending (limitOf request)))
  | _, _ => err .api "Invalid bound"

/-- What the node reads of a bound in a cursor's parameters. -/
def readBound (dump : Json → Str) (value : Json) : Option (Option K) :=
  match wrapIndexValue value with
  | .null => some none
  | .str text => node.readText text
  | j => node.readText (dump j)

end Node

/-- A cursor whose parameters the node understands: what they say. -/
structure Scan (node : Node K) (client : TableClient) (c : TableCursor) where
  lower : Option K
  upper : Option K
  descending : Bool
  limit : ℤ
  asJson : Bool
  showPayer : Bool
  value : Json → Json
  call_eq : client.call = node.getTableRows
  keyType_eq : ChainAPI.keyTypeOf (.obj c.params) = .ok node.codec.keyType
  scope_eq : ∃ scope, ChainAPI.scopeOf client.dump (.obj c.params) = .ok scope
  code_eq : ∃ code, (Json.obj c.params).valueStr "code" "" = .ok code
  table_eq : ∃ table, (Json.obj c.params).valueStr "table" "" = .ok table
  json_eq : Json.lookup c.params "json" = some (.bool asJson)
  showPayer_eq : (Json.obj c.params).valueOr "show_payer" (.bool false) = .ok (.bool showPayer)
  reverse_eq : descending = decide (Json.lookup c.params "reverse" = some (.bool true))
  lower_eq : node.readBound client.dump ((Json.obj c.params).jsonAt "lower_bound") = some lower
  upper_eq : node.readBound client.dump ((Json.obj c.params).jsonAt "upper_bound") = some upper
  limit_eq : ((Json.obj c.params).valueOr "limit" (.int 1000) >>= Json.getInt64) = .ok limit
  limit_pos : 1 ≤ limit
  maxRows_pos : 1 ≤ c.maxRows
  decodes : ∀ r ∈ node.contents.rows, c.decodeRow client (!asJson) r.2 = .ok (value r.2)

namespace Scan

variable {node : Node K} {client : TableClient} {c : TableCursor} (scan : Scan node client c)

/-- The rows from a lower bound on, in the requested order. -/
def rowsFrom (low : Option K) : List (K × Json) :=
  node.contents.matching low scan.upper scan.descending

/-- The matching rows in the requested order. -/
def ordered : List (K × Json) := scan.rowsFrom scan.lower

/-- What the cursor returns for rows of the table. -/
def values (rows : List (K × Json)) : List Json := rows.map (fun r => scan.value r.2)

/-- The rows the cursor has to return. -/
def expected : List Json := scan.values (scan.ordered.take c.maxRows.toNat)

/-- The most rows one request asks for. -/
def pageSize : ℕ := (min unlimited scan.limit).toNat

end Scan

end Node

/-! ## One request -/

section Request

/-- A bound's member of the query. -/
theorem lookup_setBound_self (query : List (Str × Json)) (bound : Str) (value : Json) :
    Json.lookup (TableCursor.setBound query bound value) bound =
      if value = .null then none else some value := by
  unfold TableCursor.setBound
  by_cases h : value = .null
  · rw [if_pos h, if_pos h, Json.lookup_erase_self]
  · rw [if_neg h, if_neg h, Json.lookup_insert_self]

/-- The other members of the query stay. -/
theorem lookup_setBound_of_ne (query : List (Str × Json)) {bound other : Str} (value : Json)
    (h : other ≠ bound) : Json.lookup (TableCursor.setBound query bound value) other =
      Json.lookup query other := by
  unfold TableCursor.setBound
  by_cases hnull : value = .null
  · rw [if_pos hnull, Json.lookup_erase_of_ne _ h]
  · rw [if_neg hnull, Json.lookup_insert_of_ne _ _ h]

/-- A bound as it is sent. -/
def sentBound (dump : Json → Str) : Json → Json
  | .null => .null
  | .str text => .str text
  | j => .str (dump j)

theorem lookup_boundAsText_self (dump : Json → Str) (bound : Str)
    (members : List (Str × Json)) :
    Json.lookup (ChainAPI.boundAsText dump bound members) bound =
      (Json.lookup members bound).map (sentBound dump) := by
  unfold ChainAPI.boundAsText
  cases h : Json.lookup members bound with
  | none => simp [h]
  | some j => cases j <;> simp [h, sentBound]

theorem lookup_boundAsText_of_ne (dump : Json → Str) {bound other : Str}
    (members : List (Str × Json)) (h : other ≠ bound) :
    Json.lookup (ChainAPI.boundAsText dump bound members) other =
      Json.lookup members other := by
  unfold ChainAPI.boundAsText
  split
  · rfl
  · rfl
  · rfl
  · exact Json.lookup_insert_of_ne _ _ h

end Request

/-- A cursor between two requests. -/
def TableCursor.paused (c : TableCursor) (key : Json) (done : Bool) (count : ℤ) : TableCursor :=
  { c with next_key := key, endReached := done, rowsCount := count }

section Node

variable {K : Type} [LinearOrder K] {node : Node K} {client : TableClient} {c : TableCursor}

/-- The bound a request carries is read as the parameter it came from. -/
theorem Node.bound_eq_readBound (node : Node K) (dump : Json → Str) {request : List (Str × Json)}
    {bound : Str} {value : Json}
    (h : Json.lookup request bound = (if wrapIndexValue value = .null then none
      else some (wrapIndexValue value)).map (sentBound dump)) :
    node.bound (.obj request) bound = node.readBound dump value := by
  unfold Node.bound Node.readBound Json.find
  simp only [h]
  cases hwrap : wrapIndexValue value <;> rfl

/-- The value the next request takes its lower bound from. -/
def TableCursor.lowerValue (c : TableCursor) (key : Json) : Json :=
  if key ≠ .null then key else (Json.obj c.params).jsonAt "lower_bound"

/-- The query of the next request. -/
def TableCursor.queryOf (c : TableCursor) (key : Json) (limit : ℤ) : List (Str × Json) :=
  TableCursor.setBound (TableCursor.setBound (Json.insert c.params "limit" (.int (Int64.ofInt limit)))
      "lower_bound" (wrapIndexValue (c.lowerValue key)))
    "upper_bound" (wrapIndexValue ((Json.obj c.params).jsonAt "upper_bound"))

/-- Members of the query that are neither bounds nor the limit come from the
parameters. -/
theorem TableCursor.lookup_queryOf (c : TableCursor) (key : Json) (limit : ℤ) {other : Str}
    (hlimit : other ≠ lit "limit") (hlower : other ≠ lit "lower_bound")
    (hupper : other ≠ lit "upper_bound") :
    Json.lookup (c.queryOf key limit) other = Json.lookup c.params other := by
  unfold queryOf
  rw [lookup_setBound_of_ne _ _ hupper, lookup_setBound_of_ne _ _ hlower,
    Json.lookup_insert_of_ne _ _ hlimit]

namespace Scan

variable (scan : Scan node client c)

include scan

/-- The query of a request asks for the rows remaining, at most a page. -/
theorem getTableRowsParams_eq (key : Json) (count : ℤ) :
    (c.paused key false count).getTableRowsParams unlimited =
      .ok (c.queryOf key (min (c.maxRows - count) (min unlimited scan.limit))) := by
  obtain ⟨configured, hvalue, hconfigured⟩ := bind_eq_ok.mp scan.limit_eq
  unfold TableCursor.getTableRowsParams
  have hvalue' : (Json.obj (c.paused key false count).params).valueOr "limit" (.int 1000) =
      .ok configured := hvalue
  rw [hvalue', ok_bind, hconfigured, ok_bind]
  have hlimit : min (min ((c.paused key false count).maxRows - (c.paused key false count).rowsCount)
      unlimited) scan.limit = min (c.maxRows - count) (min unlimited scan.limit) :=
    min_assoc _ _ _
  rw [hlimit]
  rfl

/-- **The request** of a query reaches the node with the cursor's bounds and limit. -/
theorem tableRowsRequest_eq (key : Json) (limit : ℤ) :
    ∃ request, ChainAPI.tableRowsRequest client.dump (c.queryOf key limit) none =
        .ok (.obj request, scan.showPayer) ∧
      Json.lookup request "limit" = some (.int (Int64.ofInt limit)) ∧
      Json.lookup request "reverse" = Json.lookup c.params "reverse" ∧
      Json.lookup request "show_payer" = Json.lookup c.params "show_payer" ∧
      node.bound (.obj request) "lower_bound" = node.readBound client.dump (c.lowerValue key) ∧
      node.bound (.obj request) "upper_bound" = some scan.upper := by
  obtain ⟨scope, hscope⟩ := scan.scope_eq
  obtain ⟨code, hcode⟩ := scan.code_eq
  obtain ⟨table, htable⟩ := scan.table_eq
  have hkey := scan.keyType_eq
  have hpayer := scan.showPayer_eq
  have hquery : ∀ other : Str, other ≠ lit "limit" → other ≠ lit "lower_bound" →
      other ≠ lit "upper_bound" →
      Json.lookup (c.queryOf key limit) other = Json.lookup c.params other :=
    fun other h1 h2 h3 => c.lookup_queryOf key limit h1 h2 h3
  have hlimit : Json.lookup (c.queryOf key limit) "limit" =
      some (.int (Int64.ofInt limit)) := by
    unfold TableCursor.queryOf
    rw [lookup_setBound_of_ne _ _ (by decide), lookup_setBound_of_ne _ _ (by decide),
      Json.lookup_insert_self]
  have hkey' : ChainAPI.keyTypeOf (.obj (c.queryOf key limit)) = .ok node.codec.keyType := by
    rw [← hkey]
    unfold ChainAPI.keyTypeOf
    rw [Json.valueStr_congr (hquery _ (by decide) (by decide) (by decide))]
  have hcode' : (Json.obj (c.queryOf key limit)).valueStr "code" "" = .ok code := by
    rw [← hcode]
    exact Json.valueStr_congr (hquery _ (by decide) (by decide) (by decide)) _
  have hscope' : ChainAPI.scopeOf client.dump (.obj (c.queryOf key limit)) = .ok scope := by
    have hfind : (Json.obj (c.queryOf key limit)).find "scope" = (Json.obj c.params).find "scope" :=
      hquery _ (by decide) (by decide) (by decide)
    rw [← hscope]
    unfold ChainAPI.scopeOf
    rw [hfind, hcode', hcode]
  have hjson : Json.lookup (c.queryOf key limit) "json" = some (.bool scan.asJson) := by
    rw [← scan.json_eq]
    exact hquery _ (by decide) (by decide) (by decide)
  -- the request before its bounds are turned to text
  set named := Json.insert (Json.insert (c.queryOf key limit) "code"
    (.str (Name.ofString code).toString)) "table" (.str (Name.ofString table).toString) with hnamed
  set full := Json.insert (Json.insert (Json.insert named "scope" (.str scope)) "key_type"
    (.str node.codec.keyType)) "json" (.bool scan.asJson) with hfull
  have hmember : ∀ other : Str, other ≠ lit "code" → other ≠ lit "table" → other ≠ lit "scope" →
      other ≠ lit "key_type" → other ≠ lit "json" →
      Json.lookup full other = Json.lookup (c.queryOf key limit) other := by
    intro other h1 h2 h3 h4 h5
    rw [hfull, Json.lookup_insert_of_ne _ _ h5, Json.lookup_insert_of_ne _ _ h4,
      Json.lookup_insert_of_ne _ _ h3, hnamed, Json.lookup_insert_of_ne _ _ h2,
      Json.lookup_insert_of_ne _ _ h1]
  have hsent : ∀ other : Str, other ≠ lit "lower_bound" → other ≠ lit "upper_bound" →
      Json.lookup (ChainAPI.boundAsText client.dump "lower_bound"
        (ChainAPI.boundAsText client.dump "upper_bound" full)) other = Json.lookup full other := by
    intro other h1 h2
    rw [lookup_boundAsText_of_ne _ _ h1, lookup_boundAsText_of_ne _ _ h2]
  have htable' : (Json.obj (Json.insert (c.queryOf key limit) "code"
      (.str (Name.ofString code).toString))).valueStr "table" "" = .ok table := by
    rw [← htable]
    refine Json.valueStr_congr ?_ _
    rw [Json.lookup_insert_of_ne _ _ (by decide), hquery _ (by decide) (by decide) (by decide)]
  have hlimitOf : ChainAPI.limitOf named = .ok named := by
    unfold ChainAPI.limitOf
    rw [hnamed, Json.lookup_insert_of_ne _ _ (by decide),
      Json.lookup_insert_of_ne _ _ (by decide), hlimit]
  have hpayer' : (Json.obj (ChainAPI.boundAsText client.dump "lower_bound"
      (ChainAPI.boundAsText client.dump "upper_bound" full))).valueOr "show_payer" (.bool false) =
      .ok (.bool scan.showPayer) := by
    rw [← hpayer]
    refine Json.valueOr_congr ?_ _
    rw [hsent _ (by decide) (by decide),
      hmember _ (by decide) (by decide) (by decide) (by decide) (by decide),
      hquery _ (by decide) (by decide) (by decide)]
  refine ⟨ChainAPI.boundAsText client.dump "lower_bound"
    (ChainAPI.boundAsText client.dump "upper_bound" full), ?_, ?_, ?_, ?_, ?_, ?_⟩
  · unfold ChainAPI.tableRowsRequest
    rw [hkey', ok_bind, hjson]
    simp only [Json.getBool, ok_bind, hscope', hcode', htable']
    rw [hlimitOf]
    simp only [ok_bind]
    rw [hpayer']
    rfl
  · rw [hsent _ (by decide) (by decide),
      hmember _ (by decide) (by decide) (by decide) (by decide) (by decide), hlimit]
  · rw [hsent _ (by decide) (by decide),
      hmember _ (by decide) (by decide) (by decide) (by decide) (by decide),
      hquery _ (by decide) (by decide) (by decide)]
  · rw [hsent _ (by decide) (by decide),
      hmember _ (by decide) (by decide) (by decide) (by decide) (by decide),
      hquery _ (by decide) (by decide) (by decide)]
  · refine node.bound_eq_readBound client.dump ?_
    rw [lookup_boundAsText_self, lookup_boundAsText_of_ne _ _ (by decide),
      hmember _ (by decide) (by decide) (by decide) (by decide) (by decide)]
    unfold TableCursor.queryOf
    rw [lookup_setBound_of_ne _ _ (by decide), lookup_setBound_self]
  · rw [← scan.upper_eq]
    refine node.bound_eq_readBound client.dump ?_
    rw [lookup_boundAsText_of_ne _ _ (by decide), lookup_boundAsText_self,
      hmember _ (by decide) (by decide) (by decide) (by decide) (by decide)]
    unfold TableCursor.queryOf
    rw [lookup_setBound_self]

/-- The limit of a request survives its way to the node. -/
theorem limit_toNat {l : ℕ} (h : l ≤ scan.pageSize) :
    (Int64.ofInt (l : ℤ)).toInt.toNat = l := by
  have hl : l ≤ 9007199254740991 := by
    unfold pageSize unlimited at h
    omega
  rw [Int64.toInt_ofInt_of_le (by omega) (by omega), Int.toNat_natCast]

omit scan in
/-- A row comes out of an answer with payers as it went in. -/
theorem unwrapPayer_answerRow (row : Json) :
    ChainAPI.unwrapPayer (Node.answerRow true row) = .ok (Name.ofString [], row) := rfl

omit scan [LinearOrder K] in
/-- The rows come out of an answer as they went in. -/
theorem unwrapRows_answer (showPayer : Bool) (rows : List (K × Json)) :
    ∃ payers, ChainAPI.unwrapRows showPayer
      (.arr (rows.map (fun r => Node.answerRow showPayer r.2))) =
      .ok (.arr (rows.map Prod.snd), payers) := by
  cases showPayer with
  | false => exact ⟨none, rfl⟩
  | true =>
    have hmap : (Json.arr (rows.map (fun r => Node.answerRow true r.2))).elements.mapM
        ChainAPI.unwrapPayer = .ok (rows.map (fun r => (Name.ofString [], r.2))) := by
      show (rows.map (fun r => Node.answerRow true r.2)).mapM ChainAPI.unwrapPayer = _
      rw [List.mapM_map]
      exact mapM_eq_ok (fun r _ => unwrapPayer_answerRow r.2)
    refine ⟨some ((rows.map (fun r => (Name.ofString [], r.2))).map Prod.fst), ?_⟩
    unfold ChainAPI.unwrapRows
    rw [if_pos rfl, hmap, ok_bind, List.map_map]
    rfl

omit scan in
/-- What the client takes from an answer. -/
theorem tableRowsResponse_answer (node : Node K) (showPayer : Bool) (rows : List (K × Json))
    (next : Option K) :
    ∃ payers more, ChainAPI.tableRowsResponse node.codec.keyType showPayer
        (node.answer showPayer rows next) =
      .ok { rows := .arr (rows.map Prod.snd), more := more, ram_payers := payers
            next_key := next.elim .null (fun k => .str (node.codec.sentBack k)) } := by
  obtain ⟨payers, hrows⟩ := unwrapRows_answer showPayer rows
  refine ⟨payers, next.isSome, ?_⟩
  have hmore : (node.answer showPayer rows next).valueOr "more" (.bool false) =
      .ok (.bool next.isSome) := rfl
  have hlist : (node.answer showPayer rows next).valueOr "rows" (.arr []) =
      .ok (.arr (rows.map (fun r => Node.answerRow showPayer r.2))) := rfl
  have hnext : (node.answer showPayer rows next).valueOr "next_key" .null =
      .ok (.str (next.elim [] node.codec.write)) := rfl
  unfold ChainAPI.tableRowsResponse
  rw [hmore, ok_bind, Json.getBool, ok_bind, hlist, ok_bind, hrows, ok_bind]
  simp only [hnext, ok_bind]
  cases next with
  | none => rfl
  | some k =>
    obtain ⟨hsent, -, -⟩ := node.codec.sentBack_spec k
    simp only [Option.elim_some, if_neg (node.codec.write_ne_nil k), hsent, ok_bind]
    rfl

/-- **One call to `next`** returns a page of the rows from its lower bound on, at most
those remaining, and keeps the key after them. -/
theorem next_spec (key : Json) (count : ℤ) {m : ℕ} {low : Option K}
    (hm : c.maxRows - count = m)
    (hlow : node.readBound client.dump (c.lowerValue key) = some low) :
    let rows := scan.rowsFrom low
    let l := min m scan.pageSize
    let batch := scan.values (rows.take l)
    let key' := (rows.drop l).head?.elim .null (fun r => .str (node.codec.sentBack r.1))
    (c.paused key false count).next client unlimited = .ok (batch, c.paused key'
      (TableCursor.noNextKey key' || batch.isEmpty || count + batch.length = c.maxRows)
      (count + batch.length)) := by
  intro rows l batch key'
  have hlimit : min (c.maxRows - count) (min unlimited scan.limit) = (l : ℤ) := by
    have hpos := scan.limit_pos
    unfold l pageSize
    rw [hm]
    unfold unlimited
    omega
  obtain ⟨request, hrequest, hl, hreverse, hpayer, hlower, hupper⟩ :=
    scan.tableRowsRequest_eq key (l : ℤ)
  have hlimitOf : Node.limitOf (.obj request) = l := by
    unfold Node.limitOf Json.find
    simp only [hl]
    exact scan.limit_toNat (Nat.min_le_right m scan.pageSize)
  have hpayer' : decide (Json.lookup request "show_payer" = some (.bool true)) =
      scan.showPayer := by
    have hvalue : (Json.lookup c.params "show_payer").getD (.bool false) = .bool scan.showPayer :=
      Except.ok.inj scan.showPayer_eq
    rw [hpayer]
    cases hmember : Json.lookup c.params "show_payer" with
    | none =>
      rw [hmember] at hvalue
      have hshow : false = scan.showPayer := Json.bool.inj hvalue
      rw [← hshow]
      rfl
    | some j =>
      rw [hmember] at hvalue
      obtain rfl : j = .bool scan.showPayer := hvalue
      simp
  -- The node answers with the first rows of the page, and with the key of the row after them.
  have hanswer : client.call (.obj request) = .ok (node.answer scan.showPayer (rows.take l)
      ((rows.drop l).head?.map Prod.fst)) := by
    rw [scan.call_eq]
    unfold Node.getTableRows Json.find
    simp only [hlower, hlow, hupper, hlimitOf, hpayer', hreverse, ← scan.reverse_eq]
    rfl
  obtain ⟨payers, more, hresponse⟩ := tableRowsResponse_answer node scan.showPayer
    (rows.take l) ((rows.drop l).head?.map Prod.fst)
  have hkeyType : ChainAPI.keyTypeOf (.obj (c.queryOf key l)) = .ok node.codec.keyType := by
    rw [← scan.keyType_eq]
    unfold ChainAPI.keyTypeOf
    rw [Json.valueStr_congr (c.lookup_queryOf key l (by decide) (by decide) (by decide))]
  have hjson : (Json.obj (c.queryOf key l)).valueOr "json" (.bool false) =
      .ok (.bool scan.asJson) := by
    rw [Json.valueOr_congr (c.lookup_queryOf key l (by decide) (by decide) (by decide))]
    show Except.ok ((Json.lookup c.params "json").getD (.bool false)) = _
    rw [scan.json_eq]
    rfl
  have hdecode : ((rows.take l).map Prod.snd).mapM
      ((c.paused key false count).decodeRow client (!scan.asJson)) = .ok batch := by
    rw [List.mapM_map]
    refine mapM_eq_ok (fun r hr => ?_)
    exact scan.decodes r (node.contents.mem_matching.mp (List.mem_of_mem_take hr)).1
  have hkey' : ((rows.drop l).head?.map Prod.fst).elim Json.null
      (fun k => .str (node.codec.sentBack k)) = key' := by
    unfold key'
    cases (rows.drop l).head? <;> rfl
  unfold TableCursor.next
  have hopen : (c.paused key false count).endReached = false := rfl
  rw [hopen, if_neg Bool.false_ne_true, scan.getTableRowsParams_eq, hlimit, ok_bind]
  unfold ChainAPI.get_table_rows ChainAPI.get_table_rows_impl
  rw [hkeyType, ok_bind, hrequest, ok_bind]
  simp only [hanswer, ok_bind, hresponse, hjson, Json.getBool]
  have helements : (Json.arr ((rows.take l).map Prod.snd)).elements = (rows.take l).map Prod.snd :=
    rfl
  rw [helements, hdecode, ok_bind, hkey']
  rfl

/-- A page holds at least a row. -/
theorem pageSize_pos : 1 ≤ scan.pageSize := by
  have hpos := scan.limit_pos
  unfold pageSize unlimited
  omega

omit scan in
/-- A key sent back is the lower bound of the next request. -/
theorem readBound_sentBack {k : K} (h : node.codec.sentBack k ≠ []) :
    node.readBound client.dump (c.lowerValue (.str (node.codec.sentBack k))) = some (some k) := by
  obtain ⟨-, hread, -⟩ := node.codec.sentBack_spec k
  show node.readText (node.codec.sentBack k) = some (some k)
  unfold Node.readText
  rw [if_neg h, hread h]
  rfl

/-- The loop ends with a request that covers the rows remaining, or all that match. -/
theorem allLoop_last (key : Json) (count : ℤ) {m : ℕ} {low : Option K} (acc : List Json)
    (hm : c.maxRows - count = m) (hlow : node.readBound client.dump (c.lowerValue key) = some low)
    (hlast : m ≤ scan.pageSize ∨ (scan.rowsFrom low).length ≤ scan.pageSize) :
    TableCursor.allLoop client 2 (c.paused key false count) acc =
      some (.ok (acc ++ scan.values ((scan.rowsFrom low).take m))) := by
  have hnext := scan.next_spec key count hm hlow
  set rows := scan.rowsFrom low with hrows
  set key' := (rows.drop (min m scan.pageSize)).head?.elim .null
    (fun r => Json.str (node.codec.sentBack r.1)) with hkey'
  have hbatch : scan.values (rows.take (min m scan.pageSize)) = scan.values (rows.take m) := by
    rcases hlast with hm' | hlen
    · rw [min_eq_left hm']
    · rcases Nat.le_total m scan.pageSize with hle | hle
      · rw [min_eq_left hle]
      · rw [min_eq_right hle, List.take_of_length_le hlen,
          List.take_of_length_le (le_trans hlen hle)]
  simp only [hbatch] at hnext
  rw [TableCursor.allLoop, hnext]
  by_cases hend : scan.values (rows.take m) = [] ∨ TableCursor.noNextKey key' = true
  · exact if_pos hend
  · -- a next key is left, so the page was filled by the rows remaining
    have hfull : (scan.values (rows.take m)).length = m := by
      have hmore : min m scan.pageSize < rows.length := by
        by_contra hle
        rw [hkey', List.drop_eq_nil_of_le (by omega)] at hend
        exact hend (.inr rfl)
      unfold values
      rw [List.length_map, List.length_take]
      omega
    have hdone : (TableCursor.noNextKey key' || (scan.values (rows.take m)).isEmpty ||
        decide (count + ((scan.values (rows.take m)).length : ℤ) = c.maxRows)) = true := by
      rw [hfull, Bool.or_eq_true, decide_eq_true_eq]
      right
      omega
    rw [hdone]
    refine (if_neg hend).trans ?_
    have hstop : (c.paused key' true (count + (scan.values (rows.take m)).length)).next client
        unlimited = .ok ([], c.paused key' true (count + (scan.values (rows.take m)).length)) := rfl
    show TableCursor.allLoop client 1
      (c.paused key' true (count + (scan.values (rows.take m)).length)) _ = _
    rw [TableCursor.allLoop, hstop]
    simp

/-- The loop goes on after a full page with rows left. -/
theorem allLoop_page (key : Json) (count : ℤ) {m : ℕ} {low : Option K} (acc : List Json)
    {xs ys : List (K × Json)} {r : K × Json} (fuel : ℕ)
    (hm : c.maxRows - count = m) (hlow : node.readBound client.dump (c.lowerValue key) = some low)
    (hmore : scan.pageSize < m) (hrows : scan.rowsFrom low = xs ++ r :: ys)
    (hxs : xs.length = scan.pageSize) (hr : node.codec.sentBack r.1 ≠ []) :
    TableCursor.allLoop client (fuel + 1) (c.paused key false count) acc =
      TableCursor.allLoop client fuel
        (c.paused (.str (node.codec.sentBack r.1)) false (count + scan.pageSize))
        (acc ++ scan.values xs) := by
  have hnext := scan.next_spec key count hm hlow
  have hpos := scan.pageSize_pos
  have hlen : (scan.values xs).length = scan.pageSize := by
    unfold values
    rw [List.length_map, hxs]
  have htake : (xs ++ r :: ys).take scan.pageSize = xs := by
    rw [← hxs, List.take_left]
  have hdrop : (xs ++ r :: ys).drop scan.pageSize = r :: ys := by
    rw [← hxs, List.drop_left]
  have hbatch : scan.values xs ≠ [] := by
    intro hnil
    rw [hnil, List.length_nil] at hlen
    omega
  have hkey : TableCursor.noNextKey (.str (node.codec.sentBack r.1)) = false := by
    simp [TableCursor.noNextKey, hr]
  have hcount : decide (count + (scan.pageSize : ℤ) = c.maxRows) = false := by
    rw [decide_eq_false_iff_not]
    omega
  simp only [hrows, min_eq_right hmore.le, htake, hdrop, hlen, List.head?_cons,
    Option.elim_some] at hnext
  rw [TableCursor.allLoop, hnext]
  have hend : ¬ (scan.values xs = [] ∨
      TableCursor.noNextKey (.str (node.codec.sentBack r.1)) = true) := by
    rw [hkey]
    simp [hbatch]
  -- No reason to stop: a key came back, the page is not empty, and the maximum is not reached.
  have hopen : (TableCursor.noNextKey (.str (node.codec.sentBack r.1)) ||
      (scan.values xs).isEmpty || decide (count + (scan.pageSize : ℤ) = c.maxRows)) = false := by
    rw [hkey, hcount]
    simpa using hbatch
  rw [hopen]
  exact if_neg hend

/-- A row after others in an ascending scan is not the first one, so its key is not sent
back empty. -/
theorem sentBack_ne_nil (hforward : scan.descending = false) {low : Option K}
    {xs ys : List (K × Json)} {r : K × Json} (hrows : scan.rowsFrom low = xs ++ r :: ys)
    (hxs : xs ≠ []) : node.codec.sentBack r.1 ≠ [] := by
  obtain ⟨-, -, hfirst⟩ := node.codec.sentBack_spec r.1
  intro hnil
  have hsorted := node.contents.matching_sorted low scan.upper
  unfold rowsFrom at hrows
  rw [hforward] at hrows
  rw [hrows, List.pairwise_append] at hsorted
  obtain ⟨s, rest, rfl⟩ := List.exists_cons_of_ne_nil hxs
  have hlt : s.1 < r.1 := hsorted.2.2 s (by simp) r (by simp)
  exact absurd (hfirst hnil s.1) (not_le.mpr hlt)

/-- **A forward loop returns the rows remaining**, page by page. -/
theorem allLoop_forward (hforward : scan.descending = false) (n : ℕ) (key : Json) (count : ℤ)
    (m : ℕ) (low : Option K) (acc : List Json) (hn : (scan.rowsFrom low).length ≤ n)
    (hm : c.maxRows - count = m)
    (hlow : node.readBound client.dump (c.lowerValue key) = some low) :
    ∃ fuel, TableCursor.allLoop client fuel (c.paused key false count) acc =
      some (.ok (acc ++ scan.values ((scan.rowsFrom low).take m))) := by
  have hpos := scan.pageSize_pos
  induction n generalizing key count m low acc with
  | zero => exact ⟨2, scan.allLoop_last key count acc hm hlow (.inr (by omega))⟩
  | succ n ih =>
    by_cases hlast : m ≤ scan.pageSize ∨ (scan.rowsFrom low).length ≤ scan.pageSize
    · exact ⟨2, scan.allLoop_last key count acc hm hlow hlast⟩
    · rw [not_or, not_le, not_le] at hlast
      obtain ⟨hmore, hlen⟩ := hlast
      -- a full page, and the row whose key is sent back
      set xs := (scan.rowsFrom low).take scan.pageSize with hxs
      have hxslen : xs.length = scan.pageSize := by
        rw [hxs, List.length_take]
        omega
      obtain ⟨r, ys, hdrop⟩ : ∃ r ys, (scan.rowsFrom low).drop scan.pageSize = r :: ys := by
        refine List.exists_cons_of_ne_nil (fun hnil => ?_)
        rw [List.drop_eq_nil_iff] at hnil
        omega
      have hrows : scan.rowsFrom low = xs ++ r :: ys := by
        rw [hxs, ← hdrop, List.take_append_drop]
      have hsent := scan.sentBack_ne_nil hforward hrows (by
        intro hnil
        rw [hnil, List.length_nil] at hxslen
        omega)
      have hrest : scan.rowsFrom (some r.1) = r :: ys := by
        unfold rowsFrom at hrows ⊢
        rw [hforward] at hrows ⊢
        exact node.contents.matching_of_next hrows
      obtain ⟨fuel, hfuel⟩ := ih (.str (node.codec.sentBack r.1)) (count + scan.pageSize)
        (m - scan.pageSize) (some r.1) (acc ++ scan.values xs) (by
          have hlength := congrArg List.length hrows
          rw [List.length_append, hxslen] at hlength
          rw [hrest]
          omega) (by omega) (readBound_sentBack hsent)
      refine ⟨fuel + 1, ?_⟩
      rw [scan.allLoop_page key count acc fuel hm hlow hmore hrows hxslen hsent, hfuel, hrest]
      have hsplit : (scan.rowsFrom low).take m = xs ++ (r :: ys).take (m - scan.pageSize) := by
        rw [hrows, List.take_append, hxslen, List.take_of_length_le (by omega)]
      rw [hsplit, values, values, values, List.map_append, List.append_assoc]

/-- **A reverse loop returns its first page again and again**, once a key was sent
back. -/
theorem allLoop_reverse (hreverse : scan.descending = true) {xs ys : List (K × Json)}
    {r : K × Json} (hrows : scan.ordered = xs ++ r :: ys) (hxs : xs.length = scan.pageSize)
    (hr : node.codec.sentBack r.1 ≠ []) (n : ℕ) (count : ℤ) (m : ℕ) (acc : List Json)
    (hn : m ≤ n) (hm : c.maxRows - count = m) :
    ∃ fuel out, TableCursor.allLoop client fuel
        (c.paused (.str (node.codec.sentBack r.1)) false count) acc = some (.ok (acc ++ out)) ∧
      out.length = m ∧ ∀ i < m, out[i]? = (scan.values xs)[i % scan.pageSize]? := by
  have hpos := scan.pageSize_pos
  have hagain : scan.rowsFrom (some r.1) = xs ++ [r] := by
    unfold ordered rowsFrom at hrows
    unfold rowsFrom
    rw [hreverse] at hrows ⊢
    exact node.contents.matching_reverse_of_next hrows
  have hlow : node.readBound client.dump (c.lowerValue (.str (node.codec.sentBack r.1))) =
      some (some r.1) := readBound_sentBack hr
  induction n generalizing count m acc with
  | zero =>
    obtain rfl : m = 0 := by omega
    refine ⟨2, [], ?_, rfl, fun i hi => absurd hi (by omega)⟩
    have hlast := scan.allLoop_last (.str (node.codec.sentBack r.1)) count acc hm hlow
      (.inl (by omega))
    rw [List.take_zero] at hlast
    exact hlast
  | succ n ih =>
    by_cases hlast : m ≤ scan.pageSize
    · -- the last rows come from the first page
      refine ⟨2, scan.values (xs.take m), ?_, ?_, fun i hi => ?_⟩
      · rw [scan.allLoop_last _ count acc hm hlow (.inl hlast), hagain,
          List.take_append_of_le_length (by omega)]
      · unfold values
        rw [List.length_map, List.length_take]
        omega
      · unfold values
        rw [List.map_take, List.getElem?_take_of_lt hi, Nat.mod_eq_of_lt (by omega)]
    · rw [not_le] at hlast
      obtain ⟨fuel, out, hfuel, hlen, hout⟩ := ih (count + scan.pageSize) (m - scan.pageSize)
        (acc ++ scan.values xs) (by omega) (by omega)
      refine ⟨fuel + 1, scan.values xs ++ out, ?_, ?_, fun i hi => ?_⟩
      · rw [scan.allLoop_page _ count acc fuel hm hlow hlast hagain hxs hr, hfuel,
          List.append_assoc]
      · rw [List.length_append, hlen, values, List.length_map, hxs]
        omega
      · have hvalues : (scan.values xs).length = scan.pageSize := by
          rw [values, List.length_map, hxs]
        by_cases hi' : i < scan.pageSize
        · rw [List.getElem?_append_left (by omega), Nat.mod_eq_of_lt hi']
        · rw [List.getElem?_append_right (by omega), hvalues, hout _ (by omega),
            ← Nat.mod_eq_sub_mod (by omega)]

omit scan in
/-- A new cursor has no key and no rows yet. -/
theorem init_fresh {args : TableCursorArgs} (h : TableCursor.init args = .ok c) :
    c.paused .null false 0 = c := by
  unfold TableCursor.init at h
  rw [bind_eq_ok] at h
  obtain ⟨tableName, -, h⟩ := h
  split at h
  · cases h
    rfl
  · cases h

omit scan in
/-- The loop of `all` starts with no key and no rows. -/
theorem allReturns_of_paused (hinit : c.paused .null false 0 = c) {rows : List Json} (fuel : ℕ)
    (h : TableCursor.allLoop client fuel (c.paused .null false 0) [] = some (.ok rows)) :
    TableCursor.AllReturns client c rows := by
  rw [hinit] at h
  exact ⟨fuel, h⟩

/-- The first request takes the configured lower bound. -/
theorem readBound_first :
    node.readBound client.dump (c.lowerValue .null) = some scan.lower := scan.lower_eq

/-- The maximum as a number of rows. -/
theorem maxRows_toNat : c.maxRows - 0 = c.maxRows.toNat := by
  have hpos := scan.maxRows_pos
  omega

/-- A forward cursor, or one whose first page holds them all, returns the rows. -/
theorem all_expected (hinit : c.paused .null false 0 = c)
    (h : scan.descending = false ∨
      min c.maxRows.toNat scan.ordered.length ≤ scan.pageSize) :
    TableCursor.AllReturns client c scan.expected := by
  rcases h with hforward | hfits
  · obtain ⟨fuel, hrun⟩ := scan.allLoop_forward hforward scan.ordered.length .null 0
      c.maxRows.toNat scan.lower [] (le_refl _) scan.maxRows_toNat scan.readBound_first
    exact allReturns_of_paused hinit fuel hrun
  · have hlast := scan.allLoop_last .null 0 [] scan.maxRows_toNat scan.readBound_first
      (min_le_iff.mp hfits)
    exact allReturns_of_paused hinit 2 hlast

/-- A reverse cursor with more rows to return than a page holds repeats its first page
up to the maximum, or stops after it when the next key is sent back empty. -/
theorem all_reverse (hinit : c.paused .null false 0 = c) (hreverse : scan.descending = true)
    (hmore : scan.pageSize < min c.maxRows.toNat scan.ordered.length) :
    ∃ r, scan.ordered[scan.pageSize]? = some r ∧
      (node.codec.sentBack r.1 = [] → TableCursor.AllReturns client c
        (scan.values (scan.ordered.take scan.pageSize))) ∧
      (node.codec.sentBack r.1 ≠ [] → ∃ out, TableCursor.AllReturns client c out ∧
        out.length = c.maxRows.toNat ∧ ∀ i < c.maxRows.toNat,
          out[i]? = (scan.values scan.ordered)[i % scan.pageSize]?) := by
  have hpos := scan.pageSize_pos
  have hm := scan.maxRows_toNat
  rw [lt_min_iff] at hmore
  obtain ⟨hrounds, hlen⟩ := hmore
  set xs := scan.ordered.take scan.pageSize with hxs
  have hxslen : xs.length = scan.pageSize := by
    rw [hxs, List.length_take]
    omega
  obtain ⟨r, ys, hdrop⟩ : ∃ r ys, scan.ordered.drop scan.pageSize = r :: ys := by
    refine List.exists_cons_of_ne_nil (fun hnil => ?_)
    rw [List.drop_eq_nil_iff] at hnil
    omega
  have hrows : scan.ordered = xs ++ r :: ys := by
    rw [hxs, ← hdrop, List.take_append_drop]
  have hvalues : (scan.values xs).length = scan.pageSize := by
    rw [values, List.length_map, hxslen]
  refine ⟨r, ?_, fun hsent => ?_, fun hsent => ?_⟩
  · rw [hrows, List.getElem?_append_right (by omega), hxslen, Nat.sub_self]
    rfl
  · refine allReturns_of_paused hinit 1 ?_
    have hnext := scan.next_spec .null 0 hm scan.readBound_first
    have hfirst : scan.rowsFrom scan.lower = scan.ordered := rfl
    simp only [hfirst, min_eq_right hrounds.le, ← hxs, hdrop, List.head?_cons,
      Option.elim_some, hsent] at hnext
    rw [TableCursor.allLoop, hnext]
    exact if_pos (.inr rfl)
  · -- The key sent back is a lower bound, so a reverse scan starts from the top again.
    obtain ⟨fuel, out, hfuel, hout, hitems⟩ := scan.allLoop_reverse hreverse hrows hxslen hsent
      c.maxRows.toNat (0 + scan.pageSize) (c.maxRows.toNat - scan.pageSize)
      ([] ++ scan.values xs) (by omega) (by omega)
    refine ⟨scan.values xs ++ out, allReturns_of_paused hinit (fuel + 1) ?_, ?_,
      fun i hi => ?_⟩
    · rw [scan.allLoop_page .null 0 [] fuel hm scan.readBound_first hrounds hrows hxslen hsent,
        hfuel, List.nil_append]
    · rw [List.length_append, hvalues, hout]
      omega
    · have hitem : (scan.values scan.ordered)[i % scan.pageSize]? =
          (scan.values xs)[i % scan.pageSize]? := by
        rw [hrows, values, List.map_append, List.getElem?_append_left]
        · rfl
        · rw [List.length_map, hxslen]
          exact Nat.mod_lt _ (by omega)
      rw [hitem]
      by_cases hi' : i < scan.pageSize
      · rw [List.getElem?_append_left (by omega), Nat.mod_eq_of_lt hi']
      · rw [List.getElem?_append_right (by omega), hvalues, hitems _ (by omega),
          ← Nat.mod_eq_sub_mod (by omega)]

/-- The rows repeat with the page: what a reverse cursor returns instead of the rows
after its first page happens to equal them. -/
structure Repeats : Prop where
  sent : ∃ r, scan.ordered[scan.pageSize]? = some r ∧ node.codec.sentBack r.1 ≠ []
  enough : c.maxRows.toNat ≤ scan.ordered.length
  period : ∀ i, i + scan.pageSize < c.maxRows.toNat →
    (scan.values scan.ordered)[i + scan.pageSize]? = (scan.values scan.ordered)[i]?

/-- Rows that repeat with the page are those of the first page. -/
theorem Repeats.getElem?_mod (h : scan.Repeats) (i : ℕ) (hi : i < c.maxRows.toNat) :
    (scan.values scan.ordered)[i]? = (scan.values scan.ordered)[i % scan.pageSize]? := by
  have hpos := scan.pageSize_pos
  induction i using Nat.strong_induction_on with
  | h i ih =>
    by_cases hi' : i < scan.pageSize
    · rw [Nat.mod_eq_of_lt hi']
    · have hback := h.period (i - scan.pageSize) (by omega)
      rw [Nat.sub_add_cancel (by omega)] at hback
      rw [hback, ih (i - scan.pageSize) (by omega) (by omega), ← Nat.mod_eq_sub_mod (by omega)]

/-- The rows to return, one by one. -/
theorem expected_getElem? (i : ℕ) : scan.expected[i]? =
    if i < c.maxRows.toNat then (scan.values scan.ordered)[i]? else none := by
  unfold expected values
  rw [List.map_take, List.getElem?_take]

/-- **Completeness of a cursor.**  `all` returns exactly the first matching rows, up to
the maximum, if and only if the cursor runs forward, or its first page holds them all,
or they happen to repeat with the page. -/
theorem all_complete_iff {args : TableCursorArgs} (hinit : TableCursor.init args = .ok c) :
    TableCursor.AllReturns client c scan.expected ↔
      scan.descending = false ∨
        min c.maxRows.toNat scan.ordered.length ≤ scan.pageSize ∨ scan.Repeats := by
  have hfresh := init_fresh hinit
  have hexpected : scan.expected.length = min c.maxRows.toNat scan.ordered.length := by
    rw [expected, values, List.length_map, List.length_take]
  constructor
  · intro h
    by_contra hnot
    rw [not_or, not_or, Bool.not_eq_false, not_le] at hnot
    obtain ⟨hreverse, hmore, hrepeats⟩ := hnot
    -- An empty key ends the loop too early; any other repeats the page.
    obtain ⟨r, hr, hstop, hloop⟩ := scan.all_reverse hfresh hreverse hmore
    by_cases hsent : node.codec.sentBack r.1 = []
    · have heq := h.unique (hstop hsent)
      rw [heq, values, List.length_map, List.length_take] at hexpected
      omega
    · obtain ⟨out, hall, hlen, hout⟩ := hloop hsent
      obtain rfl := h.unique hall
      refine hrepeats ⟨⟨r, hr, hsent⟩, by omega, fun i hi => ?_⟩
      have hafter := hout (i + scan.pageSize) hi
      have hbefore := hout i (by omega)
      rw [scan.expected_getElem?, if_pos hi, Nat.add_mod_right] at hafter
      rw [scan.expected_getElem?, if_pos (by omega)] at hbefore
      rw [hafter, hbefore]
  · intro h
    by_cases hsimple : scan.descending = false ∨
        min c.maxRows.toNat scan.ordered.length ≤ scan.pageSize
    · exact scan.all_expected hfresh hsimple
    · rw [not_or, Bool.not_eq_false, not_le] at hsimple
      obtain ⟨hreverse, hmore⟩ := hsimple
      have hrepeats : scan.Repeats := by
        rcases h with hforward | hfits | hrepeats
        · rw [hreverse] at hforward
          cases hforward
        · omega
        · exact hrepeats
      obtain ⟨r, hr, -, hloop⟩ := scan.all_reverse hfresh hreverse hmore
      obtain ⟨r', hr', hsent⟩ := hrepeats.sent
      obtain rfl : r = r' := Option.some.inj (hr.symm.trans hr')
      obtain ⟨out, hall, hlen, hout⟩ := hloop hsent
      have heq : out = scan.expected := by
        refine List.ext_getElem? (fun i => ?_)
        rw [scan.expected_getElem?]
        by_cases hi : i < c.maxRows.toNat
        · rw [if_pos hi, hout i hi, hrepeats.getElem?_mod scan i hi]
        · rw [if_neg hi, List.getElem?_eq_none (by omega)]
      rw [← heq]
      exact hall

end Scan

end Node

/-! ## Two key types -/

/-- Names: written as integers, read as names. -/
def nameKeys : KeyCodec (Fin (2 ^ 64)) where
  keyType := "name"
  write k := natToString k.val
  read text := some ⟨(Name.ofString text).value.toNat, UInt64.toNat_lt _⟩
  write_ne_nil k := natToString_ne_nil k.val
  resumes k := by
    have hk : (UInt64.ofNat k.val).toNat = k.val := UInt64.toNat_ofNat_of_lt' k.isLt
    refine ⟨(Name.mk (UInt64.ofNat k.val)).toString, ?_, fun _ => ?_, fun hnil => ?_⟩
    · have hread := stoull_natToString (UInt64.ofNat k.val)
      rw [hk] at hread
      unfold ChainAPI.nextKeyText
      rw [if_pos rfl, hread]
      have hcast : UInt64.ofInt (k.val : ℤ) = UInt64.ofNat k.val := by
        rw [UInt64.ofInt, Int.emod_eq_of_lt (by omega) (by omega), Int.toNat_natCast]
      simp only [hcast]
    · rw [Name.ofString_toString]
      exact congrArg some (Fin.ext hk)
    · have hzero : (Name.mk (UInt64.ofNat k.val)).value = 0 := by
        rw [← Name.ofString_toString (Name.mk (UInt64.ofNat k.val)), hnil]
        decide
      have hk0 : k.val = 0 := by
        rw [← hk]
        exact congrArg UInt64.toNat hzero
      intro k'
      rw [Fin.le_iff_val_le_val, hk0]
      exact Nat.zero_le _

/-- 64-bit integers: written and read as integers. -/
def i64Keys : KeyCodec (Fin (2 ^ 64)) where
  keyType := "i64"
  write k := natToString k.val
  read text := (stoull text).map (fun n => Fin.ofNat (2 ^ 64) n.toNat)
  write_ne_nil k := natToString_ne_nil k.val
  resumes k := by
    have hk : (UInt64.ofNat k.val).toNat = k.val := UInt64.toNat_ofNat_of_lt' k.isLt
    refine ⟨natToString k.val, rfl, fun _ => ?_, fun hnil => absurd hnil (natToString_ne_nil _)⟩
    have hread := stoull_natToString (UInt64.ofNat k.val)
    rw [hk] at hread
    rw [hread]
    exact congrArg some (Fin.ext (Nat.mod_eq_of_lt k.isLt))

/-! ## A small table -/

/-- A table of rows with the keys 1 to 4, whose contents are their keys. -/
def fourRows : Node (Fin (2 ^ 64)) where
  codec := i64Keys
  contents := {
    rows := [(1, .uint 1), (2, .uint 2), (3, .uint 3), (4, .uint 4)]
    sorted := by decide }

/-- A client of that node. -/
def fourRowsClient : TableClient where
  call := fourRows.getTableRows
  dump := fun _ => []
  decode := fun _ _ _ => .ok .null

/-- A cursor over it that takes two rows a page, in the given direction. -/
def fourRowsArgs (descending : Bool) (maxRows : Int64) : TableCursorArgs where
  abi := {
    tables := [{ name := .ofString "rows", index_type := lit "i64", key_names := []
                 key_types := [], type := lit "row" }] }
  params := [(lit "table", .str (lit "rows")), (lit "code", .str (lit "eosio")),
    (lit "scope", .str (lit "eosio")), (lit "key_type", .str (lit "i64")), (lit "limit", .int 2),
    (lit "reverse", .bool descending)]
  maxRows := some maxRows

/-- The cursor these arguments make. -/
def fourRowsCursor (descending : Bool) (maxRows : Int64) : TableCursor where
  abi := (fourRowsArgs descending maxRows).abi
  type := lit "row"
  params := [(lit "json", .bool false), (lit "limit", .int 2)] ++
    [(lit "table", .str (lit "rows")), (lit "code", .str (lit "eosio")),
      (lit "scope", .str (lit "eosio")), (lit "key_type", .str (lit "i64")),
      (lit "reverse", .bool descending)]
  maxRows := maxRows.toInt

/-- The node understands it. -/
def fourRowsScan (descending : Bool) (maxRows : Int64) (h : 1 ≤ maxRows.toInt) :
    Scan fourRows fourRowsClient (fourRowsCursor descending maxRows) where
  lower := none
  upper := none
  descending := descending
  limit := 2
  asJson := false
  showPayer := false
  value := id
  call_eq := rfl
  keyType_eq := rfl
  scope_eq := ⟨_, rfl⟩
  code_eq := ⟨_, rfl⟩
  table_eq := ⟨_, rfl⟩
  json_eq := rfl
  showPayer_eq := rfl
  reverse_eq := by
    cases descending <;> rfl
  lower_eq := rfl
  upper_eq := rfl
  limit_eq := rfl
  limit_pos := by decide
  maxRows_pos := h
  decodes := by
    intro r hr
    simp only [fourRows, List.mem_cons, List.not_mem_nil, or_false] at hr
    rcases hr with rfl | rfl | rfl | rfl <;> rfl

/-- A forward cursor of at most three rows returns the first three. -/
theorem all_complete_three_rows :
    TableCursor.AllReturns fourRowsClient (fourRowsCursor false 3) [.uint 1, .uint 2, .uint 3] :=
  have hinit : TableCursor.init (fourRowsArgs false 3) = .ok (fourRowsCursor false 3) := rfl
  ((fourRowsScan false 3 (by decide)).all_complete_iff hinit).mpr (.inl rfl)

/-- A reverse cursor of at most three rows returns row 4 a second time, and not row 2. -/
theorem reverse_cursor_repeats :
    TableCursor.AllReturns fourRowsClient (fourRowsCursor true 3) [.uint 4, .uint 3, .uint 4] ∧
      ¬ TableCursor.AllReturns fourRowsClient (fourRowsCursor true 3)
        (fourRowsScan true 3 (by decide)).expected := by
  have hreturns : TableCursor.AllReturns fourRowsClient (fourRowsCursor true 3)
      [.uint 4, .uint 3, .uint 4] := ⟨3, by decide⟩
  refine ⟨hreturns, fun h => ?_⟩
  have heq := h.unique hreturns
  revert heq
  decide

end Dwarfkit
