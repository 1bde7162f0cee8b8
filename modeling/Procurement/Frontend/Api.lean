/-
  Procurement.Frontend.Api
  ────────────────────────
  **THE PAGE ON THE BYTES** (`static/app.js`).

  `api` fetches, parses and either hands on the parsed body or throws the
  message of the error.  The functions that fill the page work on that parsed
  body: they read fields by name and compare them with `===`.

      state ── endpoint ──> bytes ── api ──> JSON ── renderProposals, … ──> page

  `Frontend.Turn` has the decisions of the page on structures.  Here they are on
  JSON values, and on the bytes of a state they come out the same.
-/
import Procurement.Routers.Wire
import Procurement.Frontend.Turn

namespace Procurement

open Procurement.Framework

/-! ## §1. JavaScript values. -/

/-- Everything but `null`, `false`, `0` and `""`; `undefined` is `none`. -/
def truthy : Json → Bool
  | .null => false
  | .bool b => b
  | .int i => i ≠ 0
  | .float d => d.value ≠ 0
  | .str s => s ≠ ""
  | .arr _ | .obj _ => true

/-- `a === b`, for the values that the fields of the API have: two objects are
not the same, and numbers are integers. -/
def strictEq : Option Json → Option Json → Bool
  | none, none => true
  | some .null, some .null => true
  | some (.bool a), some (.bool b) => a = b
  | some (.int a), some (.int b) => a = b
  | some (.str a), some (.str b) => a = b
  | _, _ => false

/-- What a `for` runs over, and what has a `length`; else a TypeError. -/
def elements : Json → Option (List Json)
  | .arr items => some items
  | _ => none

/-! ## §2. Fetching. -/

/-- `api` returns, or throws an `Error`. -/
inductive ApiResult where
  | data (body : Json)
  | thrown (message : String)

/-- `stringify` is `JSON.stringify`.  A body that is no JSON is read as `null`. -/
def api (stringify : Json → String) (res : Sent) : ApiResult :=
  let data := if res.status = 204 then Json.null else (loads res.text).getD .null
  if 200 ≤ res.status ∧ res.status < 300 then .data data
  else
    let msg := ((data.get "message").filter truthy <|> (data.get "detail").filter truthy).getD
      (.str ("Error " ++ toString res.status))
    match msg with
    | .str s => .thrown s
    | v => .thrown (stringify v)

/-- The message of an error, as the page is to show it. -/
def Error.message : Error → String
  | .notFound message | .permissionDenied message | .conflict message => message
  | .http _ detail => detail
  | .server => ""

/-- Without a message there is the status. -/
def Error.shown (e : Error) : String :=
  if e.message = "" then "Error " ++ toString e.statusCode else e.message

/-- What a GET of the API answers: the body with status 200, or the error. -/
def readSent (iso : Time → String) : Except Error ReadBody → Sent
  | .ok body => jsonResponse 200 (body.dump iso)
  | .error e => e.sent

/-! ## §3. The detail of a negotiation. -/

/-- The built-ins that turn a value into a text. -/
structure Texts where
  /-- `String(v)` -/
  text : Option Json → String
  /-- `Number.isFinite(Number(v))` -/
  isFinite : Option Json → Bool
  /-- `copFmt.format(Number(v))` -/
  copFormat : Option Json → String
  /-- `Number(v).toLocaleString("es-CO")` -/
  toLocaleString : Option Json → String
  /-- `!Number.isNaN(new Date(v).getTime())` -/
  isDate : Option Json → Bool
  /-- `new Date(v).toLocaleString("es-CO")` -/
  dateString : Option Json → String

/-- A proposal in the timeline. -/
structure Bubble where
  className : String
  amount : String
  metaLine : String
  msg : Option String
  deriving DecidableEq, Repr

/-- Banner and buttons, by their texts. -/
structure TurnPanel where
  bannerText : String
  bannerClass : String
  buttons : List String
  deriving DecidableEq, Repr

structure DetailView where
  id : String
  status : String
  statusClass : String
  proposals : List Bubble
  turn : TurnPanel
  deriving DecidableEq, Repr

namespace Texts
variable (t : Texts)

/-- `copFmt` has no fraction digits, so two amounts in pesos may have one text. -/
def money (n currency : Option Json) : String :=
  if !t.isFinite n then t.text n
  else if (currency.filter truthy).isNone || strictEq currency (some (.str "COP")) then t.copFormat n
  else t.toLocaleString n ++ " " ++ t.text currency

def formatDate (iso : Option Json) : String := if t.isDate iso then t.dateString iso else ""

def bubble (p : Json) : Bubble where
  className := "bubble " ++ t.text (p.get "actor_role")
  amount := t.money (p.get "amount") (p.get "currency")
  metaLine := t.text (p.get "actor_role") ++ " · " ++ t.text (p.get "kind") ++ " · "
    ++ t.formatDate (p.get "created_at")
  msg := ((p.get "message").filter truthy).map fun m => t.text (some m)

def renderProposals (proposals : List Json) : List Bubble := proposals.map t.bubble

/-- `user` is `state.user`. -/
def renderTurn (user neg : Json) (proposals : List Json) : TurnPanel :=
  let isActive := strictEq (neg.get "status") (some (.str "active"))
  match proposals.getLast?.filter fun last =>
      isActive && truthy last && !strictEq (last.get "actor_id") (user.get "id") with
  | some last =>
      { bannerText := "✅ Es tu turno: responde a la última propuesta."
        bannerClass := "turn-banner mine"
        buttons := ["Aceptar " ++ t.money (last.get "amount") (last.get "currency"),
          "Contraofertar", "Rechazar"] }
  | none =>
      if isActive then
        { bannerText := "⏳ Esperando respuesta de la contraparte."
          bannerClass := "turn-banner theirs", buttons := [] }
      else { bannerText := "", bannerClass := "turn-banner hidden", buttons := [] }

/-- `openNegotiation` on what `api` returned; `none` is a TypeError, of a body
without proposals. -/
def openNegotiation (user neg : Json) : Option DetailView := do
  let proposals ← (neg.get "proposals").bind elements
  some
    { id := "#" ++ t.text (neg.get "id")
      status := t.text (neg.get "status")
      statusClass := "badge " ++ t.text (neg.get "status")
      proposals := t.renderProposals proposals
      turn := t.renderTurn user neg proposals }

end Texts

/-! ## §4. The lists. -/

/-- The numbers above the lists, from the two bodies. -/
def summaryOf (user : Json) (requests negs : List Json) : Summary :=
  let active := negs.filter fun n => strictEq (n.get "status") (some (.str "active"))
  { requests := requests.length
    negotiations := active.length
    -- `!= null` holds of what is neither `null` nor `undefined`
    turn := (active.filter fun n => match n.get "last_actor_id" with
      | none | some .null => false
      | some a => !strictEq (some a) (user.get "id")).length
    turnHidden := !negs.any fun n => (n.get "last_actor_id").isSome }

/-! ## §5. On the dumps. -/

/-- The same page from the structures. -/
def Texts.bubbleOf (t : Texts) (iso : Time → String) (p : ProposalOut) : Bubble where
  className := "bubble " ++ t.text (some (.str p.actorRole.value))
  amount := t.money (some (.str (amountText p.amount))) (some (.str p.currency))
  metaLine := t.text (some (.str p.actorRole.value)) ++ " · " ++ t.text (some (.str p.kind.value))
    ++ " · " ++ t.formatDate (some (.str (iso p.createdAt)))
  msg := (p.message.filter fun m => m ≠ "").map fun m => t.text (some (.str m))

/-- A button's text. -/
def Texts.label (t : Texts) : Button → String
  | .accept amount currency =>
      "Aceptar " ++ t.money (some (.str (amountText amount))) (some (.str currency))
  | .counter => "Contraofertar"
  | .reject => "Rechazar"

def Texts.panel (t : Texts) (view : TurnView) : TurnPanel where
  bannerText := view.bannerText
  bannerClass := view.bannerClass
  buttons := view.actions.map t.label

def Texts.detailOf (t : Texts) (iso : Time → String) (userId : Id) (neg : NegotiationDetailOut) :
    DetailView where
  id := "#" ++ t.text (some (.int neg.id))
  status := t.text (some (.str neg.status.value))
  statusClass := "badge " ++ t.text (some (.str neg.status.value))
  proposals := neg.proposals.map (t.bubbleOf iso)
  turn := t.panel (Procurement.renderTurn userId neg)

section
variable (t : Texts) (iso : Time → String)

/-- A message that is `null` or empty has no line. -/
theorem filter_orNull_str (m : Option String) :
    ((some (orNull .str m)).filter truthy).map (fun v => t.text (some v))
      = (m.filter fun m => m ≠ "").map fun m => t.text (some (.str m)) := by
  cases m with
  | none => rfl
  | some m => by_cases h : m = "" <;> simp [orNull, truthy, Option.filter, h]

/-- A proposal comes out the same. -/
theorem bubble_dump (p : ProposalOut) : t.bubble (p.dump iso) = t.bubbleOf iso p := by
  have hmessage := filter_orNull_str t p.message
  simp [Texts.bubble, Texts.bubbleOf, ProposalOut.dump, Json.get, List.lookup_cons, hmessage]

/-- The status is compared by its text. -/
theorem strictEq_active (status : NegotiationStatus) :
    strictEq (some (.str status.value)) (some (.str "active")) = decide (status = .active) := by
  cases status <;> decide

/-- The banner and the buttons come out the same. -/
theorem renderTurn_dump (user : UserOut) (neg : NegotiationDetailOut) :
    t.renderTurn user.dump (neg.dump iso) (neg.proposals.map (·.dump iso))
      = t.panel (Procurement.renderTurn user.id neg) := by
  have hstatus : (neg.dump iso).get "status" = some (.str neg.status.value) := by
    simp [NegotiationDetailOut.dump, NegotiationOut.fields, Json.get, List.lookup_cons]
  have huser : user.dump.get "id" = some (.int user.id) := by
    simp [UserOut.dump, Json.get, List.lookup_cons]
  have hactor : ∀ p : ProposalOut, (p.dump iso).get "actor_id" = some (.int p.actorId)
      ∧ (p.dump iso).get "amount" = some (.str (amountText p.amount))
      ∧ (p.dump iso).get "currency" = some (.str p.currency) := by
    intro p
    simp [ProposalOut.dump, Json.get, List.lookup_cons]
  have htruthy : ∀ p : ProposalOut, truthy (p.dump iso) = true := fun _ => rfl
  unfold Texts.renderTurn Procurement.renderTurn
  simp only [hstatus, strictEq_active, huser, List.getLast?_map]
  cases hlast : neg.proposals.getLast? with
  | none =>
      by_cases hactive : neg.status = .active
      · simp [hactive, Texts.panel]
      · simp [hactive, Texts.panel]
  | some last =>
      obtain ⟨hid, hamount, hcurrency⟩ := hactor last
      by_cases hactive : neg.status = .active
      · by_cases hturn : last.actorId = user.id
        · simp [Option.filter, htruthy, hid, strictEq, hactive, hturn, Texts.panel]
        · simp [Option.filter, htruthy, hid, strictEq, hactive, hturn, Texts.panel, Texts.label,
            hamount, hcurrency]
      · simp [Option.filter, hactive, Texts.panel]

/-- The whole detail comes out the same. -/
theorem openNegotiation_dump (user : UserOut) (neg : NegotiationDetailOut) :
    t.openNegotiation user.dump (neg.dump iso) = some (t.detailOf iso user.id neg) := by
  have hfields : (neg.dump iso).get "id" = some (.int neg.id)
      ∧ (neg.dump iso).get "status" = some (.str neg.status.value)
      ∧ (neg.dump iso).get "proposals" = some (.arr (neg.proposals.map (·.dump iso))) := by
    simp [NegotiationDetailOut.dump, NegotiationOut.fields, Json.get, List.lookup_cons]
  obtain ⟨hid, hstatus, hproposals⟩ := hfields
  unfold Texts.openNegotiation Texts.renderProposals
  rw [hproposals, hid, hstatus]
  show some _ = some _
  rw [renderTurn_dump, List.map_map]
  simp only [Texts.detailOf, Function.comp_def, bubble_dump]

/-- The numbers above the lists come out the same. -/
theorem summaryOf_dump (user : UserOut) (requests : List ProductRequestOut)
    (negs : List NegotiationOut) :
    summaryOf user.dump (requests.map (·.dump iso)) (negs.map fun n => .obj (n.fields iso))
      = updateSummary user.id requests negs := by
  have huser : user.dump.get "id" = some (.int user.id) := by
    simp [UserOut.dump, Json.get, List.lookup_cons]
  have hfields : ∀ n : NegotiationOut,
      (Json.obj (n.fields iso)).get "status" = some (.str n.status.value)
        ∧ (Json.obj (n.fields iso)).get "last_actor_id" = some (orNull .int n.lastActorId) := by
    intro n
    simp [NegotiationOut.fields, Json.get, List.lookup_cons]
  have hactive : (negs.map fun n => Json.obj (n.fields iso)).filter
        (fun n => strictEq (n.get "status") (some (.str "active")))
      = (negs.filter fun n => n.status = .active).map fun n => Json.obj (n.fields iso) := by
    rw [List.filter_map]
    refine congrArg _ (List.filter_congr fun n _ => ?_)
    rw [Function.comp_apply, (hfields n).1, strictEq_active]
  unfold summaryOf updateSummary myTurn
  simp only [hactive, List.filter_map, List.length_map, Summary.mk.injEq, true_and]
  constructor
  · refine congrArg List.length (List.filter_congr fun n _ => ?_)
    show (match (Json.obj (n.fields iso)).get "last_actor_id" with
      | none | some .null => false
      | some a => !strictEq (some a) (user.dump.get "id")) = _
    rw [(hfields n).2, huser]
    cases hlast : n.lastActorId with
    | none => simp [orNull]
    | some a => by_cases ha : a = user.id <;> simp [orNull, strictEq, ha]
  · rw [List.any_map]
    congr 1

/-! ## §6. What the page shows of a state. -/

variable (stringify : Json → String)

/-- A success reaches the page as its body. -/
theorem api_json (status : Nat) (content : Json) (hok : 200 ≤ status ∧ status < 300)
    (hbody : status ≠ 204) : api stringify (jsonResponse status content) = .data content := by
  unfold api jsonResponse
  simp only [loads_compactText, Option.getD_some, if_neg hbody, if_pos hok]

/-- An error reaches the page as the message that the server meant for it. -/
theorem api_error (e : Error) (h : ¬ (200 ≤ e.statusCode ∧ e.statusCode < 300)) :
    api stringify e.sent = .thrown e.shown := by
  have hbody : e.statusCode ≠ 204 := by
    intro h204
    rw [h204] at h
    exact h (by decide)
  unfold api Error.shown
  cases e with
  | server => rfl
  | notFound m | permissionDenied m | conflict m | http n m =>
      have hstatus := h
      simp only [Error.sent, Error.content, jsonResponse, loads_compactText, Option.getD_some,
        if_neg hbody, if_neg hstatus]
      by_cases hm : m = ""
      · simp [Json.get, List.lookup_cons, truthy, Option.filter, hm, Error.message]
      · simp [Json.get, List.lookup_cons, truthy, Option.filter, hm, Error.message]

end

/-- The request as a row of a listing. -/
def ProductRequest.out (r : ProductRequest) : ProductRequestOut :=
  { id := r.id, clientId := r.clientId, productName := r.productName, description := r.description,
    quantity := r.quantity, status := r.status, createdAt := r.createdAt }

/-- What `openNegotiation(id)` ends with: the detail, a toast, or a TypeError. -/
inductive Opened where
  | view (detail : DetailView)
  | toast (message : String)
  | typeError

section
variable (t : Texts) (iso : Time → String) (stringify : Json → String)

/-- `boot`: `state.user` is what `api("/auth/me")` returns. -/
def bootUser (env : Env) (db : Db) (caller : Id) : ApiResult :=
  match (engine.request (handleMe caller) env calm db).1 with
  | .ok out => api stringify (jsonResponse 200 out.dump)
  | .error e => api stringify e.sent

/-- One GET, and what the page does with its answer. -/
def Texts.opened (env : Env) (db : Db) (caller : Id) (user : Json) (negotiationId : Id) : Opened :=
  match api stringify (readSent iso (ReadRequest.response ⟨caller, .getNegotiation negotiationId⟩ env db)) with
  | .thrown message => .toast message
  | .data neg =>
      match t.openNegotiation user neg with
      | some view => .view view
      | none => .typeError

theorem fifty_min : 1 ≤ 50 := by decide

theorem fifty_max : 50 ≤ 100 := by decide

/-- The page of a GET without a query. -/
def defaultPage : Page := ⟨50, 0, fifty_min, fifty_max⟩

/-- The two GETs of `refresh`, with the default page, and the numbers made of
them; `none` when one of them throws or is no list. -/
def refreshed (env : Env) (db : Db) (caller : Id) (user : Json) : Option Summary :=
  match api stringify (readSent iso (ReadRequest.response ⟨caller, .listRequests defaultPage⟩ env db)),
      api stringify (readSent iso (ReadRequest.response ⟨caller, .listNegotiations defaultPage⟩ env db)) with
  | .data requests, .data negs => do
      let requests ← elements requests
      let negs ← elements negs
      some (summaryOf user requests negs)
  | _, _ => none

variable {db : Db} {user : User} {env : Env}

/-- The page knows its user. -/
theorem bootUser_eq (hu : db.user user.id = some user) :
    bootUser stringify env db user.id = .data user.out.dump := by
  unfold bootUser
  rw [handleMe_answers]
  simp only [hu]
  exact api_json stringify 200 _ (by decide) (by decide)

/-- A detail on the page is the detail of the state. -/
theorem opened_eq (hu : db.user user.id = some user) (i : Id) :
    t.opened iso stringify env db user.id user.out.dump i
      = match db.negotiationFor user i with
        | .error e => .toast e.shown
        | .ok n => .view (t.detailOf iso user.id (db.detail n)) := by
  unfold Texts.opened
  rw [response_eq hu]
  show (match api stringify (readSent iso ((db.negotiationFor user i).map _)) with
    | .thrown message => _
    | .data neg => _) = _
  cases hfor : db.negotiationFor user i with
  | error e =>
      have hstatus : ¬ (200 ≤ e.statusCode ∧ e.statusCode < 300) := by
        unfold Db.negotiationFor at hfor
        split at hfor
        · obtain rfl := Except.error.inj hfor
          decide
        · split at hfor
          · obtain rfl := Except.error.inj hfor
            decide
          · split at hfor
            · obtain rfl := Except.error.inj hfor
              decide
            · exact absurd hfor (by simp)
      simp only [Except.map, readSent, api_error stringify e hstatus]
  | ok n =>
      simp only [Except.map, readSent]
      rw [api_json stringify 200 _ (by decide) (by decide)]
      show (match t.openNegotiation user.out.dump ((db.detail n).dump iso) with
        | some view => Opened.view view
        | none => .typeError) = _
      rw [openNegotiation_dump]
      rfl

theorem ReadBody.items_dump (bodies : List Body) :
    (ReadBody.items bodies).dump iso = .arr (bodies.map (·.dump iso)) := rfl

/-- The numbers on the page are those of the listings of the state. -/
theorem refreshed_eq (hu : db.user user.id = some user) :
    refreshed iso stringify env db user.id user.out.dump
      = some (updateSummary user.id
          ((page ProductRequest.id 50 0 (db.listedRequests user)).map ProductRequest.out)
          ((page Negotiation.id 50 0 (db.listedNegotiations user)).map db.out)) := by
  have hrequests : ((page ProductRequest.id 50 0 (db.listedRequests user)).map renderedRequest).map
        (·.dump iso)
      = ((page ProductRequest.id 50 0 (db.listedRequests user)).map ProductRequest.out).map
        (·.dump iso) := by
    rw [List.map_map, List.map_map]
    rfl
  have hnegs : ((page Negotiation.id 50 0 (db.listedNegotiations user)).map
        fun n => Body.negotiation (db.out n)).map (·.dump iso)
      = ((page Negotiation.id 50 0 (db.listedNegotiations user)).map db.out).map
        fun n => .obj (n.fields iso) := by
    rw [List.map_map, List.map_map]
    rfl
  unfold refreshed
  rw [response_eq hu, response_eq hu]
  simp only [ReadOp.answer, readSent, api_json stringify 200 _ (by decide : 200 ≤ 200 ∧ 200 < 300)
    (by decide), ReadBody.items_dump, elements, defaultPage]
  rw [hrequests, hnegs]
  exact congrArg some (summaryOf_dump iso user.out _ _)

/-- **The page is the state.**  Whatever the state, from the bytes of the answers
the page knows its user, shows of a negotiation exactly the proposals, the status
and the buttons that the state has for him, or the very message of the error, and
counts exactly the rows of the first page of his listings, fifty of each. -/
theorem page_on_bytes (hu : db.user user.id = some user) :
    bootUser stringify env db user.id = .data user.out.dump
      ∧ (∀ i, t.opened iso stringify env db user.id user.out.dump i
        = match db.negotiationFor user i with
          | .error e => .toast e.shown
          | .ok n => .view (t.detailOf iso user.id (db.detail n)))
      ∧ refreshed iso stringify env db user.id user.out.dump
        = some (updateSummary user.id
            ((page ProductRequest.id 50 0 (db.listedRequests user)).map ProductRequest.out)
            ((page Negotiation.id 50 0 (db.listedNegotiations user)).map db.out)) :=
  ⟨bootUser_eq stringify hu, fun i => opened_eq t iso stringify hu i,
    refreshed_eq iso stringify hu⟩

end

/-! ### The second supplier opens the first one's negotiation, and then his own. -/

/-- `String(v)` of the values that the API has. -/
def plainText : Option Json → String
  | some (.str s) => s
  | some (.int i) => String.ofList (Json.renderInt i)
  | some .null => "null"
  | none => "undefined"
  | some v => compactText v

/-- An amount in whole pesos. -/
def plainPesos (text : List Char) : Nat :=
  let whole := Nat.ofDigitChars 10 (text.takeWhile fun c => c ≠ '.') 0
  let tenths := ((text.dropWhile fun c => c ≠ '.').drop 1).head?
  if tenths.any fun c => '5' ≤ c then whole + 1 else whole

def plainTexts : Texts where
  text := plainText
  isFinite _ := true
  copFormat v := "$ " ++ String.ofList (Json.renderInt (plainPesos (plainText v).toList))
  toLocaleString := plainText
  isDate _ := true
  dateString := plainText

-- what the text says is rounded
example : plainTexts.money (some (.str "100.50")) (some (.str "COP")) = "$ 101" := by decide +kernel

def Opened.buttons : Opened → Option (List String)
  | .view detail => some detail.turn.buttons
  | _ => none

/-- The supplier is no participant of the other's negotiation; the client has the buttons of
both, and counts them. -/
theorem page_on_bytes_market : ∃ client supplier, market.user 1 = some client
    ∧ market.user 3 = some supplier
    ∧ plainTexts.opened epochText compactText (.following market) market supplier.id
        supplier.out.dump 1 = .toast "You are not a participant in this negotiation"
    ∧ (plainTexts.opened epochText compactText (.following market) market client.id
        client.out.dump 2).buttons = some ["Aceptar $ 1", "Contraofertar", "Rechazar"]
    ∧ refreshed epochText compactText (.following market) market client.id client.out.dump
        = some ⟨1, 2, 2, false⟩ := by
  have hrefused : (market.user 3).any (fun u => u.id = 3 ∧ market.negotiationFor u 1
      = .error (.permissionDenied "You are not a participant in this negotiation")) = true := by
    decide +kernel
  have hshown : (market.user 1).any (fun u => u.id = 1
      ∧ ((market.negotiationFor u 2).map fun n =>
          (plainTexts.detailOf epochText u.id (market.detail n)).turn.buttons)
        = .ok ["Aceptar $ 1", "Contraofertar", "Rechazar"]
      ∧ updateSummary u.id
          ((page ProductRequest.id 50 0 (market.listedRequests u)).map ProductRequest.out)
          ((page Negotiation.id 50 0 (market.listedNegotiations u)).map market.out)
        = ⟨1, 2, 2, false⟩) = true := by
    decide +kernel
  obtain ⟨supplier, hsupplier, hthis⟩ := (Option.any_eq_true _ _).mp hrefused
  obtain ⟨client, hclient, hthat⟩ := (Option.any_eq_true _ _).mp hshown
  obtain ⟨hid, hfor⟩ := of_decide_eq_true hthis
  obtain ⟨hid', hbuttons, hcounts⟩ := of_decide_eq_true hthat
  have hrow : market.user supplier.id = some supplier := by rw [hid, hsupplier]
  have hrow' : market.user client.id = some client := by rw [hid', hclient]
  refine ⟨client, supplier, hclient, hsupplier, ?_, ?_, ?_⟩
  · rw [(page_on_bytes plainTexts epochText compactText hrow).2.1 1, hfor]
    rfl
  · rw [(page_on_bytes plainTexts epochText compactText hrow').2.1 2]
    cases hpanel : market.negotiationFor client 2 with
    | error e =>
        rw [hpanel] at hbuttons
        exact absurd hbuttons (by simp [Except.map])
    | ok n =>
        rw [hpanel] at hbuttons
        exact congrArg some (Except.ok.inj hbuttons)
  · rw [(page_on_bytes plainTexts epochText compactText hrow').2.2, hcounts]

end Procurement
