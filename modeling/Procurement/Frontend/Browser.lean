/-
  Procurement.Frontend.Browser
  ────────────────────────────
  **THE PAGE AT WORK** (`static/app.js`).

  The handlers of the page as async functions over what it shows, from the moment that it
  has been loaded, with or without a token.  `Turn` and `Api` say what one answer looks like
  on the page; here are the gestures, the requests they send, the modal, the toasts, and the
  buttons that are disabled while their handlers run.

  Answers are the structures, which the bytes determine (`Api`).  What validation
  refuses is a request that is never served: it can only fail.  A login is the exception,
  since it comes by the limiter first.
-/
import Procurement.Framework.Buttons
import Procurement.Frontend.Api
import Procurement.Security.Tokens

namespace Procurement

open Procurement.Framework

/-! ## §1. What the page sends. -/

/-- `none` is a payload that validation refuses. -/
inductive Endpoint where
  | register (data : Option RegisterIn)
  | login (payload : Option LoginIn)
  | me
  | listRequests
  | listNegotiations
  | negotiation (id : Id)
  | createRequest (data : Option ProductRequestIn)
  | makeOffer (requestId : Id) (data : Option OfferIn)
  | accept (id : Id)
  | reject (id : Id)
  | counter (id : Id) (data : Option CounterIn)

structure Fetch where
  endpoint : Endpoint
  authorization : Option String
  key : Option String

/-- What arrives at the server, if it is let through.  The limiter sees where it comes
from, and `detail` is what validation says of a login. -/
def Fetch.arrival (r : Fetch) (source : LoginRequest) (detail : String) : Option Arrival :=
  let read op := some (.authorized r.authorization (.read op))
  let post path op := .authorized r.authorization (.post r.key path op)
  match r.endpoint with
  | .register data => data.map .register
  | .login (some payload) => some (.login source payload)
  | .login none => some (.invalidLogin source detail)
  | .me => some (.authorized r.authorization .me)
  | .listRequests => read (.listRequests defaultPage)
  | .listNegotiations => read (.listNegotiations defaultPage)
  | .negotiation id => read (.getNegotiation id)
  | .createRequest data => data.map fun data => post "/requests" (.createRequest data)
  | .makeOffer requestId data =>
      data.map fun data => post s!"/requests/{requestId}/offers" (.makeOffer requestId data)
  | .accept id => some (post s!"/negotiations/{id}/accept" (.accept id))
  | .reject id => some (post s!"/negotiations/{id}/reject" (.reject id))
  | .counter id data => data.map fun data => post s!"/negotiations/{id}/counter" (.counter id data)

/-- A request of the page is handled.  Its key, a random UUID, is in no stored response. -/
def Serving (S : Site) (r : Fetch) (s : Server) (a : Except String Delivered) (s' : Server) : Prop :=
  ∃ arrival source detail m, r.arrival source detail = some arrival ∧ Fresh m.env s.db
    ∧ (∀ k, r.key = some k → s.db.idempotencyKey k = none)
    ∧ a = (s.serve S m arrival).1.mapError Error.shown ∧ s' = (s.serve S m arrival).2

/-! ## §2. What the page shows. -/

/-- The buttons that `withLoading` disables: that of the modal, those of the three forms,
and two of a panel, which are new with each rendering and have its number. -/
inductive Element where
  | confirm
  | registerForm
  | loginForm
  | requestForm
  | accept (rendering : Nat)
  | reject (rendering : Nat)
  deriving DecidableEq

/-- `modalState.onConfirm`, by what its two closures close over. -/
inductive Confirm where
  | offer (requestId : Id)
  | counter (id : Id)

structure Modal where
  hidden : Bool := true
  title : String := ""
  confirmLabel : String := ""
  error : Option String := none
  onConfirm : Option Confirm := none

/-- The detail of a negotiation. -/
structure Panel where
  neg : NegotiationDetailOut
  view : TurnView
  rendering : Nat

/-- A request in the list, and whether it has the button "Ofertar". -/
structure RequestItem where
  row : ProductRequestOut
  offers : Bool

structure Lists where
  requests : List RequestItem
  negotiations : List NegotiationOut
  summary : Summary

/-- What a toast is about. -/
inductive Said where
  | problem (msg : String)
  | enrolled (data : Option RegisterIn)
  | requested (data : Option ProductRequestIn)
  | offered (requestId : Id) (amount : Amount) (message : String)
  /-- The detail with the button, and the price on it. -/
  | closed (shown : NegotiationDetailOut) (amount : Amount) (currency : String)
  | rejected (id : Id)
  | countered (id : Id) (amount : Amount) (message : String)

/-- The text and the class of the toast. -/
def Said.text (t : Texts) : Said → String × String
  | .problem msg => (msg, "bad")
  | .enrolled _ => ("Cuenta creada. Ahora ingresa.", "ok")
  | .requested _ => ("Solicitud creada", "ok")
  | .offered _ _ _ => ("Oferta enviada", "ok")
  | .closed _ amount currency =>
      ("Acuerdo cerrado en " ++ t.money (some (.str (amountText amount))) (some (.str currency)), "ok")
  | .rejected _ => ("Negociación rechazada", "")
  | .countered _ _ _ => ("Contraoferta enviada", "ok")

structure Toast where
  text : String × String
  about : Said

structure Screen where
  token : Option String
  randomUUID : Nat → String
  /-- How many UUIDs have been drawn. -/
  drawn : Nat := 0
  user : Option UserOut := none
  currentNeg : Option Id := none
  toast : Option Toast := none
  disabled : Element → Bool := fun _ => false
  modal : Modal := {}
  lists : Option Lists := none
  detail : Option Panel := none
  /-- How many panels have been rendered. -/
  renderings : Nat := 0

/-- The header, if the token is truthy. -/
def Screen.authorization (page : Screen) : Option String :=
  (page.token.filter fun token => token ≠ "").map fun token => "Bearer " ++ token

def Screen.fetch (page : Screen) (endpoint : Endpoint) (key : Option String) : Fetch :=
  ⟨endpoint, page.authorization, key⟩

def Screen.disable (b : Element) (v : Bool) (page : Screen) : Screen :=
  { page with disabled := Function.update page.disabled b v }

/-- The requests in a listing's body. -/
def requestRows (bodies : List Body) : List ProductRequestOut :=
  bodies.filterMap fun body => match body with
    | .productRequest out => some out
    | .negotiation _ => none

/-- `renderRequests`, `renderNegotiations` and `updateSummary`. -/
def listsOf (user : UserOut) (requests negs : List Body) : Lists where
  requests := (requestRows requests).map fun r =>
    ⟨r, user.role = .supplier && r.status = .opened⟩
  negotiations := negotiationRows negs
  summary := updateSummary user.id (requestRows requests) (negotiationRows negs)

/-! ## §3. The functions of the page. -/

abbrev Js := Async Screen Fetch Delivered String

namespace Browser

section
variable (t : Texts)

/-- What is thrown when a value is not what the code takes it for. -/
def typeError : String := "TypeError"

def api (endpoint : Endpoint) (idempotent : Bool) : Js Delivered := do
  let page ← .read
  -- a key of its own for each call, so a second press is no retry
  let key := if idempotent then some (page.randomUUID page.drawn) else none
  .modify fun page => { page with drawn := page.drawn + key.toList.length }
  let answers ← .all [page.fetch endpoint key]
  match answers.head? with
  | some a => return a
  | none => .throw typeError

def toast (said : Said) : Js Unit :=
  .modify fun page => { page with toast := some ⟨said.text t, said⟩ }

def withLoading (b : Element) (fn : Js Unit) : Js Unit :=
  .locked Screen.disabled Screen.disable b fn

def openModal (title confirmLabel : String) (onConfirm : Confirm) : Js Unit :=
  .modify fun page => { page with
    modal := { hidden := false, title, confirmLabel, onConfirm := some onConfirm } }

def closeModal : Js Unit :=
  .modify fun page => { page with modal := { page.modal with hidden := true, onConfirm := none } }

def modalError (msg : String) : Js Unit :=
  .modify fun page => { page with modal := { page.modal with error := some msg } }

/-- The bodies of the two listings. -/
def listings : List Delivered → Option (List Body × List Body)
  | [.body (.items requests), .body (.items negs)] => some (requests, negs)
  | _ => none

def refresh : Js Unit := .get fun page =>
  match page.user with
  | none => .throw typeError
  | some user => do
      -- both at once: the state can change between the two answers
      let answers ← .all [page.fetch .listRequests none, page.fetch .listNegotiations none]
      match listings answers with
      | none => .throw typeError
      | some (requests, negs) =>
          .modify fun page => { page with lists := some (listsOf user requests negs) }

/-- The panel of a negotiation, with `renderTurn`.  What opens one comes behind the lists,
and they come behind the user. -/
def render (neg : NegotiationDetailOut) (page : Screen) : Screen :=
  match page.user with
  | none => page
  | some user =>
      { page with
        detail := some ⟨neg, renderTurn user.id neg, page.renderings⟩
        renderings := page.renderings + 1 }

def asDetail : Delivered → Option NegotiationDetailOut
  | .body (.detail neg) => some neg
  | _ => none

def openNegotiation (id : Id) : Js Unit := do
  .modify fun page => { page with currentNeg := some id }
  let neg ← ((api (.negotiation id) false).bind fun a => .ret (some a)).tryCatch fun err => do
    toast t (.problem err)
    return none
  match neg with
  -- the toast has said why
  | none => return
  | some neg =>
      match asDetail neg with
      | none => .throw typeError
      | some neg => .modify (render neg)

def postDecision (id : Id) (act : Endpoint) : Js Unit := do
  let _ ← api act true
  refresh
  openNegotiation t id

def accept_ (rendering : Nat) (neg : NegotiationDetailOut) (amount : Amount) (currency : String) :
    Js Unit :=
  withLoading (.accept rendering) <|
    Async.tryCatch (do
      postDecision t neg.id (.accept neg.id)
      toast t (.closed neg amount currency))
      fun err => toast t (.problem err)

def reject_ (rendering : Nat) (id : Id) : Js Unit :=
  withLoading (.reject rendering) <|
    Async.tryCatch (do
      postDecision t id (.reject id)
      toast t (.rejected id))
      fun err => toast t (.problem err)

def makeOffer (requestId : Id) (productName : String) : Js Unit :=
  openModal ("Ofertar por " ++ productName) "Enviar oferta" (.offer requestId)

def counterOffer (id : Id) : Js Unit :=
  openModal "Tu contraoferta" "Enviar contraoferta" (.counter id)

/-- The body of an offer, if validation lets it through. -/
def offerIn (amount : Amount) (message : String) : Option OfferIn :=
  if h : 0 < amount ∧ amount < 10 ^ 14 ∧ message.length ≤ 500 then
    some
      { amount, message := some message, amount_pos := h.1, amount_digits := h.2.1
        currency_length := rfl
        message_max := fun _ hm => Option.some.inj hm ▸ h.2.2 }
  else none

def counterIn (amount : Amount) (message : String) : Option CounterIn :=
  if h : 0 < amount ∧ amount < 10 ^ 14 ∧ message.length ≤ 500 then
    some
      { amount, message := some message, amount_pos := h.1, amount_digits := h.2.1
        message_max := fun _ hm => Option.some.inj hm ▸ h.2.2 }
  else none

/-- `a || b` -/
def orElse (a b : String) : String := if a = "" then b else a

def negotiationId : Delivered → Option Id
  | .response ⟨_, .negotiation out⟩ => some out.id
  | _ => none

/-- The two closures. -/
def onConfirm (amount : Amount) (message : String) : Confirm → Js Unit
  | .offer requestId => do
      let message := orElse message "Oferta inicial"
      let neg ← api (.makeOffer requestId (offerIn amount message)) true
      toast t (.offered requestId amount message)
      refresh
      -- the negotiation is the one that the answer names
      match negotiationId neg with
      | some id => openNegotiation t id
      | none => .throw typeError
  | .counter id => do
      let message := orElse message "Contraoferta"
      postDecision t id (.counter id (counterIn amount message))
      toast t (.countered id amount message)

/-- `modalState.onConfirm(…)` -/
def confirm (amount : Amount) (message : String) : Js Unit := .get fun page =>
  match page.modal.onConfirm with
  | none => .throw typeError
  | some c => onConfirm t amount message c

/-- The modal's form.  `amount` is what the field holds, in hundredths, if it is a finite
number; one that the server refuses stands for all of them.  `message` is what is left
of the other field when it is trimmed. -/
def submit (amount : Option Amount) (message : String) : Js Unit :=
  match amount.filter (0 < ·) with
  | none => modalError "Ingresa un monto válido mayor a 0."
  | some amount =>
      withLoading .confirm <|
        Async.tryCatch (do
          confirm t amount message
          closeModal)
          modalError

def createRequest (data : Option ProductRequestIn) : Js Unit :=
  withLoading .requestForm <|
    Async.tryCatch (do
      let _ ← api (.createRequest data) true
      toast t (.requested data)
      refresh)
      fun err => toast t (.problem err)

def register (data : Option RegisterIn) : Js Unit :=
  withLoading .registerForm <|
    Async.tryCatch (do
      let _ ← api (.register data) false
      toast t (.enrolled data))
      fun err => toast t (.problem err)

def asUser : Delivered → Option UserOut
  | .user out => some out
  | _ => none

def boot : Js Unit := do
  let user ← api .me false
  match asUser user with
  | none => .throw typeError
  | some user => do
      .modify fun page => { page with user := some user }
      refresh

def asToken : Delivered → Option TokenOut
  | .token out => some out
  | _ => none

def login (payload : Option LoginIn) : Js Unit :=
  withLoading .loginForm <|
    Async.tryCatch (do
      let answer ← api (.login payload) false
      match asToken answer with
      | none => .throw typeError
      | some out => do
          .modify fun page => { page with token := some out.accessToken }
          boot)
      fun err => toast t (.problem err)

end

end Browser

/-! ## §4. Gestures. -/

inductive Gesture where
  | boot
  | register (data : Option RegisterIn)
  | login (payload : Option LoginIn)
  | createRequest (data : Option ProductRequestIn)
  | openNegotiation (id : Id)
  | makeOffer (requestId : Id)
  | accept (rendering : Nat)
  | counter (rendering : Nat)
  | reject (rendering : Nat)
  | cancel
  | submit (amount : Option Amount) (message : String)

/-- The button it presses, of those that `withLoading` disables. -/
def Gesture.button : Gesture → Option Element
  | .register _ => some .registerForm
  | .login _ => some .loginForm
  | .createRequest _ => some .requestForm
  | .accept rendering => some (.accept rendering)
  | .reject rendering => some (.reject rendering)
  | .submit _ _ => some .confirm
  | _ => none

/-- The negotiation of the panel and the button in question, if the panel still has it. -/
def Screen.button (page : Screen) (rendering : Nat) (which : Button → Bool) :
    Option (Panel × Button) :=
  page.detail.bind fun panel =>
    if panel.rendering = rendering then (panel.view.actions.find? which).map fun b => (panel, b)
    else none

def Button.price : Button → Option (Amount × String)
  | .accept amount currency => some (amount, currency)
  | _ => none

/-- What a gesture calls.  A list entry or a button can be pressed while it is there. -/
def Gesture.handler (t : Texts) : Gesture → Js Unit
  | .boot => Browser.boot
  | .register data => Browser.register t data
  | .login payload => Browser.login t payload
  | .createRequest data => Browser.createRequest t data
  | .openNegotiation id => .get fun page =>
      if page.lists.any fun lists => lists.negotiations.any fun n => n.id = id then
        Browser.openNegotiation t id
      else .ret ()
  | .makeOffer requestId => .get fun page =>
      match (page.lists.bind fun lists => lists.requests.find? fun r =>
          r.row.id = requestId && r.offers) with
      | some r => Browser.makeOffer requestId r.row.productName
      | none => .ret ()
  | .accept rendering => .get fun page =>
      match (page.button rendering fun b => b.price.isSome).bind fun x =>
          x.2.price.map fun price => (x.1, price) with
      -- the price is the one on the button, whatever the chain is by now
      | some (panel, amount, currency) =>
          Browser.accept_ t rendering panel.neg amount currency
      | none => .ret ()
  | .counter rendering => .get fun page =>
      match page.button rendering (· = .counter) with
      | some (panel, _) => Browser.counterOffer panel.neg.id
      | none => .ret ()
  | .reject rendering => .get fun page =>
      match page.button rendering (· = .reject) with
      | some (panel, _) => Browser.reject_ t rendering panel.neg.id
      | none => .ret ()
  | .cancel => Browser.closeModal
  | .submit amount message => Browser.submit t amount message

/-- The pages, each in its own tab, and the server. -/
abbrev Browsing := Net Gesture Screen Fetch Delivered String Server

/-- Whatever happens: on the pages, by the gestures that `presses` has for each, on the way,
and by requests of others. -/
abbrev BrowsingRun (S : Site) (t : Texts) (presses : Nat → Gesture → Prop) :
    Browsing → Browsing → Prop :=
  Net.Run presses (Serving S) (Serves S) (Gesture.handler t)

/-- The pages have been loaded, each with the token that is stored for it, if any. -/
def Server.opened (s : Server) (token : Nat → Option String) (uuids : Nat → Nat → String) :
    Browsing where
  server := s
  tabs i := { page := { token := token i, randomUUID := uuids i }, tasks := fun _ => none, started := 0 }

end Procurement
