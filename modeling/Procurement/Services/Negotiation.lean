/-
  Procurement.Services.Negotiation
  ────────────────────────────────
  **THE SERVICES** (`services/audit.py`, `services/users.py`,
  `services/negotiation.py`), function by function in the source's order.

  The services flush and never commit, `registerUser` excepted.  An attribute
  that is assigned and then flushed is one UPDATE statement here, sent where
  the flush sends it.
-/
import Procurement.Model.Database

namespace Procurement

open Procurement.Framework
open Procurement.Framework.Program

/-! ## §1. The audit trail. -/

/-- Append an audit entry tagged with the current correlation id. -/
def record (action : AuditAction) (entityType : EntityType) (entityId actorId : Option Id)
    (details : Details) : Prog Unit := do
  let correlationId ← query .requestIdCtx
  query (.insertAudit correlationId actorId action entityType entityId details)

/-! ## §2. Users. -/

/-- `db.refresh(user)`: read the row again. -/
def refresh (user : User) : Prog User := do
  let row ← query (.getUser user.id)
  match row with
  | none => raise .server
  | some user => return user

def registerUser (data : RegisterIn) : Prog User := do
  let existing ← query (.userByEmail data.email)
  match existing with
  | some _ => raise (.conflict "Email already registered")
  | none =>
      let hashed ← query (.hashPassword data.password)
      let user ← query (.insertUser data.email hashed data.role data.fullName)
      record .userRegistered .user (some user.id) (some user.id) (.role user.role)
      commitNow
      refresh user

/-! ## §3. Requests. -/

def createRequest (client : User) (data : ProductRequestIn) : Prog ProductRequest := do
  let req ← query (.insertRequest client.id data.productName data.description data.quantity .opened)
  record .requestCreated .productRequest (some req.id) (some client.id)
    (.product req.productName req.quantity)
  return req

def listRequests (user : User) (limit offset : Nat) : Prog (List ProductRequest) :=
  if user.role = .client then
    query (.requestsOfClient user.id limit offset)
  else -- suppliers browse the marketplace of open requests
    query (.openRequests limit offset)

def getRequest (user : User) (requestId : Id) : Prog ProductRequest := do
  let req ← query (.getRequest requestId)
  match req with
  | none => raise (.notFound "Request not found")
  | some req =>
      if user.role = .client ∧ req.clientId ≠ user.id then
        raise (.permissionDenied "Not your request")
      else return req

/-! ## §4. Internals. -/

def addProposal (neg : Negotiation) (actor : User) (kind : ProposalKind) (amount : Amount)
    (currency : String) (message : Option String) : Prog Proposal :=
  query (.insertProposal neg.id actor.id actor.role kind amount currency message)

def lastProposal (neg : Negotiation) : Prog Proposal := do
  let proposal ← query (.lastProposal neg.id)
  match proposal with
  | none => raise (.conflict "Negotiation has no proposals")
  | some proposal => return proposal

/-- `raise .server` is the AttributeError of `None.client_id`. -/
def ensureParticipant (user : User) (neg : Negotiation) : Prog ProductRequest := do
  let req ← query (.getRequest neg.requestId)
  match req with
  | none => raise .server
  | some req =>
      if user.id ≠ req.clientId ∧ user.id ≠ neg.supplierId then
        raise (.permissionDenied "You are not a participant in this negotiation")
      else return req

def loadActiveForResponse (user : User) (negotiationId : Id) : Prog Negotiation := do
  let neg ← query (.getNegotiationForUpdate negotiationId)
  match neg with
  | none => raise (.notFound "Negotiation not found")
  | some neg =>
      let _ ← ensureParticipant user neg
      if neg.status ≠ .active then
        raise (.conflict ("Negotiation is already " ++ neg.status.value))
      else
        let last ← lastProposal neg
        if last.actorId = user.id then
          raise (.conflict "Waiting for the counterparty to respond to your proposal")
        else return neg

/-- The loop of `supersedeSiblings`. -/
def supersedeEach (winnerId : Id) : List Negotiation → Prog Unit
  | [] => return ()
  | sib :: siblings => do
      query (.decide sib.id .rejected)
      record .negotiationSuperseded .negotiation (some sib.id) none (.winner winnerId)
      supersedeEach winnerId siblings

/-- The caller has assigned `req.status`; the first flush after the SELECT
(inside the loop, or the one behind it) sends that UPDATE first. -/
def supersedeSiblings (req : ProductRequest) (winnerId : Id) : Prog Unit := do
  let siblings ← query (.activeSiblings req.id winnerId)
  query (.closeRequest req.id)
  supersedeEach winnerId siblings

/-! ## §5. Offers and negotiations. -/

def makeOffer (supplier : User) (requestId : Id) (data : OfferIn) : Prog Negotiation := do
  -- Lock the request row so a concurrent accept cannot race with the offer.
  let req ← query (.getRequestForUpdate requestId)
  match req with
  | none => raise (.notFound "Request not found")
  | some req =>
      if req.status ≠ .opened then raise (.conflict "Request is not open for offers")
      else
        let existing ← query (.thread requestId supplier.id)
        match existing with
        | some _ => raise (.conflict "You already have a negotiation on this request")
        | none =>
            let neg ← query (.insertNegotiation requestId supplier.id .active)
            let _ ← addProposal neg supplier .offer data.amount data.currency data.message
            record .offerCreated .negotiation (some neg.id) (some supplier.id)
              (.price data.amount data.currency)
            return neg

def listNegotiations (user : User) (limit offset : Nat) : Prog (List Negotiation) :=
  if user.role = .supplier then
    query (.negotiationsOfSupplier user.id limit offset)
  else
    query (.negotiationsOfClient user.id limit offset)

def getNegotiation (user : User) (negotiationId : Id) : Prog Negotiation := do
  let neg ← query (.getNegotiation negotiationId)
  match neg with
  | none => raise (.notFound "Negotiation not found")
  | some neg =>
      let _ ← ensureParticipant user neg
      return neg

/-! ## §6. Decisions. -/

def accept (user : User) (negotiationId : Id) : Prog Negotiation := do
  let neg ← loadActiveForResponse user negotiationId
  let last ← lastProposal neg
  query (.decide neg.id (.accepted last.amount))
  -- Lock the request row to serialize concurrent accepts on the same request.
  let req ← query (.getRequestForUpdate neg.requestId)
  match req with
  | none => raise .server
  | some req =>
      supersedeSiblings req neg.id
      record .negotiationAccepted .negotiation (some neg.id) (some user.id) (.agreed last.amount)
      return (Decision.accepted last.amount).on neg

def reject (user : User) (negotiationId : Id) : Prog Negotiation := do
  let neg ← loadActiveForResponse user negotiationId
  query (.decide neg.id .rejected)
  record .negotiationRejected .negotiation (some neg.id) (some user.id) .empty
  return Decision.rejected.on neg

def counter (user : User) (negotiationId : Id) (data : CounterIn) : Prog Negotiation := do
  let neg ← loadActiveForResponse user negotiationId
  let last ← lastProposal neg
  let currency := last.currency -- keep negotiating in the same currency
  let _ ← addProposal neg user .counter data.amount currency data.message
  record .negotiationCountered .negotiation (some neg.id) (some user.id)
    (.price data.amount currency)
  return neg

end Procurement
