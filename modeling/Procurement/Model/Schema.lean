/-
  Procurement.Model.Schema
  ────────────────────────
  **THE DATA OF THE SYSTEM**: the enumerations (`enums.py`), the errors
  (`errors.py`), the validated payloads and the rendered responses
  (`schemas.py`) and the rows of the six tables (`models.py`).

  A payload is what is left after validation, so its constraints are fields of
  the structure.  Money is an integer number of hundredths: the schemas allow
  two decimal places and the columns hold two.  The stamps `updated_at` and
  the creation stamps of users, audit entries and keys are written and never
  read, so they are left out.
-/
import Mathlib.Algebra.Group.Nat.Defs
import Mathlib.Data.Int.Order.Basic

namespace Procurement

/-- Primary keys, and the ids that callers put into a path. -/
abbrev Id := Int

/-- The order of ids, as an instance that computes. -/
instance (priority := high) : Preorder Id := Int.instLinearOrder.toPreorder

/-- An amount of money in hundredths of the currency unit. -/
abbrev Amount := Nat

/-- The clock reading behind `created_at`. -/
abbrev Time := Nat

/-! ## §1. Enumerations. -/

inductive Role where
  | client
  | supplier
  deriving DecidableEq, Repr

/-- The stored text of a role. -/
def Role.value : Role → String
  | .client => "client"
  | .supplier => "supplier"

/-- `opened` is the source's `OPEN`. -/
inductive RequestStatus where
  | opened
  | closed
  | cancelled
  deriving DecidableEq, Repr

/-- The stored text of a request's status. -/
def RequestStatus.value : RequestStatus → String
  | .opened => "open"
  | .closed => "closed"
  | .cancelled => "cancelled"

inductive NegotiationStatus where
  | active
  | accepted
  | rejected
  deriving DecidableEq, Repr

/-- The stored text of a negotiation's status. -/
def NegotiationStatus.value : NegotiationStatus → String
  | .active => "active"
  | .accepted => "accepted"
  | .rejected => "rejected"

inductive ProposalKind where
  | offer
  | counter
  deriving DecidableEq, Repr

/-- The stored text of a proposal's kind. -/
def ProposalKind.value : ProposalKind → String
  | .offer => "offer"
  | .counter => "counter"

/-! ## §2. Errors. -/

/-- What a request can end with instead of a response: the three domain errors
the services raise, an `HTTPException`, or any other exception (answered with
status 500). -/
inductive Error where
  | notFound (message : String)
  | permissionDenied (message : String)
  | conflict (message : String)
  | http (status : Nat) (detail : String)
  | server
  deriving DecidableEq, Repr

def Error.statusCode : Error → Nat
  | .notFound _ => 404
  | .permissionDenied _ => 403
  | .conflict _ => 409
  | .http status _ => status
  | .server => 500

/-! ## §3. Payloads. -/

structure RegisterIn where
  email : String
  password : String
  fullName : String
  role : Role
  password_min : 8 ≤ password.length
  password_max : password.length ≤ 128
  fullName_min : 1 ≤ fullName.length
  fullName_max : fullName.length ≤ 120

structure ProductRequestIn where
  productName : String
  description : String := ""
  quantity : Nat := 1
  productName_min : 1 ≤ productName.length
  productName_max : productName.length ≤ 200
  description_max : description.length ≤ 2000
  quantity_min : 1 ≤ quantity

/-- `amount` is positive and has at most 14 digits, two of them decimals. -/
structure OfferIn where
  amount : Amount
  currency : String := "COP"
  message : Option String := none
  amount_pos : 0 < amount
  amount_digits : amount < 10 ^ 14
  currency_length : currency.length = 3
  message_max : ∀ m ∈ message, m.length ≤ 500

structure CounterIn where
  amount : Amount
  message : Option String := none
  amount_pos : 0 < amount
  amount_digits : amount < 10 ^ 14
  message_max : ∀ m ∈ message, m.length ≤ 500

/-! ## §4. Rows. -/

structure User where
  id : Id
  email : String
  hashedPassword : String
  role : Role
  fullName : String
  deriving DecidableEq, Repr

structure ProductRequest where
  id : Id
  clientId : Id
  productName : String
  description : String
  quantity : Nat
  status : RequestStatus
  createdAt : Time
  deriving DecidableEq, Repr

/-- One negotiation thread per (request, supplier). -/
structure Negotiation where
  id : Id
  requestId : Id
  supplierId : Id
  status : NegotiationStatus
  agreedAmount : Option Amount
  createdAt : Time
  deriving DecidableEq, Repr

/-- Append-only price proposal. -/
structure Proposal where
  id : Id
  negotiationId : Id
  actorId : Id
  actorRole : Role
  kind : ProposalKind
  amount : Amount
  currency : String
  message : Option String
  createdAt : Time
  deriving DecidableEq, Repr

inductive AuditAction where
  | userRegistered
  | requestCreated
  | offerCreated
  | negotiationAccepted
  | negotiationRejected
  | negotiationCountered
  | negotiationSuperseded
  deriving DecidableEq, Repr

/-- The stored text of an action. -/
def AuditAction.value : AuditAction → String
  | .userRegistered => "user.registered"
  | .requestCreated => "request.created"
  | .offerCreated => "offer.created"
  | .negotiationAccepted => "negotiation.accepted"
  | .negotiationRejected => "negotiation.rejected"
  | .negotiationCountered => "negotiation.countered"
  | .negotiationSuperseded => "negotiation.superseded"

inductive EntityType where
  | user
  | productRequest
  | negotiation
  deriving DecidableEq, Repr

/-- The stored text of an entity type. -/
def EntityType.value : EntityType → String
  | .user => "user"
  | .productRequest => "product_request"
  | .negotiation => "negotiation"

/-- The JSON object in `AuditLog.details`, one constructor for each set of
keys the services write. -/
inductive Details where
  | empty
  | role (role : Role)
  | product (productName : String) (quantity : Nat)
  | price (amount : Amount) (currency : String)
  | agreed (agreedAmount : Amount)
  | winner (winnerId : Id)
  deriving DecidableEq, Repr

/-- `requestId` is the correlation id, not a product request. -/
structure AuditLog where
  id : Id
  requestId : String
  actorId : Option Id
  action : AuditAction
  entityType : EntityType
  entityId : Option Id
  details : Details
  deriving DecidableEq, Repr

/-! ## §5. Rendered responses. -/

structure UserOut where
  id : Id
  email : String
  fullName : String
  role : Role
  deriving DecidableEq, Repr

structure ProductRequestOut where
  id : Id
  clientId : Id
  productName : String
  description : String
  quantity : Nat
  status : RequestStatus
  createdAt : Time
  deriving DecidableEq, Repr

structure NegotiationOut where
  id : Id
  requestId : Id
  supplierId : Id
  status : NegotiationStatus
  agreedAmount : Option Amount
  lastActorId : Option Id
  createdAt : Time
  deriving DecidableEq, Repr

/-- The body of a successful POST.  The code stores its JSON text and answers
with the parse of that text; the text is represented by what it encodes. -/
inductive Body where
  | productRequest (out : ProductRequestOut)
  | negotiation (out : NegotiationOut)
  deriving DecidableEq, Repr

structure Response where
  status : Nat
  body : Body
  deriving DecidableEq, Repr

/-- The stored response for an Idempotency-Key. -/
structure IdempotencyKey where
  key : String
  userId : Id
  method : String
  path : String
  responseStatus : Nat
  responseBody : Body
  deriving DecidableEq, Repr

end Procurement
