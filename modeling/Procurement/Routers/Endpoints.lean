/-
  Procurement.Routers.Endpoints
  ─────────────────────────────
  **THE POST ENDPOINTS** (`deps.py`, `routers/_helpers.py`,
  `routers/requests.py`, `routers/negotiations.py`, `routers/auth.py`).

  A request arrives authenticated: `caller` is the subject of a valid token.
  `handle` loads that user, checks the role the route asks for and runs the
  operation through `idempotent`; `handleRegister` is the one POST outside the
  wrapper.  Everything a request does is in the returned program, commit
  included.
-/
import Procurement.Services.Negotiation

namespace Procurement

open Procurement.Framework
open Procurement.Framework.Program

/-! ## §1. Authentication and roles. -/

def getCurrentUser (userId : Id) : Prog User := do
  let user ← query (.getUser userId)
  match user with
  | none => raise (.http 401 "Could not validate credentials")
  | some user => return user

/-- `require_role(role)`; a route without the dependency has no `role`. -/
def requireRole (role : Option Role) (user : User) : Prog User :=
  match role with
  | none => return user
  | some role =>
      if user.role ≠ role then raise (.http 403 ("Requires role '" ++ role.value ++ "'"))
      else return user

/-! ## §2. Idempotency. -/

structure Idempotency where
  user : User
  key : Option String

/-- The key when it is truthy: a missing and an empty header count as none. -/
def Idempotency.usedKey (idem : Idempotency) : Option String :=
  idem.key.filter fun k => k ≠ ""

namespace Idempotency

/-- `get` reads by key alone; a record of another user is an error. -/
def lookup (idem : Idempotency) : Prog (Option IdempotencyKey) :=
  match idem.usedKey with
  | none => return none
  | some key => do
      let record ← query (.getKey key)
      match record with
      | none => return none
      | some record =>
          if record.userId ≠ idem.user.id then
            raise (.http 409 "Idempotency-Key already used by another user")
          else return some record

/-- `save` marks the row for insertion; the flush of the following commit
sends the INSERT. -/
def save (idem : Idempotency) (method path : String) (statusCode : Nat) (body : Body) :
    Prog Unit :=
  match idem.usedKey with
  | none => return ()
  | some key =>
      query (.insertKey { key, userId := idem.user.id, method, path,
                          responseStatus := statusCode, responseBody := body })

end Idempotency

/-- Return a cached response for a repeated key, else run `produce`. -/
def idempotent (idem : Idempotency) (path : String) (produce : Prog Body) (statusCode : Nat) :
    Prog Response := do
  let cached ← idem.lookup
  match cached with
  | some cached => return { status := cached.responseStatus, body := cached.responseBody }
  | none =>
      let body ← produce
      idem.save "POST" path statusCode body
      commitNow
      return { status := statusCode, body }

/-! ## §3. Rendering. -/

/-- `ProductRequestOut.model_validate`: plain attributes. -/
def productRequestOut (req : ProductRequest) : Prog Body := do
  query .validate
  return .productRequest
    { id := req.id, clientId := req.clientId, productName := req.productName,
      description := req.description, quantity := req.quantity, status := req.status,
      createdAt := req.createdAt }

/-- `NegotiationOut.model_validate`: `last_actor_id` loads the proposals. -/
def negotiationOut (neg : Negotiation) : Prog Body := do
  let proposals ← query (.proposals neg.id)
  query .validate
  return .negotiation
    { id := neg.id, requestId := neg.requestId, supplierId := neg.supplierId,
      status := neg.status, agreedAmount := neg.agreedAmount,
      lastActorId := proposals.getLast?.map (·.actorId), createdAt := neg.createdAt }

/-! ## §4. Routes. -/

/-- The five operations behind the wrapper, with the arguments of their
routes. -/
inductive Op where
  | createRequest (data : ProductRequestIn)
  | makeOffer (requestId : Id) (data : OfferIn)
  | accept (negotiationId : Id)
  | reject (negotiationId : Id)
  | counter (negotiationId : Id) (data : CounterIn)

namespace Op

/-- The role the route requires. -/
def role : Op → Option Role
  | .createRequest _ => some .client
  | .makeOffer _ _ => some .supplier
  | .accept _ | .reject _ | .counter _ _ => none

def statusCode : Op → Nat
  | .createRequest _ | .makeOffer _ _ => 201
  | .accept _ | .reject _ | .counter _ _ => 200

/-- The `lambda` handed to `idempotent`. -/
def produce (user : User) : Op → Prog Body
  | .createRequest data => Procurement.createRequest user data >>= productRequestOut
  | .makeOffer requestId data => Procurement.makeOffer user requestId data >>= negotiationOut
  | .accept negotiationId => Procurement.accept user negotiationId >>= negotiationOut
  | .reject negotiationId => Procurement.reject user negotiationId >>= negotiationOut
  | .counter negotiationId data =>
      Procurement.counter user negotiationId data >>= negotiationOut

end Op

/-- An authenticated POST whose payload passed validation. -/
structure HttpRequest where
  caller : Id
  key : Option String
  path : String
  op : Op

/-- The endpoint behind the wrapper. -/
def handle (req : HttpRequest) : Prog Response := do
  let user ← getCurrentUser req.caller
  let user ← requireRole req.op.role user
  idempotent ⟨user, req.key⟩ req.path (req.op.produce user) req.op.statusCode

/-- `UserOut.model_validate`. -/
def userOut (user : User) : Prog UserOut :=
  return { id := user.id, email := user.email, fullName := user.fullName, role := user.role }

/-- `POST /auth/register`. -/
def handleRegister (data : RegisterIn) : Prog UserOut := do
  let user ← registerUser data
  userOut user

/-! ## §5. Calls. -/

/-- A POST to one of the six endpoints. -/
inductive Call where
  | register (data : RegisterIn)
  | post (req : HttpRequest)

inductive Answer where
  | user (out : UserOut)
  | response (response : Response)
  deriving DecidableEq, Repr

namespace Call

/-- The call in its own session: its answer, and the committed state it
leaves. -/
def run (call : Call) (env : Env) (faults : Nat → Bool) (db : Db) : Except Error Answer × Db :=
  match call with
  | .register data =>
      let (o, db') := engine.request (handleRegister data) env faults db
      (o.map .user, db')
  | .post req =>
      let (o, db') := engine.request (handle req) env faults db
      (o.map .response, db')

/-- What that session commits. -/
def commits (call : Call) (env : Env) (faults : Nat → Bool) (db : Db) :
    Except Error (Option (List Write)) :=
  match call with
  | .register data => engine.firstCommit (handleRegister data) ⟨db, [], env, faults⟩
  | .post req => engine.firstCommit (handle req) ⟨db, [], env, faults⟩

end Call

end Procurement
