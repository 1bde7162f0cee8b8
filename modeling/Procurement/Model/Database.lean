/-
  Procurement.Model.Database
  ──────────────────────────
  **THE DATABASE UNDER THE SERVICES.**

  `Db` is the six tables of `models.py`.  `Cmd` lists the statements the code
  sends, one constructor for each query, INSERT and UPDATE it contains, plus
  the few calls whose result the environment decides (the correlation id, the
  bcrypt salt, a response model that may fail to build).  `engine` says what
  each of them answers and stages.

  Two things SQL leaves open come from the environment of a call: the ids and
  creation times its inserts receive (`Supply`), and the order in which a
  SELECT without ORDER BY returns its rows (`order`).
-/
import Procurement.Framework.Serial
import Procurement.Framework.Table
import Procurement.Model.Schema

namespace Procurement

open Procurement.Framework

/-! ## §1. The state. -/

structure Db where
  users : List User
  requests : List ProductRequest
  negotiations : List Negotiation
  proposals : List Proposal
  auditLog : List AuditLog
  idempotencyKeys : List IdempotencyKey
  deriving DecidableEq, Repr

/-- `ORDER BY id` on proposals. -/
def orderById (ps : List Proposal) : List Proposal := ps.insertionSort fun a b => a.id ≤ b.id

namespace Db

/-- No table has a row. -/
def empty : Db := ⟨[], [], [], [], [], []⟩

def user (db : Db) (i : Id) : Option User := lookup User.id db.users i

def userByEmail (db : Db) (email : String) : Option User := lookup User.email db.users email

def request (db : Db) (i : Id) : Option ProductRequest := lookup ProductRequest.id db.requests i

def negotiation (db : Db) (i : Id) : Option Negotiation :=
  lookup Negotiation.id db.negotiations i

def idempotencyKey (db : Db) (k : String) : Option IdempotencyKey :=
  lookup IdempotencyKey.key db.idempotencyKeys k

/-- The negotiation of a supplier on a request. -/
def thread (db : Db) (requestId supplierId : Id) : Option Negotiation :=
  db.negotiations.find? fun n => n.requestId = requestId ∧ n.supplierId = supplierId

/-- The negotiations on a request. -/
def negotiationsOf (db : Db) (requestId : Id) : List Negotiation :=
  db.negotiations.filter fun n => n.requestId = requestId

/-- The proposals of a negotiation, as they stand in the table. -/
def proposalsOf (db : Db) (negotiationId : Id) : List Proposal :=
  db.proposals.filter fun p => p.negotiationId = negotiationId

/-- The proposals of a negotiation, `ORDER BY id`. -/
def chain (db : Db) (negotiationId : Id) : List Proposal :=
  orderById (db.proposalsOf negotiationId)

/-- `ORDER BY id DESC LIMIT 1`: the proposal with the greatest id. -/
def lastProposal (db : Db) (negotiationId : Id) : Option Proposal :=
  (db.proposalsOf negotiationId).argmax Proposal.id

/-- The negotiations of a request that are active, one excepted. -/
def activeSiblings (db : Db) (requestId winnerId : Id) : List Negotiation :=
  db.negotiations.filter fun n =>
    n.requestId = requestId ∧ n.status = .active ∧ n.id ≠ winnerId

end Db

/-- `ORDER BY id DESC LIMIT limit OFFSET offset`. -/
def page {ρ : Type} (key : ρ → Id) (limit offset : Nat) (rows : List ρ) : List ρ :=
  ((rows.insertionSort fun a b => key b ≤ key a).drop offset).take limit

/-! ## §2. Writes. -/

/-- The two UPDATEs of a negotiation row. -/
inductive Decision where
  /-- `status = accepted`, `agreed_amount = …` -/
  | accepted (agreedAmount : Amount)
  /-- `status = rejected` -/
  | rejected
  deriving DecidableEq, Repr

def Decision.on : Decision → Negotiation → Negotiation
  | .accepted a, n => { n with status := .accepted, agreedAmount := some a }
  | .rejected, n => { n with status := .rejected }

/-- Decisions keep the id of their row. -/
@[simp] theorem Decision.on_id (d : Decision) (n : Negotiation) : (d.on n).id = n.id := by
  cases d <;> rfl

inductive Write where
  | insertUser (row : User)
  | insertRequest (row : ProductRequest)
  | insertNegotiation (row : Negotiation)
  | insertProposal (row : Proposal)
  | insertAudit (row : AuditLog)
  | insertKey (row : IdempotencyKey)
  | decide (negotiationId : Id) (d : Decision)
  | closeRequest (requestId : Id)
  deriving DecidableEq, Repr

def Write.apply : Write → Db → Db
  | .insertUser r, db => { db with users := db.users ++ [r] }
  | .insertRequest r, db => { db with requests := db.requests ++ [r] }
  | .insertNegotiation r, db => { db with negotiations := db.negotiations ++ [r] }
  | .insertProposal r, db => { db with proposals := db.proposals ++ [r] }
  | .insertAudit r, db => { db with auditLog := db.auditLog ++ [r] }
  | .insertKey r, db => { db with idempotencyKeys := db.idempotencyKeys ++ [r] }
  | .decide i d, db =>
      { db with negotiations := update Negotiation.id db.negotiations i d.on }
  | .closeRequest i, db =>
      { db with requests :=
          update ProductRequest.id db.requests i fun r => { r with status := .closed } }

/-! ## §3. The environment of a call. -/

/-- The tables whose ids are generated. -/
inductive Table where
  | users
  | requests
  | negotiations
  | proposals
  | auditLog
  deriving DecidableEq, Repr

/-- What an INSERT receives: its id and its creation time. -/
structure Stamp where
  id : Id
  now : Time

/-- The generated ids that a table holds. -/
def Db.ids (db : Db) : Table → List Id
  | .users => db.users.map User.id
  | .requests => db.requests.map ProductRequest.id
  | .negotiations => db.negotiations.map Negotiation.id
  | .proposals => db.proposals.map Proposal.id
  | .auditLog => db.auditLog.map AuditLog.id

/-- The table a write adds to, and the id it adds. -/
def Write.stamp : Write → Option (Table × Id)
  | .insertUser r => some (.users, r.id)
  | .insertRequest r => some (.requests, r.id)
  | .insertNegotiation r => some (.negotiations, r.id)
  | .insertProposal r => some (.proposals, r.id)
  | .insertAudit r => some (.auditLog, r.id)
  | .insertKey _ | .decide _ _ | .closeRequest _ => none

/-- The stamps the coming inserts into each table receive. -/
abbrev Supply := Table → Nat → Stamp

/-- Everything outside the database a call depends on: the stamps of its
inserts, its correlation id, the salted hash function it draws, and the order
its unordered SELECTs return rows in. -/
structure Env where
  supply : Supply
  requestId : String
  hashpw : String → String
  order : List Negotiation → List Negotiation
  order_perm : ∀ l, (order l).Perm l

/-- The stamp of the next insert into a table. -/
def Env.stamp (env : Env) (t : Table) : Stamp := env.supply t 0

/-- The stamp of the next insert into `t` is used up. -/
def Env.pop (env : Env) (t : Table) : Env :=
  { env with supply := fun u k => if u = t then env.supply u (k + 1) else env.supply u k }

/-! ## §4. Statements. -/

inductive Cmd where
  | getUser (id : Id)
  | userByEmail (email : String)
  | getRequest (id : Id)
  | getRequestForUpdate (id : Id)
  | getNegotiation (id : Id)
  | getNegotiationForUpdate (id : Id)
  | thread (requestId supplierId : Id)
  | lastProposal (negotiationId : Id)
  | proposals (negotiationId : Id)
  | activeSiblings (requestId winnerId : Id)
  | requestsOfClient (clientId : Id) (limit offset : Nat)
  | openRequests (limit offset : Nat)
  | negotiationsOfSupplier (supplierId : Id) (limit offset : Nat)
  | negotiationsOfClient (clientId : Id) (limit offset : Nat)
  | getKey (key : String)
  | insertUser (email hashedPassword : String) (role : Role) (fullName : String)
  | insertRequest (clientId : Id) (productName description : String) (quantity : Nat)
      (status : RequestStatus)
  | insertNegotiation (requestId supplierId : Id) (status : NegotiationStatus)
  | insertProposal (negotiationId actorId : Id) (actorRole : Role) (kind : ProposalKind)
      (amount : Amount) (currency : String) (message : Option String)
  | insertAudit (requestId : String) (actorId : Option Id) (action : AuditAction)
      (entityType : EntityType) (entityId : Option Id) (details : Details)
  | insertKey (row : IdempotencyKey)
  | decide (negotiationId : Id) (d : Decision)
  | closeRequest (requestId : Id)
  /-- `request_id_ctx.get()` -/
  | requestIdCtx
  /-- `bcrypt.hashpw(plain, bcrypt.gensalt())` -/
  | hashPassword (plain : String)
  /-- Building or dumping a response model: no SQL, but it may raise. -/
  | validate

/-- The type of a statement's result. -/
@[reducible] def Cmd.Resp : Cmd → Type
  | .getUser _ | .userByEmail _ => Option User
  | .getRequest _ | .getRequestForUpdate _ => Option ProductRequest
  | .getNegotiation _ | .getNegotiationForUpdate _ | .thread _ _ => Option Negotiation
  | .lastProposal _ => Option Proposal
  | .proposals _ => List Proposal
  | .activeSiblings _ _ => List Negotiation
  | .requestsOfClient _ _ _ | .openRequests _ _ => List ProductRequest
  | .negotiationsOfSupplier _ _ _ | .negotiationsOfClient _ _ _ => List Negotiation
  | .getKey _ => Option IdempotencyKey
  | .insertUser _ _ _ _ => User
  | .insertRequest _ _ _ _ _ => ProductRequest
  | .insertNegotiation _ _ _ => Negotiation
  | .insertProposal _ _ _ _ _ _ _ => Proposal
  | .requestIdCtx | .hashPassword _ => String
  | .insertAudit _ _ _ _ _ _ | .insertKey _ | .decide _ _ | .closeRequest _ | .validate => Unit

/-- The table whose sequence an INSERT draws from. -/
def Cmd.table : Cmd → Option Table
  | .insertUser _ _ _ _ => some .users
  | .insertRequest _ _ _ _ _ => some .requests
  | .insertNegotiation _ _ _ => some .negotiations
  | .insertProposal _ _ _ _ _ _ _ => some .proposals
  | .insertAudit _ _ _ _ _ _ => some .auditLog
  | _ => none

def Cmd.next (c : Cmd) (env : Env) : Env :=
  match c.table with
  | some t => env.pop t
  | none => env

/-! ### The rows that the INSERTs build. -/

def Env.newUser (env : Env) (email hashedPassword : String) (role : Role)
    (fullName : String) : User :=
  { id := (env.stamp .users).id, email, hashedPassword, role, fullName }

def Env.newRequest (env : Env) (clientId : Id) (productName description : String)
    (quantity : Nat) (status : RequestStatus) : ProductRequest :=
  { id := (env.stamp .requests).id, clientId, productName, description, quantity, status,
    createdAt := (env.stamp .requests).now }

def Env.newNegotiation (env : Env) (requestId supplierId : Id) (status : NegotiationStatus) :
    Negotiation :=
  { id := (env.stamp .negotiations).id, requestId, supplierId, status, agreedAmount := none,
    createdAt := (env.stamp .negotiations).now }

def Env.newProposal (env : Env) (negotiationId actorId : Id) (actorRole : Role)
    (kind : ProposalKind) (amount : Amount) (currency : String) (message : Option String) :
    Proposal :=
  { id := (env.stamp .proposals).id, negotiationId, actorId, actorRole, kind, amount, currency,
    message, createdAt := (env.stamp .proposals).now }

def Env.newAudit (env : Env) (requestId : String) (actorId : Option Id) (action : AuditAction)
    (entityType : EntityType) (entityId : Option Id) (details : Details) : AuditLog :=
  { id := (env.stamp .auditLog).id, requestId, actorId, action, entityType, entityId, details }

/-- The writes a statement stages. -/
def Cmd.writes : Cmd → Env → List Write
  | .insertUser email hashed role name, env => [.insertUser (env.newUser email hashed role name)]
  | .insertRequest cid name descr q st, env => [.insertRequest (env.newRequest cid name descr q st)]
  | .insertNegotiation rid sid st, env => [.insertNegotiation (env.newNegotiation rid sid st)]
  | .insertProposal nid aid role kind amount cur msg, env =>
      [.insertProposal (env.newProposal nid aid role kind amount cur msg)]
  | .insertAudit rid aid action ety eid details, env =>
      [.insertAudit (env.newAudit rid aid action ety eid details)]
  | .insertKey row, _ => [.insertKey row]
  | .decide nid d, _ => [.decide nid d]
  | .closeRequest rid, _ => [.closeRequest rid]
  | _, _ => []

/-- The result of a statement, or the exception of a violated unique
constraint (`users.email`, `uq_request_supplier`, the primary key of
`idempotency_keys`). -/
def Cmd.answer : (c : Cmd) → Env → Db → Except Error c.Resp
  | .getUser i, _, db => .ok (db.user i)
  | .userByEmail e, _, db => .ok (db.userByEmail e)
  | .getRequest i, _, db => .ok (db.request i)
  | .getRequestForUpdate i, _, db => .ok (db.request i)
  | .getNegotiation i, _, db => .ok (db.negotiation i)
  | .getNegotiationForUpdate i, _, db => .ok (db.negotiation i)
  | .thread rid sid, _, db => .ok (db.thread rid sid)
  | .lastProposal nid, _, db => .ok (db.lastProposal nid)
  | .proposals nid, _, db => .ok (db.chain nid)
  | .activeSiblings rid w, env, db => .ok (env.order (db.activeSiblings rid w))
  | .requestsOfClient cid limit offset, _, db =>
      .ok (page ProductRequest.id limit offset (db.requests.filter fun r => r.clientId = cid))
  | .openRequests limit offset, _, db =>
      .ok (page ProductRequest.id limit offset (db.requests.filter fun r => r.status = .opened))
  | .negotiationsOfSupplier sid limit offset, _, db =>
      .ok (page Negotiation.id limit offset (db.negotiations.filter fun n => n.supplierId = sid))
  | .negotiationsOfClient cid limit offset, _, db =>
      .ok (page Negotiation.id limit offset
        (db.negotiations.filter fun n => ((db.request n.requestId).any fun r => r.clientId = cid)))
  | .getKey k, _, db => .ok (db.idempotencyKey k)
  | .insertUser email hashed role name, env, db =>
      match db.userByEmail email with
      | some _ => .error .server
      | none => .ok (env.newUser email hashed role name)
  | .insertRequest cid name descr q st, env, _ => .ok (env.newRequest cid name descr q st)
  | .insertNegotiation rid sid st, env, db =>
      match db.thread rid sid with
      | some _ => .error .server
      | none => .ok (env.newNegotiation rid sid st)
  | .insertProposal nid aid role kind amount cur msg, env, _ =>
      .ok (env.newProposal nid aid role kind amount cur msg)
  | .insertAudit _ _ _ _ _ _, _, _ => .ok ()
  | .insertKey row, _, db =>
      match db.idempotencyKey row.key with
      | some _ => .error .server
      | none => .ok ()
  | .decide _ _, _, _ => .ok ()
  | .closeRequest _, _, _ => .ok ()
  | .requestIdCtx, env, _ => .ok env.requestId
  | .hashPassword plain, env, _ => .ok (env.hashpw plain)
  | .validate, _, _ => .ok ()

/-! ## §5. Locks. -/

/-- What a statement can lock until its transaction ends: a row, or a value of
a unique index. -/
inductive Row where
  | negotiation (id : Id)
  | request (id : Id)
  | email (email : String)
  | thread (requestId supplierId : Id)
  | key (key : String)
  deriving DecidableEq, Repr

/-- The lock a statement takes.  `SELECT … FOR UPDATE` locks the row it finds;
an UPDATE locks its row; an INSERT under a unique constraint locks the value, so
that a second insert of it waits for the first transaction. -/
def Cmd.locks : Cmd → Db → Option Row
  | .getRequestForUpdate i, db => (db.request i).map fun _ => .request i
  | .getNegotiationForUpdate i, db => (db.negotiation i).map fun _ => .negotiation i
  | .insertUser email _ _ _, _ => some (.email email)
  | .insertNegotiation requestId supplierId _, _ => some (.thread requestId supplierId)
  | .insertKey row, _ => some (.key row.key)
  | .decide i _, _ => some (.negotiation i)
  | .closeRequest i, _ => some (.request i)
  | _, _ => none

/-- The row a write needs the lock of. -/
def Write.guard : Write → Option Row
  | .insertUser r => some (.email r.email)
  | .insertNegotiation r => some (.thread r.requestId r.supplierId)
  | .insertKey r => some (.key r.key)
  | .decide i _ => some (.negotiation i)
  | .closeRequest i => some (.request i)
  | .insertRequest _ | .insertProposal _ | .insertAudit _ => none

/-- What a statement stages: nothing, or one write that it locks the row of and
draws the id of. -/
theorem Cmd.mem_writes {c : Cmd} {env : Env} {wr : Write} (h : wr ∈ c.writes env) :
    (∀ row, wr.guard = some row → ∀ db, c.locks db = some row)
      ∧ ∀ t i, wr.stamp = some (t, i) → c.table = some t ∧ (env.stamp t).id = i := by
  cases c with
  | insertUser | insertRequest | insertNegotiation | insertProposal | insertAudit =>
      obtain rfl := List.mem_singleton.mp h
      refine ⟨fun _ hg _ => hg, fun t i hs => ?_⟩
      obtain ⟨rfl, rfl⟩ := Prod.mk.inj (Option.some.inj hs)
      exact ⟨rfl, rfl⟩
  | insertKey | decide | closeRequest =>
      obtain rfl := List.mem_singleton.mp h
      exact ⟨fun _ hg _ => hg, fun t i hs => absurd hs (by simp [Write.stamp])⟩
  | _ => exact absurd h List.not_mem_nil

/-- An UPDATE of a negotiation is staged by its own statement only. -/
theorem Cmd.eq_decide {c : Cmd} {env : Env} {n : Id} {d : Decision}
    (h : .decide n d ∈ c.writes env) : c = .decide n d := by
  cases c with
  | decide m e =>
      obtain ⟨rfl, rfl⟩ := Write.decide.inj (List.mem_singleton.mp h)
      rfl
  | insertUser | insertRequest | insertNegotiation | insertProposal | insertAudit | insertKey
  | closeRequest => exact absurd (List.mem_singleton.mp h) (by simp)
  | _ => exact absurd h List.not_mem_nil

/-- The database as an engine for programs. -/
def engine : Engine Cmd Cmd.Resp Error Db Write Env where
  answer := Cmd.answer
  writes := Cmd.writes
  next := Cmd.next
  apply := Write.apply
  fault := .server

/-! ## §6. Unique constraints. -/

section
variable {env : Env} {db : Db}

theorem answer_insertUser {email hashed : String} {role : Role} {name : String}
    (h : db.userByEmail email = none) :
    engine.answer (.insertUser email hashed role name) env db
      = .ok (env.newUser email hashed role name) := by
  simp only [engine, Cmd.answer, h]

theorem answer_insertNegotiation {rid sid : Id} {st : NegotiationStatus}
    (h : db.thread rid sid = none) :
    engine.answer (.insertNegotiation rid sid st) env db = .ok (env.newNegotiation rid sid st) := by
  simp only [engine, Cmd.answer, h]

/-- The INSERT of a key goes through when the key is new. -/
theorem answer_insertKey {row : IdempotencyKey} {r : Unit} :
    engine.answer (.insertKey row) env db = .ok r ↔ db.idempotencyKey row.key = none := by
  cases h : db.idempotencyKey row.key <;> simp [engine, Cmd.answer, h]

end

/-- Programs against this database. -/
abbrev Prog (α : Type) := Program Cmd Cmd.Resp Error α

/-- Send one statement. -/
abbrev query (c : Cmd) : Prog c.Resp := Program.send c

end Procurement
