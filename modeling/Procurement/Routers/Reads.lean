/-
  Procurement.Routers.Reads
  ─────────────────────────
  **THE GET ENDPOINTS** (`routers/requests.py`, `routers/negotiations.py`).

  A read loads the caller and runs one service function; the rows it returns
  are rendered while the session is open, so that a negotiation's proposals
  are one more SELECT.  Nothing is committed.

  `ReadRequest.answer` says what a read answers on a given state;
  `handleRead_answers` is the only place where the programs are followed.
-/
import Procurement.Routers.Outcome

namespace Procurement

open Procurement.Framework
open Procurement.Framework.Program

/-! ## §1. Endpoints. -/

/-- `limit: int = Query(50, ge=1, le=100)`, `offset: int = Query(0, ge=0)`. -/
structure Page where
  limit : Nat := 50
  offset : Nat := 0
  limit_min : 1 ≤ limit := by decide
  limit_max : limit ≤ 100 := by decide

inductive ReadOp where
  | listRequests (page : Page)
  | getRequest (requestId : Id)
  | listNegotiations (page : Page)
  | getNegotiation (negotiationId : Id)

structure ProposalOut where
  id : Id
  actorId : Id
  actorRole : Role
  kind : ProposalKind
  amount : Amount
  currency : String
  message : Option String
  createdAt : Time
  deriving DecidableEq, Repr

structure NegotiationDetailOut extends NegotiationOut where
  proposals : List ProposalOut
  deriving DecidableEq, Repr

/-- The body of a GET: one row, a list of rows, or a negotiation with its
proposals. -/
inductive ReadBody where
  | item (body : Body)
  | items (bodies : List Body)
  | detail (out : NegotiationDetailOut)
  deriving DecidableEq, Repr

def proposalOut (p : Proposal) : ProposalOut :=
  { id := p.id, actorId := p.actorId, actorRole := p.actorRole, kind := p.kind,
    amount := p.amount, currency := p.currency, message := p.message, createdAt := p.createdAt }

/-- `NegotiationDetailOut`: the proposals are loaded once, for `last_actor_id`
and for the list. -/
def negotiationDetailOut (neg : Negotiation) : Prog ReadBody := do
  let proposals ← query (.proposals neg.id)
  query .validate
  return .detail
    { id := neg.id, requestId := neg.requestId, supplierId := neg.supplierId,
      status := neg.status, agreedAmount := neg.agreedAmount,
      lastActorId := proposals.getLast?.map (·.actorId), createdAt := neg.createdAt,
      proposals := proposals.map proposalOut }

/-- A response model `list[…]`: the rows are rendered one after the other. -/
def listOut {ρ : Type} (out : ρ → Prog Body) : List ρ → Prog (List Body)
  | [] => return []
  | row :: rows => do
      let body ← out row
      let bodies ← listOut out rows
      return body :: bodies

/-- The service call of the route, and the rendering of what it returns. -/
def ReadOp.produce (user : User) : ReadOp → Prog ReadBody
  | .listRequests page => do
      let reqs ← Procurement.listRequests user page.limit page.offset
      let bodies ← listOut productRequestOut reqs
      return .items bodies
  | .getRequest requestId => do
      let req ← Procurement.getRequest user requestId
      let body ← productRequestOut req
      return .item body
  | .listNegotiations page => do
      let negs ← Procurement.listNegotiations user page.limit page.offset
      let bodies ← listOut negotiationOut negs
      return .items bodies
  | .getNegotiation negotiationId => do
      let neg ← Procurement.getNegotiation user negotiationId
      negotiationDetailOut neg

/-- An authenticated GET. -/
structure ReadRequest where
  caller : Id
  op : ReadOp

/-- The four routes ask for a user, and for no role. -/
def handleRead (read : ReadRequest) : Prog ReadBody := do
  let user ← getCurrentUser read.caller
  read.op.produce user

/-- A page holds rows of its table. -/
theorem mem_of_mem_page {ρ : Type} {key : ρ → Id} {rows : List ρ} {row : ρ} {limit offset : Nat}
    (h : row ∈ page key limit offset rows) : row ∈ rows := by
  unfold page at h
  have hdrop := List.mem_of_mem_drop (List.mem_of_mem_take h)
  exact (List.perm_insertionSort _ rows).mem_iff.mp hdrop

/-! ## §2. What a read answers. -/

namespace Db

/-- The rows `list_requests` selects, before it orders and pages them. -/
def listedRequests (db : Db) (user : User) : List ProductRequest :=
  if user.role = .client then db.requests.filter fun r => r.clientId = user.id
  else db.requests.filter fun r => r.status = .opened

/-- The rows `list_negotiations` selects. -/
def listedNegotiations (db : Db) (user : User) : List Negotiation :=
  if user.role = .supplier then db.negotiations.filter fun n => n.supplierId = user.id
  else db.negotiations.filter fun n => ((db.request n.requestId).any fun r => r.clientId = user.id)

/-- The negotiation as a row of a listing. -/
def out (db : Db) (n : Negotiation) : NegotiationOut :=
  { id := n.id, requestId := n.requestId, supplierId := n.supplierId, status := n.status,
    agreedAmount := n.agreedAmount, lastActorId := (db.chain n.id).getLast?.map (·.actorId),
    createdAt := n.createdAt }

/-- The negotiation with its proposals. -/
def detail (db : Db) (n : Negotiation) : NegotiationDetailOut :=
  { db.out n with proposals := (db.chain n.id).map proposalOut }

/-- `get_negotiation`, as a function of the state. -/
def negotiationFor (db : Db) (user : User) (i : Id) : Except Error Negotiation :=
  match db.negotiation i with
  | none => .error (.notFound "Negotiation not found")
  | some n =>
      match db.request n.requestId with
      | none => .error .server
      | some r =>
          if user.id ≠ r.clientId ∧ user.id ≠ n.supplierId then
            .error (.permissionDenied "You are not a participant in this negotiation")
          else .ok n

/-- Exactly the participants pass the guard. -/
theorem negotiationFor_iff {db : Db} {user : User} {i : Id} {n : Negotiation} :
    db.negotiationFor user i = .ok n
      ↔ db.negotiation i = some n
        ∧ ∃ r, db.request n.requestId = some r ∧ (user.id = r.clientId ∨ user.id = n.supplierId) := by
  unfold negotiationFor
  cases db.negotiation i with
  | none => simp
  | some m =>
      cases hreq : db.request m.requestId with
      | none =>
          simp only [hreq, reduceCtorEq, false_iff]
          rintro ⟨hm, r, hr, _⟩
          cases hm
          rw [hreq] at hr
          exact absurd hr (by simp)
      | some r =>
          simp only [hreq]
          by_cases hp : user.id ≠ r.clientId ∧ user.id ≠ m.supplierId
          · rw [if_pos hp]
            simp only [reduceCtorEq, false_iff]
            rintro ⟨hm, q, hq, hor⟩
            cases hm
            obtain rfl : r = q := Option.some.inj (hreq.symm.trans hq)
            tauto
          · rw [if_neg hp]
            constructor
            · rintro h
              cases h
              exact ⟨rfl, r, hreq, by tauto⟩
            · rintro ⟨hm, _⟩
              cases hm
              rfl

/-- `get_request`, as a function of the state. -/
def requestFor (db : Db) (user : User) (i : Id) : Except Error ProductRequest :=
  match db.request i with
  | none => .error (.notFound "Request not found")
  | some r =>
      if user.role = .client ∧ r.clientId ≠ user.id then
        .error (.permissionDenied "Not your request")
      else .ok r

end Db

def ReadOp.answer (db : Db) (user : User) : ReadOp → Except Error ReadBody
  | .listRequests p =>
      .ok (.items ((page ProductRequest.id p.limit p.offset (db.listedRequests user)).map
        renderedRequest))
  | .getRequest i => (db.requestFor user i).map fun r => .item (renderedRequest r)
  | .listNegotiations p =>
      .ok (.items ((page Negotiation.id p.limit p.offset (db.listedNegotiations user)).map
        fun n => .negotiation (db.out n)))
  | .getNegotiation i => (db.negotiationFor user i).map fun n => .detail (db.detail n)

def ReadRequest.answer (db : Db) (read : ReadRequest) : Except Error ReadBody :=
  match db.user read.caller with
  | none => .error (.http 401 "Could not validate credentials")
  | some user => read.op.answer db user

/-! ## §3. The programs answer that. -/

/-- A program that has only its result left. -/
def ended {α : Type} : Except Error α → Prog α
  | .ok a => .ret a
  | .error e => .raise e

section
variable {α : Type} {env : Env} {db : Db} {b : At α} {user : User}

/-- On the state `db`, which nothing of a read changes, the program at `p` gets
to `q`. -/
abbrev Gets (db : Db) (env : Env) (p q : Prog α) : Prop :=
  engine.Reaches (Within AnyRow) (· = db) (⟨p, env, []⟩ : At α) ⟨q, env, []⟩

/-- One SELECT. -/
theorem Gets.select {c : Cmd} {k : c.Resp → Prog α} {q : Prog α} {r : c.Resp}
    (hw : c.writes env = []) (hn : c.next env = env) (hc : c.answer env db = .ok r)
    (rest : Gets db env (k r) q) : Gets db env (.call c k) q :=
  .read (r := r) (fun _ _ _ => trivial) hw hn (pinned hc) rest

theorem getRequest_gets (i : Id) (k : ProductRequest → Prog α) :
    Gets db env (getRequest user i >>= k) (ended (db.requestFor user i) >>= k) := by
  unfold Db.requestFor
  simp only [getRequest, send_bind, call_bind]
  refine .select (r := db.request i) rfl rfl rfl ?_
  cases db.request i with
  | none => exact .refl _
  | some r =>
      show Gets db env ((if _ then _ else _) >>= k) (ended (if _ then _ else _) >>= k)
      split <;> exact .refl _

theorem getNegotiation_gets (i : Id) (k : Negotiation → Prog α) :
    Gets db env (getNegotiation user i >>= k) (ended (db.negotiationFor user i) >>= k) := by
  unfold Db.negotiationFor
  simp only [getNegotiation, send_bind, call_bind]
  refine .select (r := db.negotiation i) rfl rfl rfl ?_
  cases db.negotiation i with
  | none => exact .refl _
  | some n =>
      simp only [ensureParticipant, send_bind, call_bind]
      refine .select (r := db.request n.requestId) rfl rfl rfl ?_
      cases db.request n.requestId with
      | none => exact .refl _
      | some r =>
          by_cases hp : user.id ≠ r.clientId ∧ user.id ≠ n.supplierId
          · simp only [if_pos hp]
            exact .refl _
          · simp only [if_neg hp]
            exact .refl _

theorem negotiationOut_gets (n : Negotiation) (k : Body → Prog α) :
    Gets db env (negotiationOut n >>= k) (k (.negotiation (db.out n))) := by
  simp only [negotiationOut, send_bind, call_bind, pure_eq, ret_bind]
  refine .select (r := db.chain n.id) rfl rfl rfl ?_
  exact .select (r := ()) rfl rfl rfl (.refl _)

theorem productRequestOut_gets (r : ProductRequest) (k : Body → Prog α) :
    Gets db env (productRequestOut r >>= k) (k (renderedRequest r)) :=
  productRequestOut_reaches (.refl _)

/-- Rendering a list is rendering its rows. -/
theorem listOut_gets {ρ : Type} {out : ρ → Prog Body} {rendered : ρ → Body}
    (hout : ∀ (row : ρ) (k : Body → Prog α), Gets db env (out row >>= k) (k (rendered row)))
    (rows : List ρ) (k : List Body → Prog α) :
    Gets db env (listOut out rows >>= k) (k (rows.map rendered)) := by
  induction rows generalizing k with
  | nil => exact .refl _
  | cons row rows ih =>
      simp only [listOut, Program.bind_assoc]
      have hrow := hout row fun body => listOut out rows >>= fun bodies => k (body :: bodies)
      -- the rest of the list, with this row's body in front
      exact hrow.trans (ih fun bodies => k (rendered row :: bodies))

theorem listRequests_gets (limit offset : Nat) (k : List ProductRequest → Prog α) :
    Gets db env (listRequests user limit offset >>= k)
      (k (page ProductRequest.id limit offset (db.listedRequests user))) := by
  unfold listRequests Db.listedRequests
  split
  · exact .select rfl rfl rfl (.refl _)
  · exact .select rfl rfl rfl (.refl _)

theorem listNegotiations_gets (limit offset : Nat) (k : List Negotiation → Prog α) :
    Gets db env (listNegotiations user limit offset >>= k)
      (k (page Negotiation.id limit offset (db.listedNegotiations user))) := by
  unfold listNegotiations Db.listedNegotiations
  split
  · exact .select rfl rfl rfl (.refl _)
  · exact .select rfl rfl rfl (.refl _)

end

theorem read_gets {db : Db} {env : Env} {user : User} (op : ReadOp) :
    Gets db env (op.produce user) (ended (op.answer db user)) := by
  cases op with
  | listRequests p =>
      show Gets db env (listRequests user p.limit p.offset >>= fun reqs =>
        listOut productRequestOut reqs >>= fun bodies => .ret (ReadBody.items bodies)) _
      exact (listRequests_gets _ _ _).trans (listOut_gets productRequestOut_gets _ _)
  | listNegotiations p =>
      show Gets db env (listNegotiations user p.limit p.offset >>= fun negs =>
        listOut negotiationOut negs >>= fun bodies => .ret (ReadBody.items bodies)) _
      exact (listNegotiations_gets _ _ _).trans (listOut_gets negotiationOut_gets _ _)
  | getRequest i =>
      refine (getRequest_gets i _).trans ?_
      show Gets db env _ (ended ((db.requestFor user i).map _))
      cases db.requestFor user i with
      | error e => exact .refl _
      | ok r => exact productRequestOut_gets r _
  | getNegotiation i =>
      refine (getNegotiation_gets i _).trans ?_
      show Gets db env _ (ended ((db.negotiationFor user i).map _))
      cases db.negotiationFor user i with
      | error e => exact .refl _
      | ok n =>
          show Gets db env (negotiationDetailOut n) _
          unfold negotiationDetailOut
          refine .select (r := db.chain n.id) rfl rfl rfl ?_
          exact .select (r := ()) rfl rfl rfl (.refl _)

/-- **A read answers what it finds, and leaves the state alone.** -/
theorem handleRead_answers (read : ReadRequest) (env : Env) (db : Db) :
    engine.request (handleRead read) env calm db = (read.answer db, db) := by
  have hgets : Gets db env (handleRead read) (ended (read.answer db)) := by
    unfold handleRead getCurrentUser ReadRequest.answer
    simp only [send_bind, call_bind]
    refine .select (r := db.user read.caller) rfl rfl rfl ?_
    cases db.user read.caller with
    | none => exact .refl _
    | some user => exact read_gets read.op
  rw [request_of_reaches hgets]
  cases read.answer db with
  | error e => rfl
  | ok body => rfl

/-- `GET /auth/me`. -/
def handleMe (caller : Id) : Prog UserOut := do
  let user ← getCurrentUser caller
  userOut user

def User.out (user : User) : UserOut :=
  { id := user.id, email := user.email, fullName := user.fullName, role := user.role }

/-- It answers with the row of the caller. -/
theorem handleMe_answers (caller : Id) (env : Env) (db : Db) :
    engine.request (handleMe caller) env calm db
      = (match db.user caller with
        | none => .error (.http 401 "Could not validate credentials")
        | some user => .ok user.out, db) := by
  have hgets : Gets db env (handleMe caller) (ended (match db.user caller with
      | none => .error (.http 401 "Could not validate credentials")
      | some user => .ok user.out)) := by
    unfold handleMe getCurrentUser
    simp only [send_bind, call_bind]
    refine .select (r := db.user caller) rfl rfl rfl ?_
    cases db.user caller with
    | none => exact .refl _
    | some user => exact .refl _
  rw [request_of_reaches hgets]
  cases db.user caller with
  | none => rfl
  | some user => rfl

/-! ## §4. Service calls that only read. -/

/-- The call, in a session of its own, returned `a`. -/
def Returned {α : Type} (p : Prog α) (db : Db) (a : α) : Prop :=
  ∃ env f, (engine.request p env f db).1 = .ok a

/-- What a call returns that only reads. -/
theorem returned_iff {α : Type} {p : Prog α} {db : Db} {r a : α}
    (h : ∀ env, Gets db env p (ended (.ok r))) : Returned p db a ↔ a = r := by
  have hcalm : ∀ env, (engine.request p env calm db).1 = .ok r := by
    intro env
    rw [request_of_reaches (h env)]
    rfl
  constructor
  · intro hret
    obtain ⟨env, f, hret⟩ := hret
    rw [engine.request_ok hret, hcalm] at hret
    exact (Except.ok.inj hret).symm
  · intro heq
    subst heq
    -- any environment will do
    exact ⟨⟨fun _ k => ⟨k, k⟩, "-", id, id, fun _ => .refl _⟩, calm, hcalm _⟩

end Procurement
