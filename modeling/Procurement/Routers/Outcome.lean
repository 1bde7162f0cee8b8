/-
  Procurement.Routers.Outcome
  ───────────────────────────
  **THE THREE OUTCOMES OF A REQUEST.**

  `handle_outcome`: whatever the request, the state and the faults,

      refused   — an error, the state is what it was;
      replayed  — the stored response of the key, the state is what it was;
      executed  — the response of the operation, and the state with exactly
                  the operation's writes and the record of the key.

  `handleRegister` has no key; it is refused or inserts its user and one audit
  entry (`register_outcome`).
-/
import Procurement.Routers.Spec

namespace Procurement

open Procurement.Framework
open Procurement.Framework.Program

variable {R : Row → Prop} {F : Db → Prop}

/-! ## §1. The wrapper around `produce`. -/

/-- The key a request is filed under. -/
def HttpRequest.usedKey (req : HttpRequest) : Option String := req.key.filter fun k => k ≠ ""

/-- The record `save` stages. -/
def HttpRequest.record (req : HttpRequest) (key : String) (user : User) (body : Body) :
    IdempotencyKey :=
  { key, userId := user.id, method := "POST", path := req.path,
    responseStatus := req.op.statusCode, responseBody := body }

def keyWrites (req : HttpRequest) (user : User) (body : Body) : List Write :=
  match req.usedKey with
  | none => []
  | some key => [.insertKey (req.record key user body)]

/-- The part of `idempotent` behind `produce`. -/
def finish (req : HttpRequest) (user : User) (body : Body) : Prog Response := do
  (⟨user, req.key⟩ : Idempotency).save "POST" req.path req.op.statusCode body
  commitNow
  return { status := req.op.statusCode, body }

/-- The role check lets `user` through. -/
def HttpRequest.Permits (req : HttpRequest) (user : User) : Prop :=
  ∀ r, req.op.role = some r → user.role = r

/-- A caller with the role passes. -/
theorem requireRole_of_permits {req : HttpRequest} {user : User} (h : req.Permits user) :
    requireRole req.op.role user = .ret user := by
  unfold requireRole
  cases hr : req.op.role with
  | none => rfl
  | some r => simp [h r hr]

/-- The role is wrong. -/
theorem requireRole_of_not_permits {req : HttpRequest} {user : User} (h : ¬ req.Permits user) :
    ∃ e, requireRole req.op.role user = .raise e := by
  unfold HttpRequest.Permits at h
  push Not at h
  obtain ⟨role, hrole, hne⟩ := h
  refine ⟨.http 403 ("Requires role '" ++ role.value ++ "'"), ?_⟩
  rw [hrole]
  unfold requireRole
  simp [hne]

/-- The program behind the lookup of the key. -/
def lookedUp (req : HttpRequest) (user : User) : Option IdempotencyKey → Prog Response
  | none => req.op.produce user >>= finish req user
  | some record =>
      if record.userId ≠ user.id then
        raise (.http 409 "Idempotency-Key already used by another user")
      else .ret { status := record.responseStatus, body := record.responseBody }

/-- The stored response of the same user. -/
theorem lookedUp_own {req : HttpRequest} {user : User} {record : IdempotencyKey}
    (h : record.userId = user.id) : lookedUp req user (some record)
      = .ret { status := record.responseStatus, body := record.responseBody } :=
  if_neg (not_not_intro h)

/-- The stored response of another user. -/
theorem lookedUp_other {req : HttpRequest} {user : User} {record : IdempotencyKey}
    (h : record.userId ≠ user.id) : lookedUp req user (some record)
      = .raise (.http 409 "Idempotency-Key already used by another user") :=
  if_pos h

/-- The helper is one match: without a key the operation runs, with one its record is looked
up first. -/
theorem idempotent_eq (req : HttpRequest) (user : User) :
    idempotent ⟨user, req.key⟩ req.path (req.op.produce user) req.op.statusCode
      = match req.usedKey with
        | none => req.op.produce user >>= finish req user
        | some k => .call (.getKey k) (lookedUp req user) := by
  unfold idempotent Idempotency.lookup
  have hkey : (⟨user, req.key⟩ : Idempotency).usedKey = req.usedKey := rfl
  rw [hkey]
  cases req.usedKey with
  | none => rfl
  | some k =>
      simp only [send_bind, call_bind]
      congr 1
      funext record
      cases record with
      | none => rfl
      | some record =>
          unfold lookedUp
          by_cases h : record.userId = user.id
          · simp [h]
          · simp [h]

/-- Without a key the commit is all that is left. -/
theorem finish_of_none {req : HttpRequest} {user : User} {body : Body} (hk : req.usedKey = none) :
    finish req user body = .commit (.ret ⟨req.op.statusCode, body⟩) := by
  unfold finish Idempotency.save
  rw [show (⟨user, req.key⟩ : Idempotency).usedKey = none from hk]
  rfl

/-- With a key its record comes before the commit. -/
theorem finish_of_some {req : HttpRequest} {user : User} {body : Body} {key : String}
    (hk : req.usedKey = some key) :
    finish req user body = .call (.insertKey (req.record key user body))
      fun _ => .commit (.ret ⟨req.op.statusCode, body⟩) := by
  unfold finish Idempotency.save
  rw [show (⟨user, req.key⟩ : Idempotency).usedKey = some key from hk]
  rfl

/-- The way into an endpoint leads past the SELECT of the caller. -/
theorem caller_reaches {req : HttpRequest} {user : User} {env : Env} {b : At Response}
    (hu : ∀ db, F db → db.user req.caller = some user)
    (rest : engine.Reaches (Within R) F ⟨requireRole req.op.role user >>= fun user =>
      idempotent ⟨user, req.key⟩ req.path (req.op.produce user) req.op.statusCode, env, []⟩ b) :
    engine.Reaches (Within R) F ⟨handle req, env, []⟩ b := by
  simp only [handle, getCurrentUser, send_bind, call_bind]
  exact .read (r := some user) quiet rfl rfl (fun db hdb => congrArg Except.ok (hu db hdb)) rest

/-- From the start to `produce`, when no record answers the request. -/
theorem handle_reaches {req : HttpRequest} {user : User} {env : Env} {b : At Response}
    (hu : ∀ db, F db → db.user req.caller = some user) (hp : req.Permits user)
    (hk : ∀ db, F db → ∀ k, req.usedKey = some k → db.idempotencyKey k = none)
    (rest : engine.Reaches (Within R) F ⟨req.op.produce user >>= finish req user, env, []⟩ b) :
    engine.Reaches (Within R) F ⟨handle req, env, []⟩ b := by
  refine caller_reaches hu ?_
  rw [requireRole_of_permits hp, ret_bind]
  rw [idempotent_eq]
  cases hc : req.usedKey with
  | none => exact rest
  | some k =>
      exact .read (r := none) quiet rfl rfl (fun db hdb => congrArg Except.ok (hk db hdb k hc)) rest

/-- From the start to the stored response. -/
theorem replay_reaches {req : HttpRequest} {user : User} {record : IdempotencyKey} {k : String}
    {env : Env} (hu : ∀ db, F db → db.user req.caller = some user) (hp : req.Permits user)
    (hk : req.usedKey = some k) (hr : ∀ db, F db → db.idempotencyKey k = some record)
    (huser : record.userId = user.id) :
    engine.Reaches (Within R) F (⟨handle req, env, []⟩ : At Response)
      ⟨.ret ⟨record.responseStatus, record.responseBody⟩, env, []⟩ := by
  refine caller_reaches hu ?_
  rw [requireRole_of_permits hp, ret_bind]
  rw [idempotent_eq, hk]
  refine .read (r := some record) quiet rfl rfl (fun db hdb => congrArg Except.ok (hr db hdb)) ?_
  rw [lookedUp_own huser]
  exact .refl _

/-- The keys among staged writes. -/
def insertedKeys (ws : List Write) : List IdempotencyKey :=
  ws.filterMap fun w => match w with
    | .insertKey r => some r
    | _ => none

/-- Writes add the keys that they insert. -/
theorem idempotencyKeys_view (ws : List Write) (db : Db) :
    (engine.view ws db).idempotencyKeys = db.idempotencyKeys ++ insertedKeys ws := by
  induction ws generalizing db with
  | nil => exact (List.append_nil _).symm
  | cons w ws ih =>
      rw [Engine.view_cons, ih, engine_apply]
      cases w with
      | insertKey r => exact List.append_assoc _ [r] _
      | _ => rfl

/-- An acceptance inserts no key of its own. -/
theorem insertedKeys_accept {user : User} {neg : Negotiation} {last : Proposal}
    {req : ProductRequest} (env : Env) (siblings : List Negotiation) :
    insertedKeys (acceptWrites env user neg last req siblings) = [] := by
  have hloop : ∀ (w : Id) (env : Env) (siblings : List Negotiation),
      insertedKeys (supersedeWrites w env siblings) = [] := by
    intro w env siblings
    induction siblings generalizing env with
    | nil => rfl
    | cons sib siblings ih => exact ih (env.pop .auditLog)
  show List.filterMap _ (supersedeWrites _ env _ ++ _) = []
  rw [List.filterMap_append, List.append_eq_nil_iff]
  exact ⟨hloop _ _ _, rfl⟩

/-- No operation files a key by itself. -/
theorem Produces.insertedKeys {db : Db} {user : User} {env : Env} {op : Op} {o : Produced}
    (h : Produces db user env op o) : insertedKeys o.writes = [] := by
  cases h with
  | accept h hm hreq => exact insertedKeys_accept env _
  | _ => rfl

/-- The way out leads to the commit, with the record of the key staged. -/
theorem finish_reaches {req : HttpRequest} {user : User} {body : Body} {env : Env}
    {ws : List Write} {b : At Response} (hlock : ∀ k, req.usedKey = some k → R (.key k))
    (hk : ∀ db, F db → ∀ k, req.usedKey = some k →
      (engine.view ws db).idempotencyKey k = none)
    (rest : engine.Reaches (Within R) F ⟨.commit (.ret ⟨req.op.statusCode, body⟩), env,
      ws ++ keyWrites req user body⟩ b) :
    engine.Reaches (Within R) F ⟨finish req user body, env, ws⟩ b := by
  unfold keyWrites at rest
  cases hc : req.usedKey with
  | none =>
      rw [hc, List.append_nil] at rest
      rw [finish_of_none hc]
      exact rest
  | some k =>
      rw [hc] at rest
      rw [finish_of_some hc]
      exact .answer (r := ()) (locking (hlock k hc) fun _ => Or.inr rfl)
        (fun db hdb => answer_insertKey.mpr (hk db hdb k hc)) rest

/-! ## §2. Calm requests. -/

/-- The request is answered from `record`. -/
structure Replays (req : HttpRequest) (user : User) (record : IdempotencyKey) (db : Db) :
    Prop where
  caller : db.user req.caller = some user
  permits : req.Permits user
  stored : ∃ k, req.usedKey = some k ∧ db.idempotencyKey k = some record
  owner : record.userId = user.id

/-- The request runs its operation, which leaves `o`. -/
structure Executes (req : HttpRequest) (user : User) (env : Env) (o : Produced) (db : Db) :
    Prop where
  caller : db.user req.caller = some user
  permits : req.Permits user
  unused : ∀ k, req.usedKey = some k → db.idempotencyKey k = none
  produces : Produces db user env req.op o

/-- Everything an executed request commits. -/
def committedWrites (req : HttpRequest) (user : User) (o : Produced) : List Write :=
  o.writes ++ keyWrites req user o.body

/-- A request from whose start a point is reached ends as that point does. -/
theorem request_of_reaches {β : Type} {p : Prog β} {env env' : Env} {q : Prog β}
    {ws : List Write} {db : Db}
    (h : engine.Reaches (Within AnyRow) (· = db) (⟨p, env, []⟩ : At β) ⟨q, env', ws⟩) :
    engine.request p env calm db
      = ((engine.exec q ⟨db, ws, env', calm⟩).1, (engine.exec q ⟨db, ws, env', calm⟩).2.committed) := by
  unfold Engine.request
  rw [h.exec rfl]

/-- A stored response of the caller is answered, and nothing is changed. -/
theorem replays_calm {req : HttpRequest} {user : User} {record : IdempotencyKey} {db : Db}
    (h : Replays req user record db) (env : Env) :
    engine.request (handle req) env calm db
      = (.ok ⟨record.responseStatus, record.responseBody⟩, db) := by
  obtain ⟨k, hk, hr⟩ := h.stored
  exact request_of_reaches (replay_reaches (pinned h.caller) h.permits hk (pinned hr) h.owner)

/-- An execution reaches its commit, with all its writes staged. -/
theorem Executes.reaches {req : HttpRequest} {user : User} {env : Env} {o : Produced} {db : Db}
    (h : Executes req user env o db) :
    engine.Reaches (Within AnyRow) (· = db) (⟨handle req, env, []⟩ : At Response)
      ⟨.commit (.ret ⟨req.op.statusCode, o.body⟩), o.env, committedWrites req user o⟩ := by
  refine handle_reaches (pinned h.caller) h.permits (pinned h.unused) ?_
  refine h.produces.reaches (finish_reaches (fun _ _ => trivial) ?_ (.refl _))
  intro db' hdb k hk
  subst hdb
  have hkeys := idempotencyKeys_view o.writes db'
  rw [h.produces.insertedKeys, List.append_nil] at hkeys
  unfold Db.idempotencyKey
  rw [hkeys]
  exact h.unused k hk

/-- **An execution without faults** answers with what it has produced, and commits its writes.
-/
theorem executes_calm {req : HttpRequest} {user : User} {env : Env} {o : Produced} {db : Db}
    (h : Executes req user env o db) :
    engine.request (handle req) env calm db
      = (.ok ⟨req.op.statusCode, o.body⟩, engine.view (committedWrites req user o) db) := by
  rw [request_of_reaches h.reaches, Engine.exec_commit_calm]
  rfl

/-- A request that neither replays nor executes raises before it has staged
anything. -/
theorem refused_reaches {req : HttpRequest} {env : Env} {db : Db}
    (hr : ∀ user record, ¬ Replays req user record db)
    (hx : ∀ user o, ¬ Executes req user env o db) :
    ∃ e, engine.Reaches (Within AnyRow) (· = db) (⟨handle req, env, []⟩ : At Response) ⟨.raise e, env, []⟩ := by
  cases hu : db.user req.caller with
  | none =>
      -- the token names no user
      refine ⟨.http 401 "Could not validate credentials", ?_⟩
      simp only [handle, getCurrentUser, send_bind, call_bind]
      exact .read (r := none) quiet rfl rfl (pinned (congrArg Except.ok hu)) (.refl _)
  | some user =>
      by_cases hp : req.Permits user
      · by_cases hk : ∀ k, req.usedKey = some k → db.idempotencyKey k = none
        · -- no record: a guard of the operation refuses
          obtain ⟨e, he⟩ := produce_fails (fun o ho => hx user o ⟨hu, hp, hk, ho⟩)
            (finish req user)
          exact ⟨e, handle_reaches (pinned hu) hp (pinned hk) he⟩
        · -- a record, of another user
          push Not at hk
          obtain ⟨k, hkk, hne⟩ := hk
          obtain ⟨record, hrec⟩ := Option.ne_none_iff_exists'.mp hne
          have howner : record.userId ≠ user.id :=
            fun ho => hr user record ⟨hu, hp, ⟨k, hkk, hrec⟩, ho⟩
          refine ⟨.http 409 "Idempotency-Key already used by another user", ?_⟩
          refine caller_reaches (pinned hu) ?_
          rw [requireRole_of_permits hp, ret_bind, idempotent_eq, hkk]
          refine .read (r := some record) quiet rfl rfl (pinned (congrArg Except.ok hrec)) ?_
          rw [lookedUp_other howner]
          exact .refl _
      · obtain ⟨e, he⟩ := requireRole_of_not_permits hp
        refine ⟨e, caller_reaches (pinned hu) ?_⟩
        rw [he, raise_bind]
        exact .refl _

/-- **Whatever is neither a replay nor an execution fails**, and changes nothing. -/
theorem refused_calm {req : HttpRequest} {env : Env} {db : Db}
    (hr : ∀ user record, ¬ Replays req user record db)
    (hx : ∀ user o, ¬ Executes req user env o db) :
    ∃ e, engine.request (handle req) env calm db = (.error e, db) := by
  obtain ⟨e, he⟩ := refused_reaches hr hx
  exact ⟨e, request_of_reaches he⟩

/-! ## §3. Requests with faults. -/

/-- The statements about the idempotency table. -/
def Cmd.touchesKeys : Cmd → Bool
  | .getKey _ | .insertKey _ => true
  | _ => false

/-- The services neither commit nor touch the keys. -/
abbrev Service {α : Type} (p : Prog α) : Prop := p.Uses fun c => c.touchesKeys = false

/-- An entry commits nothing. -/
theorem record_service (action : AuditAction) (ety : EntityType) (eid aid : Option Id)
    (details : Details) : Service (record action ety eid aid details) :=
  ⟨rfl, fun _ => ⟨rfl, fun _ => trivial⟩⟩

/-- Looking for the last proposal commits nothing. -/
theorem lastProposal_service (neg : Negotiation) : Service (lastProposal neg) := by
  refine ⟨rfl, fun p => ?_⟩
  cases p <;> trivial

/-- The check of a participant commits nothing. -/
theorem ensureParticipant_service (user : User) (neg : Negotiation) :
    Service (ensureParticipant user neg) := by
  refine ⟨rfl, fun req => ?_⟩
  cases req with
  | none => trivial
  | some req =>
      show Service (if _ then _ else _)
      split <;> trivial

/-- The check of the turn commits nothing. -/
theorem load_service (user : User) (n : Id) : Service (loadActiveForResponse user n) := by
  refine ⟨rfl, fun neg => ?_⟩
  cases neg with
  | none => trivial
  | some neg =>
      show Service (ensureParticipant user neg >>= _)
      refine Uses.bind (ensureParticipant_service user neg) fun _ => ?_
      split
      · trivial
      · refine Uses.bind (lastProposal_service neg) fun last => ?_
        split <;> trivial

/-- The superseding loop commits nothing. -/
theorem supersedeEach_service (w : Id) (siblings : List Negotiation) :
    Service (supersedeEach w siblings) := by
  induction siblings with
  | nil => trivial
  | cons sib siblings ih =>
      refine ⟨rfl, fun _ => ?_⟩
      show Service (record _ _ _ _ _ >>= _)
      exact Uses.bind (record_service _ _ _ _ _) fun _ => ih

/-- An offer commits nothing on its own. -/
theorem makeOffer_service (user : User) (rid : Id) (data : OfferIn) :
    Service (makeOffer user rid data) := by
  refine ⟨rfl, fun req => ?_⟩
  cases req with
  | none => trivial
  | some req =>
      show Service (if _ then _ else _)
      split
      · trivial
      · refine ⟨rfl, fun existing => ?_⟩
        cases existing with
        | some m => trivial
        | none =>
            refine ⟨rfl, fun _ => ⟨rfl, fun _ => ?_⟩⟩
            show Service (record _ _ _ _ _ >>= _)
            exact Uses.bind (record_service _ _ _ _ _) fun _ => trivial

/-- An acceptance commits nothing on its own. -/
theorem accept_service (user : User) (n : Id) : Service (accept user n) := by
  rw [accept_eq]
  refine Uses.bind (load_service user n) fun neg => ?_
  refine Uses.bind (lastProposal_service neg) fun last => ⟨rfl, fun _ => ⟨rfl, fun req => ?_⟩⟩
  cases req with
  | none => trivial
  | some req =>
      refine ⟨rfl, fun siblings => ⟨rfl, fun _ => ?_⟩⟩
      show Service (supersedeEach neg.id siblings >>= _)
      refine Uses.bind (supersedeEach_service _ siblings) fun _ => ?_
      exact Uses.bind (record_service _ _ _ _ _) fun _ => trivial

/-- Dumping a negotiation commits nothing. -/
theorem negotiationOut_service (neg : Negotiation) : Service (negotiationOut neg) :=
  ⟨rfl, fun _ => ⟨rfl, fun _ => trivial⟩⟩

/-- **No operation commits on its own.** -/
theorem produce_service (user : User) (op : Op) : Service (op.produce user) := by
  cases op with
  | createRequest data =>
      refine Uses.bind ⟨rfl, fun _ => ?_⟩ fun _ => ⟨rfl, fun _ => trivial⟩
      show Service (record _ _ _ _ _ >>= _)
      exact Uses.bind (record_service _ _ _ _ _) fun _ => trivial
  | makeOffer rid data =>
      exact Uses.bind (makeOffer_service user rid data) negotiationOut_service
  | accept n => exact Uses.bind (accept_service user n) negotiationOut_service
  | reject n =>
      refine Uses.bind (Uses.bind (load_service user n) fun neg => ?_) negotiationOut_service
      refine ⟨rfl, fun _ => ?_⟩
      show Service (record _ _ _ _ _ >>= _)
      exact Uses.bind (record_service _ _ _ _ _) fun _ => trivial
  | counter n data =>
      refine Uses.bind (Uses.bind (load_service user n) fun neg => ?_) negotiationOut_service
      refine Uses.bind (lastProposal_service neg) fun last => ?_
      refine ⟨rfl, fun _ => ?_⟩
      show Service (record _ _ _ _ _ >>= _)
      exact Uses.bind (record_service _ _ _ _ _) fun _ => trivial

/-- The commit of an operation is its last step. -/
theorem finish_commitsLast (req : HttpRequest) (user : User) (body : Body) :
    (finish req user body).CommitsLast := by
  cases hk : req.usedKey with
  | none =>
      rw [finish_of_none hk]
      exact ⟨_, rfl⟩
  | some k =>
      rw [finish_of_some hk]
      exact fun _ => ⟨_, rfl⟩

/-- **The commit is the last thing a request does.** -/
theorem handle_commitsLast (req : HttpRequest) : (handle req).CommitsLast := by
  intro user
  cases user with
  | none => trivial
  | some user =>
      -- behind the lookup, every path is `produce` and then `finish`
      have hrun : (req.op.produce user >>= finish req user).CommitsLast :=
        CommitsLast.bind (produce_service user req.op) (finish_commitsLast req user)
      have hidem : (idempotent ⟨user, req.key⟩ req.path (req.op.produce user)
          req.op.statusCode).CommitsLast := by
        rw [idempotent_eq]
        cases req.usedKey with
        | none => exact hrun
        | some k =>
            intro record
            cases record with
            | none => exact hrun
            | some record =>
                by_cases h : record.userId = user.id
                · rw [lookedUp_own h]
                  trivial
                · rw [lookedUp_other h]
                  trivial
      show (requireRole req.op.role user >>= _).CommitsLast
      by_cases hp : req.Permits user
      · rw [requireRole_of_permits hp]
        exact hidem
      · obtain ⟨e, he⟩ := requireRole_of_not_permits hp
        rw [he]
        trivial

/-- What became of a request. -/
inductive Outcome (req : HttpRequest) (env : Env) (db : Db) : Except Error Response → Db → Prop where
  | refused (e : Error) : Outcome req env db (.error e) db
  | replayed {user : User} {record : IdempotencyKey} (h : Replays req user record db) :
      Outcome req env db (.ok ⟨record.responseStatus, record.responseBody⟩) db
  | executed {user : User} {o : Produced} (h : Executes req user env o db) :
      Outcome req env db (.ok ⟨req.op.statusCode, o.body⟩)
        (engine.view (committedWrites req user o) db)

/-- **The three outcomes**, for every request, state and pattern of faults. -/
theorem handle_outcome (req : HttpRequest) (env : Env) (f : Nat → Bool) (db : Db) :
    Outcome req env db (engine.request (handle req) env f db).1
      (engine.request (handle req) env f db).2 := by
  cases ho : (engine.request (handle req) env f db).1 with
  -- wherever it was raised, the commit had not happened
  | error e =>
      rw [engine.request_error (handle_commitsLast req) ho]
      exact .refused e
  | ok r =>
      -- a successful request met no fault, so its calm execution decides
      rw [← ho, engine.request_ok ho]
      by_cases hr : ∃ user record, Replays req user record db
      · obtain ⟨user, record, h⟩ := hr
        rw [replays_calm h]
        exact .replayed h
      · by_cases hx : ∃ user o, Executes req user env o db
        · obtain ⟨user, o, h⟩ := hx
          rw [executes_calm h]
          exact .executed h
        -- neither: it would have been refused
        · push Not at hr hx
          obtain ⟨e, he⟩ := refused_calm hr hx
          rw [he]
          exact .refused e

/-- The three outcomes, as equations for what the session returns. -/
theorem handle_cases (req : HttpRequest) (env : Env) (f : Nat → Bool) (db : Db) :
    (∃ e, engine.request (handle req) env f db = (.error e, db))
    ∨ (∃ user record, Replays req user record db
      ∧ engine.request (handle req) env f db
        = (.ok ⟨record.responseStatus, record.responseBody⟩, db))
    ∨ ∃ user o, Executes req user env o db
      ∧ engine.request (handle req) env f db
        = (.ok ⟨req.op.statusCode, o.body⟩, engine.view (committedWrites req user o) db) := by
  have hout := handle_outcome req env f db
  generalize engine.request (handle req) env f db = result at hout ⊢
  obtain ⟨o, db'⟩ := result
  cases hout with
  | refused e => exact Or.inl ⟨e, rfl⟩
  | replayed h => exact Or.inr (Or.inl ⟨_, _, h, rfl⟩)
  | executed h => exact Or.inr (Or.inr ⟨_, _, h, rfl⟩)

/-- Without a key there is no stored response. -/
theorem usedKey_none {req : HttpRequest} (h : req.key = none) : req.usedKey = none := by
  unfold HttpRequest.usedKey
  rw [h]
  rfl

/-- A request without a key uses none. -/
theorem usedKey_ne {req : HttpRequest} (h : req.key = none) (k : String) : req.usedKey ≠ some k := by
  rw [usedKey_none h]
  exact fun hk => absurd hk (by simp)

/-- Without a key, what an executed request commits is what its operation writes. -/
theorem committedWrites_unkeyed {req : HttpRequest} (h : req.key = none) (user : User)
    (o : Produced) : committedWrites req user o = o.writes := by
  unfold committedWrites keyWrites
  rw [usedKey_none h]
  exact List.append_nil _

/-- **Without a key and without faults**, a request by an existing user executes
or is refused. -/
theorem unkeyed_outcome (req : HttpRequest) {user : User} (env : Env) {db : Db}
    (hk : req.key = none) (hu : db.user req.caller = some user) :
    (∃ o, Executes req user env o db
      ∧ (Call.post req).run env calm db
        = (.ok (.response ⟨req.op.statusCode, o.body⟩), engine.view (committedWrites req user o) db))
    ∨ (∀ o, ¬ Executes req user env o db)
      ∧ ∃ e, (Call.post req).run env calm db = (.error e, db) := by
  by_cases hx : ∃ o, Executes req user env o db
  · left
    obtain ⟨o, hexec⟩ := hx
    refine ⟨o, hexec, ?_⟩
    simp only [Call.run, executes_calm hexec, Except.map]
  · right
    have hno : ∀ user' o, ¬ Executes req user' env o db := by
      intro user' o hexec
      obtain rfl : user = user' := Option.some.inj (hu.symm.trans hexec.caller)
      exact hx ⟨o, hexec⟩
    have hnorep : ∀ user' record, ¬ Replays req user' record db := by
      intro user' record hrep
      obtain ⟨k, hk', _⟩ := hrep.stored
      exact usedKey_ne hk k hk'
    obtain ⟨e, he⟩ := refused_calm hnorep hno
    refine ⟨fun o hexec => hx ⟨o, hexec⟩, e, ?_⟩
    simp only [Call.run, he, Except.map]

/-! ## §4. Registration. -/

/-- The row `registerUser` inserts. -/
def Env.registered (env : Env) (data : RegisterIn) : User :=
  env.newUser data.email (env.hashpw data.password) data.role data.fullName

def registerWrites (env : Env) (data : RegisterIn) : List Write :=
  let user := env.registered data
  [.insertUser user,
   .insertAudit ((env.pop .users).entry .userRegistered .user (some user.id) (some user.id)
     (.role user.role))]

/-- What `handleRegister` does behind its commit: it only reads. -/
theorem refresh_uses (user : User) : (refresh user >>= userOut).Uses fun _ => True := by
  refine ⟨trivial, fun row => ?_⟩
  cases row <;> trivial

/-- A registration commits once. -/
theorem handleRegister_oneCommit (data : RegisterIn) : (handleRegister data).OneCommit := by
  intro existing
  cases existing with
  | some u => trivial
  | none => exact fun hashed user correlationId _ => refresh_uses user

/-- With a free email, the registration gets to its commit. -/
theorem register_reaches {data : RegisterIn} {env : Env} (hlock : R (.email data.email))
    (hF : ∀ db, F db → db.userByEmail data.email = none) :
    engine.Reaches (Within R) F (⟨handleRegister data, env, []⟩ : At UserOut)
      ⟨.commit (refresh (env.registered data) >>= userOut), (env.pop .users).pop .auditLog,
        registerWrites env data⟩ := by
  simp only [handleRegister, registerUser, send_bind, call_bind]
  refine .read (r := none) quiet rfl rfl (fun db hdb => congrArg Except.ok (hF db hdb)) ?_
  simp only [call_bind]
  refine .read (r := env.hashpw data.password) quiet rfl rfl (fun _ _ => rfl) ?_
  refine .answer (r := env.registered data) (locking hlock fun _ => Or.inr rfl)
    (fun db hdb => answer_insertUser (hF db hdb)) ?_
  simp only [Program.bind_assoc]
  exact record_reaches (.refl _)

/-- An email that is taken is refused. -/
theorem register_refused {data : RegisterIn} {env : Env} {u : User}
    (hF : ∀ db, F db → db.userByEmail data.email = some u) :
    engine.Reaches (Within R) F (⟨handleRegister data, env, []⟩ : At UserOut)
      ⟨.raise (.conflict "Email already registered"), env, []⟩ := by
  simp only [handleRegister, registerUser, send_bind, call_bind]
  exact .read (r := some u) quiet rfl rfl (fun db hdb => congrArg Except.ok (hF db hdb)) (.refl _)

/-- A registration leaves the state as it was, or adds its user and its audit
entry, and then the email was free. -/
theorem register_outcome (data : RegisterIn) (env : Env) (f : Nat → Bool) (db : Db) :
    (engine.request (handleRegister data) env f db).2 = db
      ∨ db.userByEmail data.email = none ∧
        (engine.request (handleRegister data) env f db).2
          = engine.view (registerWrites env data) db := by
  rcases engine.request_committed (handleRegister_oneCommit data) env f db with h | h
  · exact Or.inl h
  -- the calm registration: refused for a taken email, else committed
  · rw [h]
    cases he : db.userByEmail data.email with
    | some u =>
        left
        rw [request_of_reaches (register_refused (R := AnyRow) (pinned he))]
        rfl
    | none =>
        right
        refine ⟨rfl, ?_⟩
        rw [request_of_reaches (register_reaches (R := AnyRow) trivial (pinned he)), Engine.exec_commit_calm]
        exact engine.exec_uses (refresh_uses _) _

end Procurement
