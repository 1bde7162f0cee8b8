/-
  Procurement.Runs.Metadata
  ─────────────────────────
  **THE METADATA OF A CALL**: the header `X-Request-ID`, which the middleware
  hands to the audit writer, and the header `Idempotency-Key`.

  Neither changes what a call does to the business tables.  The correlation id
  changes one column of the audit entries (`Write.retag`), the key adds one row
  of its own.  But both are written in the transaction of the call, as they
  come, into columns of bounded length: with a longer header the call fails
  (`metadata_iff`).
-/
import Procurement.Observability.Correlation
import Procurement.Runs.Storage

namespace Procurement

open Procurement.Framework
open Procurement.Framework.Program

/-! ## §1. The correlation id. -/

/-- The same environment under another correlation id. -/
def Env.tagged (env : Env) (requestId : String) : Env := { env with requestId }

/-- The same write under another correlation id. -/
def Write.retag (requestId : String) : Write → Write
  | .insertAudit e => .insertAudit { e with requestId }
  | w => w

section
variable {env : Env} {user : User} {db : Db} {op : Op} {o : Produced}

theorem Env.afterSupersede_tagged (rid : String) (siblings : List Negotiation) :
    (env.tagged rid).afterSupersede siblings = (env.afterSupersede siblings).tagged rid := by
  induction siblings generalizing env with
  | nil => rfl
  | cons sib siblings ih =>
      show ((env.pop .auditLog).tagged rid).afterSupersede siblings = _
      rw [ih]
      rfl

theorem supersedeWrites_tagged (w : Id) (rid : String) (siblings : List Negotiation) :
    supersedeWrites w (env.tagged rid) siblings
      = (supersedeWrites w env siblings).map (Write.retag rid) := by
  induction siblings generalizing env with
  | nil => rfl
  | cons sib siblings ih =>
      show _ :: _ :: supersedeWrites w ((env.pop .auditLog).tagged rid) siblings = _
      rw [ih]
      rfl

/-- **An operation under another correlation id** writes the same but for that id. -/
theorem Produces.tagged (h : Produces db user env op o) (rid : String) :
    ∃ o', Produces db user (env.tagged rid) op o' ∧ o'.body = o.body
      ∧ o'.writes = o.writes.map (Write.retag rid) := by
  cases h with
  | createRequest data => exact ⟨_, .createRequest data, rfl, rfl⟩
  | makeOffer data h ho => exact ⟨_, .makeOffer data h ho, rfl, rfl⟩
  | reject h hm => exact ⟨_, .reject h hm, rfl, rfl⟩
  | counter data h hm => exact ⟨_, .counter data h hm, rfl, rfl⟩
  | @accept neg client ps last req h hm hreq =>
      refine ⟨_, .accept h hm hreq, rfl, ?_⟩
      show _ :: _ :: (supersedeWrites neg.id (env.tagged rid) _ ++ _) = _
      rw [supersedeWrites_tagged]
      show _ = _ :: _ :: List.map (Write.retag rid) (supersedeWrites neg.id env _ ++ _)
      rw [List.map_append, Env.afterSupersede_tagged]
      rfl

theorem registerWrites_tagged (env : Env) (rid : String) (data : RegisterIn) :
    registerWrites (env.tagged rid) data = (registerWrites env data).map (Write.retag rid) := rfl

end

/-- Of rows that fit, the audit entries are the ones that a correlation id can make not
to fit. -/
theorem retag_fits_iff {ws : List Write} {rid : String} (hone : ∃ e, Write.insertAudit e ∈ ws)
    (hfits : ∀ w ∈ ws, w.Fits) : (∀ w ∈ ws.map (Write.retag rid), w.Fits) ↔ IsVarchar 64 rid := by
  constructor
  · intro h
    obtain ⟨e, he⟩ := hone
    have hrow : AuditLog.Fits { e with requestId := rid } := h _ (List.mem_map_of_mem he)
    exact hrow.requestId
  · intro hrid w hw
    obtain ⟨v, hv, rfl⟩ := List.mem_map.mp hw
    have hv := hfits v hv
    cases v with
    | insertAudit e =>
        have he : e.Fits := hv
        exact (⟨he.id, hrid, he.actorId, he.entityId⟩ : AuditLog.Fits { e with requestId := rid })
    | _ => exact hv

/-! ## §2. The same effect. -/

/-- The entry without its correlation id. -/
def AuditLog.untagged (e : AuditLog) : AuditLog := { e with requestId := "" }

/-- Two states that differ in correlation ids and in keys only. -/
structure SameEffect (db db' : Db) : Prop where
  users : db'.users = db.users
  requests : db'.requests = db.requests
  negotiations : db'.negotiations = db.negotiations
  proposals : db'.proposals = db.proposals
  auditLog : db'.auditLog.map AuditLog.untagged = db.auditLog.map AuditLog.untagged

theorem SameEffect.refl (db : Db) : SameEffect db db := ⟨rfl, rfl, rfl, rfl, rfl⟩

section
variable {db db' : Db}

/-- A write, and the same write under another correlation id. -/
theorem SameEffect.apply (h : SameEffect db db') (w : Write) (rid : String) :
    SameEffect (w.apply db) ((w.retag rid).apply db') := by
  cases w with
  | insertUser r => exact { h with users := congrArg (· ++ [r]) h.users }
  | insertRequest r => exact { h with requests := congrArg (· ++ [r]) h.requests }
  | insertNegotiation r => exact { h with negotiations := congrArg (· ++ [r]) h.negotiations }
  | insertProposal r => exact { h with proposals := congrArg (· ++ [r]) h.proposals }
  | insertAudit e =>
      refine { h with auditLog := ?_ }
      show (db'.auditLog ++ [_]).map AuditLog.untagged = (db.auditLog ++ [e]).map AuditLog.untagged
      rw [List.map_append, List.map_append, h.auditLog]
      rfl
  | insertKey r => exact ⟨h.users, h.requests, h.negotiations, h.proposals, h.auditLog⟩
  | decide n d =>
      exact { h with negotiations := congrArg (update Negotiation.id · n d.on) h.negotiations }
  | closeRequest i =>
      refine { h with requests := ?_ }
      show update ProductRequest.id db'.requests i _ = update ProductRequest.id db.requests i _
      rw [h.requests]

theorem SameEffect.view (h : SameEffect db db') (ws : List Write) (rid : String) :
    SameEffect (engine.view ws db) (engine.view (ws.map (Write.retag rid)) db') := by
  induction ws generalizing db db' with
  | nil => exact h
  | cons w ws ih => exact ih (h.apply w rid)

/-- The row of a key is no effect. -/
theorem SameEffect.keyWrites (h : SameEffect db db') (req : HttpRequest) (user : User) (body : Body) :
    SameEffect db (engine.view (keyWrites req user body) db') := by
  unfold Procurement.keyWrites
  cases req.usedKey with
  | none => exact h
  | some k => exact ⟨h.users, h.requests, h.negotiations, h.proposals, h.auditLog⟩

end

/-! ## §3. Calls with headers. -/

/-- The request with this value of the header `Idempotency-Key`. -/
def HttpRequest.keyed (req : HttpRequest) (key : Option String) : HttpRequest := { req with key }

/-- A registration reads no such header. -/
def Call.keyed : Call → Option String → Call
  | .register data, _ => .register data
  | .post req, key => .post (req.keyed key)

section
variable {call : Call} {env : Env} {db : Db}

/-- Without a key there is no replay: a call that succeeds on PostgreSQL has committed. -/
theorem unkeyed_commits {answer : Answer} {db' : Db}
    (h : (call.keyed none).runPostgres env calm db = (.ok answer, db')) :
    ∃ ws, (call.keyed none).commits env calm db = .ok (some ws) := by
  rcases calm_cases (call.keyed none) env db with hcommits | ⟨hreplayed, _⟩ | ⟨e, hfails, _⟩
  · exact hcommits
  · cases call with
    | register data => exact hreplayed.elim
    | post req =>
        obtain ⟨user, record, hrep⟩ := hreplayed
        obtain ⟨k, hk, _⟩ := hrep.stored
        exact absurd hk (usedKey_ne rfl k)
  · rw [hfails] at h
    exact absurd (congrArg Prod.fst h) (by simp)

/-- The state behind a call that commits. -/
theorem run_of_commits {f : Nat → Bool} {ws : List Write}
    (h : call.commits env f db = .ok (some ws)) : (call.run env f db).2 = engine.view ws db := by
  cases call with
  | register data => exact engine.exec_of_firstCommit_some (handleRegister_oneCommit data) h
  | post req => exact engine.exec_of_firstCommit_some (handle_commitsLast req).oneCommit h

/-- The answer of a registration: it reads its row again. -/
theorem exec_refresh (user : User) (db : Db) (env : Env) :
    (engine.exec (refresh user >>= userOut) ⟨db, [], env, calm⟩).1
      = match db.user user.id with
        | none => .error .server
        | some row => .ok ⟨row.id, row.email, row.fullName, row.role⟩ := by
  simp only [refresh, send_bind, call_bind]
  rw [Engine.exec_call_calm engine (r := db.user user.id) rfl]
  cases db.user user.id <;> rfl

/-- A registration answers the same under every correlation id. -/
theorem register_tagged (data : RegisterIn) (env : Env) (rid : String) (db : Db) :
    ((Call.register data).run (env.tagged rid) calm db).1
      = ((Call.register data).run env calm db).1 := by
  cases he : db.userByEmail data.email with
  | some u =>
      have hfails : ∀ env : Env, engine.request (handleRegister data) env calm db
          = (.error (.conflict "Email already registered"), db) :=
        fun env => request_of_reaches (register_refused (pinned he))
      simp only [Call.run, hfails]
  | none =>
      have hanswer : ∀ env : Env, (engine.request (handleRegister data) env calm db).1
          = (engine.exec (refresh (env.registered data) >>= userOut)
            ⟨engine.view (registerWrites env data) db, [], (env.pop .users).pop .auditLog, calm⟩).1 := by
        intro env
        rw [request_of_reaches (register_reaches (R := AnyRow) trivial (pinned he)),
          Engine.exec_commit_calm]
      simp only [Call.run, hanswer, exec_refresh]
      rfl

/-- **A request with a new key and another correlation id** executes as without. -/
theorem Executes.keyed {req : HttpRequest} {user : User} {o : Produced} {key : Option String}
    (h : Executes (req.keyed none) user env o db)
    (hnew : ∀ k, key = some k → db.idempotencyKey k = none) (rid : String) :
    ∃ o', Executes (req.keyed key) user (env.tagged rid) o' db ∧ o'.body = o.body
      ∧ o'.writes = o.writes.map (Write.retag rid) := by
  obtain ⟨o', hproduces, hbody, hwrites⟩ := h.produces.tagged rid
  refine ⟨o', ⟨h.caller, h.permits, fun k hk => ?_, hproduces⟩, hbody, hwrites⟩
  exact hnew k (Option.filter_eq_some_iff.mp hk).1

/-- Every commit has an audit entry. -/
theorem commits_entry {ws : List Write} (h : (call.keyed none).commits env calm db = .ok (some ws)) :
    ∃ e, Write.insertAudit e ∈ ws := by
  cases call with
  | register data =>
      obtain ⟨_, rfl⟩ := register_committed h
      exact ⟨_, List.mem_cons_of_mem _ (List.mem_cons_self ..)⟩
  | post req =>
      obtain ⟨user, o, hexec, rfl⟩ := post_committed h
      obtain ⟨e, he⟩ := hexec.produces.has_entry
      exact ⟨e, List.mem_append_left _ he⟩

/-- **What the headers add to a commit**: its entries carry the other correlation id, and
behind them stands the row of the key. -/
theorem keyed_commits {key : Option String} {ws : List Write}
    (hnew : ∀ k, key = some k → db.idempotencyKey k = none) (rid : String)
    (h : (call.keyed none).commits env calm db = .ok (some ws)) :
    ∃ ks, (call.keyed key).commits (env.tagged rid) calm db
        = .ok (some (ws.map (Write.retag rid) ++ ks))
      ∧ ((call.keyed key).run (env.tagged rid) calm db).1 = ((call.keyed none).run env calm db).1
      ∧ (db.Fits → ((∀ w ∈ ks, w.Fits) ↔ (call.keyed key).KeyFits))
      ∧ ∀ db₁ db₂, SameEffect db₁ db₂ → SameEffect db₁ (engine.view ks db₂) := by
  cases call with
  | register data =>
      obtain ⟨hfree, rfl⟩ := register_committed h
      refine ⟨[], ?_, register_tagged data env rid db, ?_, fun _ _ hsame => hsame⟩
      · rw [List.append_nil, ← registerWrites_tagged]
        exact (register_reaches (R := AnyRow) trivial (pinned hfree)).firstCommit rfl
      · intro _
        simp [Call.keyed, Call.KeyFits]
  | post req =>
      obtain ⟨user, o, hexec, rfl⟩ := post_committed h
      obtain ⟨o', hexec', hbody, hwrites⟩ := hexec.keyed hnew rid
      refine ⟨keyWrites (req.keyed key) user o'.body, ?_, ?_, ?_, ?_⟩
      · rw [committedWrites_unkeyed rfl, ← hwrites]
        exact hexec'.reaches.firstCommit rfl
      · simp only [Call.keyed, Call.run, executes_calm hexec, executes_calm hexec', hbody]
        rfl
      · exact fun hdb => keyWrites_fit_iff (hexec.user_fits hdb) (req.keyed key) o'.body
      · exact fun _ _ hsame => hsame.keyWrites (req.keyed key) user o'.body

end

/-- **When the headers of a call can break it.**  For every call that succeeds on PostgreSQL without
the two headers: with them, the key being new, it gives the same answer and has the same effect,
if and only if the correlation id, and the key with its path, fit their columns. -/
theorem metadata_iff (call : Call) (web : WebRequest) (around : Surroundings) (key : Option String)
    (env : Env) (db db' : Db) (answer : Answer) (hdb : db.Fits)
    (hplain : (call.keyed none).runPostgres
      (env.tagged (assignedId { web with requestId := none } around)) calm db = (.ok answer, db'))
    (hnew : ∀ k, key = some k → db.idempotencyKey k = none) :
    (∃ db'', (call.keyed key).runPostgres (env.tagged (assignedId web around)) calm db
        = (.ok answer, db'') ∧ SameEffect db' db'')
      ↔ IsVarchar 64 (assignedId web around) ∧ (call.keyed key).KeyFits := by
  -- the plain call has committed rows that fit
  obtain ⟨ws, hcommits⟩ := unkeyed_commits hplain
  have hfits : ∀ w ∈ ws, w.Fits := by
    by_contra hno
    rw [runPostgres_of_not_fits hcommits hno] at hplain
    exact absurd (congrArg Prod.fst hplain) (by simp)
  rw [runPostgres_of_fits hcommits hfits] at hplain
  obtain ⟨ks, hcommits', hanswer, hkeys, hsame⟩ := keyed_commits hnew (assignedId web around) hcommits
  have hrows : (∀ w ∈ ws.map (Write.retag (assignedId web around)) ++ ks, w.Fits)
      ↔ IsVarchar 64 (assignedId web around) ∧ (call.keyed key).KeyFits := by
    rw [List.forall_mem_append, retag_fits_iff (commits_entry hcommits) hfits, hkeys hdb]
  rw [← hrows]
  constructor
  · intro h
    obtain ⟨db'', hrun, _⟩ := h
    by_contra hno
    have hfails := runPostgres_of_not_fits hcommits' hno
    have hboth := hfails.symm.trans hrun
    exact absurd (congrArg Prod.fst hboth) (by simp)
  · intro hfits'
    refine ⟨engine.view (ws.map (Write.retag (assignedId web around)) ++ ks) db, ?_, ?_⟩
    · have hok := congrArg Prod.fst hplain
      refine (runPostgres_of_fits hcommits' hfits').trans (Prod.ext ?_ (run_of_commits hcommits'))
      exact hanswer.trans hok
    · have hstate : db' = engine.view ws db :=
        (congrArg Prod.snd hplain).symm.trans (run_of_commits hcommits)
      rw [hstate, Engine.view_append]
      exact hsame _ _ ((SameEffect.refl db).view ws _)

/-! ## §4. An order. -/

/-- A client orders chairs. -/
def order : Call := .post { caller := 1, key := none, path := "/requests", op := .createRequest chairs }

/-- What the middleware reads of it. -/
def orderedWith (requestId : Option String) : WebRequest where
  method := "POST"
  path := "/requests"
  requestId := requestId

def surroundings : Surroundings where
  uuid := "123e4567-e89b-42d3-a456-426614174000"
  ts := "2025-01-01T00:00:00+00:00"
  durationMs := 1

/-- Without headers it succeeds. -/
theorem order_succeeds : ∃ answer db', (order.keyed none).runPostgres
    ((hashingEnv shop).tagged (assignedId (orderedWith none) surroundings)) calm shop
      = (.ok answer, db') := by
  have hok : ((order.keyed none).runPostgres
    ((hashingEnv shop).tagged (assignedId (orderedWith none) surroundings)) calm shop).1.toOption.isSome
      = true := by decide +kernel
  generalize (order.keyed none).runPostgres _ calm shop = result at hok ⊢
  obtain ⟨o, db'⟩ := result
  cases o with
  | error e => exact absurd hok (by simp [Except.toOption])
  | ok answer => exact ⟨answer, db', rfl⟩

/-- With short headers it succeeds too. -/
theorem metadata_iff_order : ∃ answer db'', (order.keyed (some "order-1")).runPostgres
    ((hashingEnv shop).tagged (assignedId (orderedWith (some "req-1")) surroundings)) calm shop
      = (.ok answer, db'') := by
  obtain ⟨answer, db', hplain⟩ := order_succeeds
  have hnew : ∀ k, some "order-1" = some k → shop.idempotencyKey k = none := by
    intro k hk
    obtain rfl := Option.some.inj hk
    decide +kernel
  have hkey : (order.keyed (some "order-1")).KeyFits := by
    intro k hk
    obtain rfl : "order-1" = k := Option.some.inj hk
    decide
  obtain ⟨db'', hrun, _⟩ := (metadata_iff order (orderedWith (some "req-1")) surroundings
    (some "order-1") (hashingEnv shop) shop db' answer shop_reachable.fits hplain hnew).mpr
      ⟨by decide, hkey⟩
  exact ⟨answer, db'', hrun⟩

/-- With an `X-Request-ID` of 65 characters it does not. -/
theorem long_header_refused :
    ¬ ∀ (call : Call) (web : WebRequest) (around : Surroundings) (key : Option String) (env : Env)
        (db db' : Db) (answer : Answer), PostgresReachable db → Fresh env db →
        (call.keyed none).runPostgres
          (env.tagged (assignedId { web with requestId := none } around)) calm db = (.ok answer, db') →
        (∀ k, key = some k → db.idempotencyKey k = none) →
        ∃ answer' db'', (call.keyed key).runPostgres (env.tagged (assignedId web around)) calm db
            = (.ok answer', db'') ∧ SameEffect db' db'' := by
  intro hall
  obtain ⟨answer, db', hplain⟩ := order_succeeds
  obtain ⟨answer', db'', hrun, _⟩ := hall order
    (orderedWith (some (String.ofList (List.replicate 65 'x')))) surroundings none (hashingEnv shop)
    shop db' answer shop_reachable (hashingEnv_fresh shop) hplain (fun k hk => absurd hk (by simp))
  have hfails : ((order.keyed none).runPostgres ((hashingEnv shop).tagged (assignedId
      (orderedWith (some (String.ofList (List.replicate 65 'x')))) surroundings)) calm shop).1.toOption.isSome
        = false := by decide +kernel
  rw [hrun] at hfails
  exact absurd hfails (by simp [Except.toOption])

end Procurement
