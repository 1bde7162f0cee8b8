/-
  Procurement.Concurrency.Registrations
  ─────────────────────────────────────
  **THE WHOLE SERVER AT ONCE.**

  Registrations, logins, reads and posts are on their way together.  The posts are
  known to be serializable as long as nobody is registered beside them
  (`Serializability`).  Now users come while they run, and a post that asks for its
  caller too early is refused.

  Take the users that there will be in the end.  On a state that has them all from
  the start the posts that are not refused run as they do here (`Covers`), for behind
  `get_current_user` no statement of theirs asks for users.  So what is known of
  them holds here as well, and a registration commits beside them as it would alone,
  because it owns its email (`Registering`).

      server_serializable — the committed state is the one of a serial run of the
                            posts and registrations that have committed
-/
import Procurement.Concurrency.Reads
import Procurement.Framework.Shadow
import Procurement.Runs.Metadata
import Procurement.Security.Tokens

namespace Procurement

open Procurement.Framework
open Procurement.Framework.Program

/-! ## §1. Who is on the way. -/

/-- A request behind its limiter and its token. -/
inductive Access where
  | register (data : RegisterIn)
  | login (now : ℚ) (payload : LoginIn)
  | authorized (caller : Id) (route : Route)

def Access.program (S : Site) : Access → Prog Delivered
  | .register data => (handleRegister data).map .user
  | .login now payload => (handleLogin S now payload).map .token
  | .authorized caller .me => (handleMe caller).map .user
  | .authorized caller (.read op) => (handleRead ⟨caller, op⟩).map .body
  | .authorized caller (.post key path op) => (handle ⟨caller, key, path, op⟩).map .response

/-- Concurrent requests of all kinds. -/
abbrev Crowd := World Cmd Cmd.Resp Error Db Write Env Row Table Delivered

def Db.crowded (db : Db) (S : Site) (accesses : Nat → Access) (envs : Nat → Env) : Crowd :=
  World.start db (fun t => (db.ids t).foldr max 0) (fun i => (accesses i).program S) envs

abbrev CrowdMoves (w : Crowd) (e : Event) (w' : Crowd) : Prop := World.Move engine rowLocks w e w'

abbrev CrowdRun (w w' : Crowd) : Prop := World.Run engine rowLocks World.anyStep w w'

/-- The call that a request is, if it is no read. -/
def Access.call : Access → Option Call
  | .register data => some (.register data)
  | .login _ _ => none
  | .authorized caller (.post key path op) => some (.post ⟨caller, key, path, op⟩)
  | .authorized _ _ => none

/-- The posts; in the place of anything else, one that is never begun. -/
def requests (accesses : Nat → Access) (i : Nat) : HttpRequest :=
  match accesses i with
  | .authorized caller (.post key path op) => ⟨caller, key, path, op⟩
  | _ => ⟨0, none, "", .reject 0⟩

/-- A login selects its user, and writes nothing. -/
theorem handleLogin_selects (S : Site) (now : ℚ) (payload : LoginIn) :
    Selects (handleLogin S now payload) := by
  refine Program.Uses.bind ⟨rfl, fun user => ?_⟩ fun user => ?_
  · cases user with
    | none => trivial
    | some user =>
        show Selects (if _ then _ else _)
        split <;> trivial
  · cases user with
    | none => trivial
    | some user =>
        show Selects (ended (S.tokenFor now user))
        cases S.tokenFor now user <;> trivial

/-- The requests that are no calls are readers. -/
theorem Access.reader {S : Site} {a : Access} (h : a.call = none) :
    (a.program S).Uses (World.Reads engine rowLocks) := by
  cases a with
  | register data => exact absurd h (by simp [Access.call])
  | login now payload => exact Program.Uses.map (handleLogin_selects S now payload).reads _
  | authorized caller route =>
      cases route with
      | me => exact Program.Uses.map (handleMe_selects caller).reads _
      | read op => exact Program.Uses.map (handleRead_selects ⟨caller, op⟩).reads _
      | post key path op => exact absurd h (by simp [Access.call])

/-! ## §2. What the posts ask for. -/

/-- The statements behind `get_current_user`. -/
def Cmd.trades : Cmd → Bool
  | .getUser _ | .userByEmail _ | .insertUser _ _ _ _ | .hashPassword _ => false
  | _ => true

/-- The program asks for no users. -/
abbrev Trades {α : Type} (p : Prog α) : Prop := p.Uses fun c => c.trades = true

/-- An entry asks for no users. -/
theorem record_trades (action : AuditAction) (ety : EntityType) (eid aid : Option Id)
    (details : Details) : Trades (record action ety eid aid details) :=
  ⟨rfl, fun _ => ⟨rfl, fun _ => trivial⟩⟩

/-- An operation ends with its entry. -/
theorem record_bind_trades {α : Type} {action : AuditAction} {ety : EntityType}
    {eid aid : Option Id} {details : Details} {f : Unit → Prog α} (hf : Trades (f ())) :
    Trades (record action ety eid aid details >>= f) :=
  Program.Uses.bind (record_trades ..) fun _ => hf

/-- Looking for the last proposal asks for no users. -/
theorem lastProposal_trades (neg : Negotiation) : Trades (lastProposal neg) := by
  refine ⟨rfl, fun p => ?_⟩
  cases p <;> trivial

/-- The check of the turn asks for no users. -/
theorem load_trades (user : User) (n : Id) : Trades (loadActiveForResponse user n) := by
  refine ⟨rfl, fun neg => ?_⟩
  cases neg with
  | none => trivial
  | some neg =>
      refine ⟨rfl, fun req => ?_⟩
      cases req with
      | none => trivial
      | some req =>
          show Trades ((if _ then _ else _) >>= _)
          split
          · trivial
          · show Trades (if _ then _ else _)
            split
            · trivial
            · refine Program.Uses.bind (lastProposal_trades neg) fun last => ?_
              split <;> trivial

/-- The superseding loop asks for no users. -/
theorem supersedeEach_trades (w : Id) (siblings : List Negotiation) :
    Trades (supersedeEach w siblings) := by
  induction siblings with
  | nil => trivial
  | cons sib siblings ih =>
      exact ⟨rfl, fun _ => record_bind_trades (f := fun _ => supersedeEach w siblings) ih⟩

/-- An offer asks for no users. -/
theorem makeOffer_trades (user : User) (rid : Id) (data : OfferIn) :
    Trades (makeOffer user rid data) := by
  refine ⟨rfl, fun req => ?_⟩
  cases req with
  | none => trivial
  | some req =>
      show Trades (if _ then _ else _)
      split
      · trivial
      · refine ⟨rfl, fun existing => ?_⟩
        cases existing with
        | some m => trivial
        | none =>
            refine ⟨rfl, fun neg => ⟨rfl, fun _ => ?_⟩⟩
            exact record_bind_trades (f := fun _ => .ret neg) trivial

/-- An acceptance asks for no users. -/
theorem accept_trades (user : User) (n : Id) : Trades (accept user n) := by
  rw [accept_eq]
  refine Program.Uses.bind (load_trades user n) fun neg => ?_
  refine Program.Uses.bind (lastProposal_trades neg) fun last => ⟨rfl, fun _ => ⟨rfl, fun req => ?_⟩⟩
  cases req with
  | none => trivial
  | some req =>
      refine ⟨rfl, fun siblings => ⟨rfl, fun _ => ?_⟩⟩
      show Trades (supersedeEach neg.id siblings >>= _)
      refine Program.Uses.bind (supersedeEach_trades _ siblings) fun _ => ?_
      exact record_bind_trades (f := fun _ => .ret _) trivial

/-- Dumping a negotiation asks for no users. -/
theorem negotiationOut_trades (neg : Negotiation) : Trades (negotiationOut neg) :=
  ⟨rfl, fun _ => ⟨rfl, fun _ => trivial⟩⟩

/-- **Behind its caller an operation asks for no users.** -/
theorem produce_trades (user : User) (op : Op) : Trades (op.produce user) := by
  cases op with
  | createRequest data =>
      refine Program.Uses.bind ⟨rfl, fun req => ?_⟩ fun _ => ⟨rfl, fun _ => trivial⟩
      exact record_bind_trades (f := fun _ => .ret req) trivial
  | makeOffer rid data =>
      exact Program.Uses.bind (makeOffer_trades user rid data) negotiationOut_trades
  | accept n => exact Program.Uses.bind (accept_trades user n) negotiationOut_trades
  | reject n =>
      refine Program.Uses.bind (Program.Uses.bind (load_trades user n) fun neg => ?_)
        negotiationOut_trades
      exact ⟨rfl, fun _ => record_bind_trades (f := fun _ => .ret _) trivial⟩
  | counter n data =>
      refine Program.Uses.bind (Program.Uses.bind (load_trades user n) fun neg => ?_)
        negotiationOut_trades
      refine Program.Uses.bind (lastProposal_trades neg) fun last => ?_
      exact ⟨rfl, fun _ => record_bind_trades (f := fun _ => .ret neg) trivial⟩

/-- The endpoint behind the SELECT of its caller. -/
def handled (req : HttpRequest) : Option User → Prog Response
  | none => .raise (.http 401 "Could not validate credentials")
  | some user => requireRole req.op.role user >>= fun user =>
      idempotent ⟨user, req.key⟩ req.path (req.op.produce user) req.op.statusCode

/-- A post is the SELECT of its caller, and the endpoint behind it. -/
theorem handle_eq (req : HttpRequest) : handle req = .call (.getUser req.caller) (handled req) := by
  unfold handle getCurrentUser
  simp only [send_bind, call_bind]
  congr 1
  funext row
  cases row <;> rfl

/-- **Behind its first statement a post asks for no users.** -/
theorem handled_sends (req : HttpRequest) (user : User) :
    (handled req (some user)).Sends fun c => c.trades = true := by
  have hfinish : ∀ body, (finish req user body).Sends fun c => c.trades = true := by
    intro body
    cases hk : req.usedKey with
    | none =>
        rw [finish_of_none hk]
        trivial
    | some k =>
        rw [finish_of_some hk]
        exact ⟨rfl, fun _ => trivial⟩
  have hrun : (req.op.produce user >>= finish req user).Sends fun c => c.trades = true :=
    Program.Sends.bind (produce_trades user req.op).sends hfinish
  show (requireRole req.op.role user >>= _).Sends _
  by_cases hp : req.Permits user
  · rw [requireRole_of_permits hp, ret_bind, idempotent_eq]
    cases req.usedKey with
    | none => exact hrun
    | some k =>
        refine ⟨rfl, fun record => ?_⟩
        cases record with
        | none => exact hrun
        | some record =>
            show (if _ then _ else _ : Prog Response).Sends _
            split <;> trivial
  · obtain ⟨e, he⟩ := requireRole_of_not_permits hp
    rw [he]
    trivial

/-! ## §3. A state with the users to come. -/

/-- The second state has the users `U`, the first of which are those of the first
state, and the same requests, negotiations, proposals and keys. -/
structure Beyond (U : List User) (db db' : Db) : Prop where
  users : db.users <+: U
  others : db'.business = ({ db with users := U } : Db).business

/-- The two states differ in users and entries only. -/
theorem Beyond.eq {U : List User} {db db' : Db} (h : Beyond U db db') :
    db' = { db with users := U, auditLog := db'.auditLog } :=
  eq_of_business h.others.symm

def Write.addsUser : Write → Bool
  | .insertUser _ => true
  | _ => false

/-- Where no users are asked for, none are added. -/
theorem Cmd.trades_writes {c : Cmd} (hc : c.trades = true) {env : Env} {wr : Write}
    (h : wr ∈ c.writes env) : wr.addsUser = false := by
  cases c with
  | insertUser => exact absurd hc (by simp [Cmd.trades])
  | insertRequest | insertNegotiation | insertProposal | insertAudit | insertKey | decide
  | closeRequest =>
      obtain rfl := List.mem_singleton.mp h
      rfl
  | _ => exact absurd h List.not_mem_nil

section
variable {U : List User} {db db' : Db}

/-- A write that adds no user keeps the users to come. -/
theorem Beyond.apply (h : Beyond U db db') {wr : Write} (hw : wr.addsUser = false) :
    Beyond U (wr.apply db) (wr.apply db') := by
  have heq := h.eq
  generalize db'.auditLog = log at heq
  subst heq
  cases wr with
  | insertUser row => exact absurd hw (by simp [Write.addsUser])
  | _ => exact ⟨h.users, rfl⟩

/-- So do all writes of a post. -/
theorem Beyond.view {ws : List Write} (h : Beyond U db db')
    (hw : ∀ wr ∈ ws, wr.addsUser = false) :
    Beyond U (engine.view ws db) (engine.view ws db') := by
  induction ws generalizing db db' with
  | nil => exact h
  | cons wr ws ih =>
      exact ih (h.apply (hw wr (List.mem_cons_self ..))) fun w hm => hw w (List.mem_cons_of_mem _ hm)

/-- **A statement that asks for no users is answered alike**, whoever is registered later. -/
theorem Beyond.answer (h : Beyond U db db') {c : Cmd} (hc : c.trades = true) (env : Env) :
    c.answer env db = c.answer env db' := by
  have heq := h.eq
  generalize db'.auditLog = log at heq
  subst heq
  cases c with
  | getUser | userByEmail | insertUser | hashPassword => exact absurd hc (by simp [Cmd.trades])
  | _ => rfl

/-- Both states have the same rows to lock. -/
theorem Beyond.locks (h : Beyond U db db') (c : Cmd) : c.locks db = c.locks db' := by
  have heq := h.eq
  generalize db'.auditLog = log at heq
  subst heq
  cases c <;> rfl

/-- No number of a user is drawn for it. -/
theorem Cmd.trades_draw {c : Cmd} (hc : c.trades = true) {env : Env} {t : Table} {n : Int}
    (h : rowLocks.draw c env = some (t, n)) : t ≠ .users := by
  rintro rfl
  change c.table.map (fun t => (t, (env.stamp t).id)) = _ at h
  cases c with
  | insertUser => exact absurd hc (by simp [Cmd.trades])
  | _ => simp [Cmd.table] at h

/-- Where no users are asked for, the two states are one. -/
theorem Beyond.finds {α : Type} (h : Beyond U db db') {p : At α}
    (hp : p.prog.Sends fun c => c.trades = true) (hw : ∀ wr ∈ p.staged, wr.addsUser = false) :
    World.Finds engine rowLocks (Beyond U) (fun t => t ≠ .users) db db' p where
  answer := by
    intro c k hc
    rw [hc] at hp
    exact (h.view hw).answer hp.1 p.env
  locks := fun c _ _ => (h.view hw).locks c
  draw := by
    intro c k hc t n hdraw
    rw [hc] at hp
    exact Cmd.trades_draw hp.1 hdraw
  commit := fun _ _ => h.view hw

/-- The users of the first state are found in the second. -/
theorem Beyond.user (h : Beyond U db db') {i : Id} {user : User} (hu : db.user i = some user) :
    db'.user i = some user := by
  rw [h.eq]
  obtain ⟨rest, hrest⟩ := h.users
  show lookup User.id U i = some user
  rw [← hrest]
  exact lookup_append_of_some rest hu

end

/-! ## §4. Where a registration can stand. -/

/-- Behind its commit a registration reads its row back. -/
def enrolled (user : User) : Prog UserOut := refresh user >>= userOut

def logging (user : User) (correlationId : String) : Prog UserOut :=
  .call (.insertAudit correlationId (some user.id) .userRegistered .user (some user.id)
    (.role user.role)) fun _ => .commit (enrolled user)

def inserting (data : RegisterIn) (hashed : String) : Prog UserOut :=
  .call (.insertUser data.email hashed data.role data.fullName) fun user =>
    .call .requestIdCtx (logging user)

def looked (data : RegisterIn) : Option User → Prog UserOut
  | some _ => .raise (.conflict "Email already registered")
  | none => .call (.hashPassword data.password) (inserting data)

/-- A registration is the SELECT of its email, and what is behind it. -/
theorem handleRegister_eq (data : RegisterIn) :
    handleRegister data = .call (.userByEmail data.email) (looked data) := by
  unfold handleRegister registerUser
  simp only [send_bind, call_bind]
  congr 1
  funext row
  cases row <;> rfl

/-- The registration owns its email, which nobody has. -/
structure Holds (own : Row → Prop) (db : Db) (email : String) : Prop where
  owned : own (.email email)
  free : db.userByEmail email = none

inductive Registering (own : Row → Prop) (db : Db) (data : RegisterIn) (env : Env) :
    Tx Cmd Cmd.Resp Error Write Env UserOut → Prop where
  | looking : Registering own db data env (.running ⟨handleRegister data, env, []⟩)
  | taken : Registering own db data env
      (.running ⟨.raise (.conflict "Email already registered"), env, []⟩)
  | hashing : Registering own db data env
      (.running ⟨.call (.hashPassword data.password) (inserting data), env, []⟩)
  | inserting : Registering own db data env
      (.running ⟨inserting data (env.hashpw data.password), env, []⟩)
  | tagging (h : Holds own db data.email) : Registering own db data env
      (.running ⟨.call .requestIdCtx (logging (env.registered data)), env.pop .users,
        [.insertUser (env.registered data)]⟩)
  | logging (h : Holds own db data.email) : Registering own db data env
      (.running ⟨logging (env.registered data) env.requestId, env.pop .users,
        [.insertUser (env.registered data)]⟩)
  | committing (h : Holds own db data.email) : Registering own db data env
      (.running ⟨.commit (enrolled (env.registered data)), (env.pop .users).pop .auditLog,
        registerWrites env data⟩)
  | reading {env' : Env} (h : db.user (env.registered data).id = some (env.registered data)) :
      Registering own db data env (.running ⟨enrolled (env.registered data), env', []⟩)
  | answering {env' : Env} :
      Registering own db data env (.running ⟨.ret (env.registered data).out, env', []⟩)
  | ended (o : Except Error UserOut) : Registering own db data env (.done o)

section
variable {own own' : Row → Prop} {db db' : Db} {data : RegisterIn} {env : Env}
  {t : Tx Cmd Cmd.Resp Error Write Env UserOut}

/-- The others may add users with other emails. -/
theorem Registering.rely (h : Registering own db data env t) (husers : db.users <+: db'.users)
    (hown : ∀ row, own row → own' row)
    (hfree : own (.email data.email) → db.userByEmail data.email = none →
      db'.userByEmail data.email = none) : Registering own' db' data env t := by
  have hholds : Holds own db data.email → Holds own' db' data.email :=
    fun hh => ⟨hown _ hh.owned, hfree hh.owned hh.free⟩
  cases h with
  | looking => exact .looking
  | taken => exact .taken
  | hashing => exact .hashing
  | inserting => exact .inserting
  | tagging hh => exact .tagging (hholds hh)
  | logging hh => exact .logging (hholds hh)
  | committing hh => exact .committing (hholds hh)
  | reading hrow =>
      obtain ⟨rest, hrest⟩ := husers
      refine .reading ?_
      unfold Db.user at hrow ⊢
      rw [← hrest]
      exact lookup_append_of_some rest hrow
  | answering => exact .answering
  | ended o => exact .ended o

end

/-- The rows of a transaction of the crowd. -/
def Holder (w : Crowd) (i : Nat) (row : Row) : Prop := w.owner row = some i

/-- What an event of a registration does to what is committed. -/
inductive Registered (w w' : Crowd) (i : Nat) (data : RegisterIn) (env : Env) : Prop where
  | still (hcommitted : w'.committed = w.committed) (hlog : w'.log = w.log)
  | added (howns : Holder w i (.email data.email))
      (hfree : w.committed.userByEmail data.email = none)
      (hnew : (env.registered data).id ∉ w.committed.ids .users)
      (ht : w.txs i = .running ⟨.commit ((enrolled (env.registered data)).map .user),
        (env.pop .users).pop .auditLog, registerWrites env data⟩)
      (hcommitted : w'.committed = engine.view (registerWrites env data) w.committed)
      (hlog : w'.log = w.log ++ [(i, registerWrites env data)])
      (htx : w'.txs i = .running ⟨(enrolled (env.registered data)).map .user,
        (env.pop .users).pop .auditLog, []⟩)

/-- A registration with a new id finds its own row. -/
theorem enrolled_view {data : RegisterIn} {env : Env} {db : Db}
    (hnew : (env.registered data).id ∉ db.ids .users) :
    (engine.view (registerWrites env data) db).user (env.registered data).id
      = some (env.registered data) := by
  have hnone : lookup User.id db.users (env.registered data).id = none :=
    lookup_eq_none.mpr fun row hrow he => hnew (List.mem_map.mpr ⟨row, hrow, he⟩)
  show lookup User.id (db.users ++ [env.registered data]) _ = _
  rw [lookup_append_of_none _ hnone, lookup_singleton, if_pos rfl]

/-- **Every event of a registration.** -/
theorem Registering.move {w w' : Crowd} {e : Event} {data : RegisterIn} {env : Env}
    {t : Tx Cmd Cmd.Resp Error Write Env UserOut} (hm : CrowdMoves w e w')
    (ht : w.txs e.tx = t.map .user) (h : Registering (Holder w e.tx) w.committed data env t)
    (hunused : .insertUser (env.registered data) ∈ t.staged →
      (env.registered data).id ∉ w.committed.ids .users) :
    (∃ t', w'.txs e.tx = t'.map .user ∧ Registering (Holder w' e.tx) w'.committed data env t')
      ∧ Registered w w' e.tx data env := by
  cases h with
  | looking =>
      rw [handleRegister_eq] at ht
      obtain ⟨hc, hl, ⟨err, hdone, _⟩ | ⟨row, hrow, _, _, htx⟩⟩ := hm.of_call ht
      · exact ⟨⟨.done (.error err), hdone, .ended _⟩, .still hc hl⟩
      · refine ⟨⟨.running ⟨looked data row, env, []⟩, htx, ?_⟩, .still hc hl⟩
        cases row with
        | some user => exact .taken
        | none => exact .hashing
  | taken =>
      obtain ⟨hc, hl, hdone⟩ := hm.of_end (o := .error (.conflict "Email already registered")) ht rfl
      rcases hdone with hdone | hdone
      · exact ⟨⟨.done (.error _), hdone, .ended _⟩, .still hc hl⟩
      · exact ⟨⟨.done (.error _), hdone, .ended _⟩, .still hc hl⟩
  | hashing =>
      obtain ⟨hc, hl, ⟨err, hdone, _⟩ | ⟨hashed, hhash, _, _, htx⟩⟩ := hm.of_call ht
      · exact ⟨⟨.done (.error err), hdone, .ended _⟩, .still hc hl⟩
      · obtain rfl : env.hashpw data.password = hashed := Except.ok.inj hhash
        exact ⟨⟨.running ⟨_, env, []⟩, htx, .inserting⟩, .still hc hl⟩
  | inserting =>
      obtain ⟨hc, hl, ⟨err, hdone, _⟩ | ⟨user, huser, hlock, _, htx⟩⟩ := hm.of_call ht
      · exact ⟨⟨.done (.error err), hdone, .ended _⟩, .still hc hl⟩
      · -- the INSERT has found the email free, and has locked it
        have hfree : w.committed.userByEmail data.email = none := by
          cases hu : w.committed.userByEmail data.email with
          | none => rfl
          | some other =>
              simp only [engine, Cmd.answer, Engine.view_nil, hu] at huser
              exact absurd huser (by simp)
        obtain rfl : env.registered data = user :=
          Except.ok.inj ((answer_insertUser hfree).symm.trans huser)
        refine ⟨⟨.running ⟨_, env.pop .users, [.insertUser (env.registered data)]⟩, htx, ?_⟩,
          .still hc hl⟩
        exact .tagging ⟨hlock _ rfl, hc ▸ hfree⟩
  | tagging hh =>
      obtain ⟨hc, hl, ⟨err, hdone, _⟩ | ⟨correlationId, hid, _, hkeep, htx⟩⟩ := hm.of_call ht
      · exact ⟨⟨.done (.error err), hdone, .ended _⟩, .still hc hl⟩
      · obtain rfl : env.requestId = correlationId := Except.ok.inj hid
        refine ⟨⟨.running ⟨_, env.pop .users, [.insertUser (env.registered data)]⟩, htx, ?_⟩,
          .still hc hl⟩
        exact .logging ⟨hkeep _ hh.owned, hc ▸ hh.free⟩
  | logging hh =>
      obtain ⟨hc, hl, ⟨err, hdone, _⟩ | ⟨_, _, _, hkeep, htx⟩⟩ := hm.of_call ht
      · exact ⟨⟨.done (.error err), hdone, .ended _⟩, .still hc hl⟩
      · refine ⟨⟨.running ⟨_, (env.pop .users).pop .auditLog, registerWrites env data⟩, htx, ?_⟩,
          .still hc hl⟩
        exact .committing ⟨hkeep _ hh.owned, hc ▸ hh.free⟩
  | committing hh =>
      rcases hm.of_commit ht with ⟨hc, hl, hdone⟩ | ⟨hc, hl, htx⟩
      · exact ⟨⟨.done (.error _), hdone, .ended _⟩, .still hc hl⟩
      · -- here the row comes into the tables, with an id that nobody has
        have hnew : (env.registered data).id ∉ w.committed.ids .users :=
          hunused (List.mem_cons_self ..)
        refine ⟨⟨.running ⟨enrolled _, _, []⟩, htx, .reading ?_⟩,
          .added hh.owned hh.free hnew ht hc hl htx⟩
        rw [hc]
        exact enrolled_view hnew
  | reading hrow =>
      obtain ⟨hc, hl, ⟨err, hdone, _⟩ | ⟨row, hanswer, _, _, htx⟩⟩ := hm.of_call ht
      · exact ⟨⟨.done (.error err), hdone, .ended _⟩, .still hc hl⟩
      · -- the refresh reads back the row that it has just committed
        obtain rfl : some (env.registered data) = row :=
          hrow.symm.trans (Except.ok.inj hanswer)
        exact ⟨⟨.running ⟨.ret (env.registered data).out, _, []⟩, htx, .answering⟩, .still hc hl⟩
  | answering =>
      obtain ⟨hc, hl, hdone⟩ := hm.of_end (o := .ok (.user (env.registered data).out)) ht rfl
      rcases hdone with hdone | hdone
      · exact ⟨⟨.done (.ok (env.registered data).out), hdone, .ended _⟩, .still hc hl⟩
      · exact ⟨⟨.done (.error _), hdone, .ended _⟩, .still hc hl⟩
  | ended o =>
      obtain ⟨p, hp⟩ := hm.running
      exact absurd (ht.symm.trans hp) (by simp [Tx.map])

/-! ## §5. What holds beside the posts. -/

/-- Where a post can stand: at its start, at its refusal, or behind the SELECT of its
caller. -/
inductive Posting (own : Row → Prop) (req : HttpRequest) (env : Env) :
    Tx Cmd Cmd.Resp Error Write Env Delivered → Prop where
  | start (hfree : ∀ row, ¬ own row) :
      Posting own req env (.running ⟨(handle req).map .response, env, []⟩)
  | refused {env' : Env} {err : Error} : Posting own req env (.running ⟨.raise err, env', []⟩)
  | onward {p : At Delivered} (hsends : p.prog.Sends fun c => c.trades = true)
      (hwrites : ∀ wr ∈ p.staged, wr.addsUser = false) : Posting own req env (.running p)
  | ended (o : Except Error Delivered) : Posting own req env (.done o)

/-- A post that owns less stands where it stood. -/
theorem Posting.mono {own own' : Row → Prop} {req : HttpRequest} {env : Env}
    {t : Tx Cmd Cmd.Resp Error Write Env Delivered} (h : Posting own req env t)
    (hown : ∀ row, own' row → own row) : Posting own' req env t := by
  cases h with
  | start hfree => exact .start fun row hrow => hfree row (hown row hrow)
  | refused => exact .refused
  | onward hsends hwrites => exact .onward hsends hwrites
  | ended o => exact .ended o

/-- A post asks for its caller, and then for no users. -/
theorem Posting.move {own : Row → Prop} {w w' : Crowd} {e : Event} {req : HttpRequest} {env : Env}
    (hm : CrowdMoves w e w') (h : Posting own req env (w.txs e.tx)) (own' : Row → Prop) :
    Posting own' req env (w'.txs e.tx)
      ∧ (w'.committed = w.committed ∧ w'.log = w.log
        ∨ ∃ k env' ws, w.txs e.tx = .running ⟨.commit k, env', ws⟩
          ∧ (∀ wr ∈ ws, wr.addsUser = false)
          ∧ w'.committed = engine.view ws w.committed ∧ w'.log = w.log ++ [(e.tx, ws)]
          ∧ w'.txs e.tx = .running ⟨k, env', []⟩) := by
  generalize ht : w.txs e.tx = t at h
  cases h with
  | start =>
      rw [handle_eq] at ht
      obtain ⟨hc, hl, ⟨err, hdone, _⟩ | ⟨row, _, _, _, htx⟩⟩ := hm.of_call ht
      · exact ⟨hdone ▸ .ended _, Or.inl ⟨hc, hl⟩⟩
      · refine ⟨?_, Or.inl ⟨hc, hl⟩⟩
        rw [htx]
        cases row with
        | none => exact .refused
        | some user =>
            exact .onward (Program.Sends.map (handled_sends req user) _)
              fun wr hwr => absurd hwr List.not_mem_nil
  | @refused env' err =>
      obtain ⟨hc, hl, hdone⟩ := hm.of_end (o := .error err) ht rfl
      refine ⟨?_, Or.inl ⟨hc, hl⟩⟩
      rcases hdone with hdone | hdone <;> exact hdone ▸ .ended _
  | @onward p hsends hwrites =>
      obtain ⟨p, env', ws⟩ := p
      -- behind the SELECT of its caller no statement of a post is about users
      cases p with
      | ret a =>
          obtain ⟨hc, hl, hdone⟩ := hm.of_end (o := .ok a) ht rfl
          refine ⟨?_, Or.inl ⟨hc, hl⟩⟩
          rcases hdone with hdone | hdone <;> exact hdone ▸ .ended _
      | raise err =>
          obtain ⟨hc, hl, hdone⟩ := hm.of_end (o := .error err) ht rfl
          refine ⟨?_, Or.inl ⟨hc, hl⟩⟩
          rcases hdone with hdone | hdone <;> exact hdone ▸ .ended _
      | commit k =>
          rcases hm.of_commit ht with ⟨hc, hl, hdone⟩ | ⟨hc, hl, htx⟩
          · exact ⟨hdone ▸ .ended _, Or.inl ⟨hc, hl⟩⟩
          · refine ⟨?_, Or.inr ⟨k, env', ws, rfl, hwrites, hc, hl, htx⟩⟩
            rw [htx]
            exact .onward hsends fun wr hwr => absurd hwr List.not_mem_nil
      | call c k =>
          obtain ⟨hc, hl, ⟨err, hdone, _⟩ | ⟨r, _, _, _, htx⟩⟩ := hm.of_call ht
          · exact ⟨hdone ▸ .ended _, Or.inl ⟨hc, hl⟩⟩
          · refine ⟨?_, Or.inl ⟨hc, hl⟩⟩
            rw [htx]
            refine .onward (hsends.2 r) fun wr hwr => ?_
            rcases List.mem_append.mp hwr with hwr | hwr
            · exact hwrites wr hwr
            · exact Cmd.trades_writes hsends.1 hwr
  | ended o =>
      obtain ⟨p, hp⟩ := hm.running
      exact absurd (ht.symm.trans hp) (by simp)

/-- Everybody stands where he can stand, and nobody has the email of another. -/
structure Base (accesses : Nat → Access) (envs : Nat → Env) (w : Crowd) : Prop where
  orderly : w.Orderly Write.guard Write.stamp Db.ids
  emails : (w.committed.users.map User.email).Nodup
  userIds : (w.committed.users.map User.id).Nodup
  registers : ∀ i data, (accesses i).call = some (.register data) →
    ∃ t, w.txs i = t.map .user ∧ Registering (Holder w i) w.committed data (envs i) t
  posts : ∀ i req, (accesses i).call = some (.post req) →
    Posting (Holder w i) req (envs i) (w.txs i)
  readers : ∀ i, (accesses i).call = none →
    World.Reading engine rowLocks (w.txs i) ∧ ∀ row, w.owner row ≠ some i

/-- What an event of transaction `i` does to what is committed. -/
inductive Does (accesses : Nat → Access) (envs : Nat → Env) (w w' : Crowd) (i : Nat) : Prop where
  | still (hcommitted : w'.committed = w.committed) (hlog : w'.log = w.log)
  | posted {req : HttpRequest} {k : Prog Delivered} {env : Env} {ws : List Write}
      (hcall : (accesses i).call = some (.post req)) (ht : w.txs i = .running ⟨.commit k, env, ws⟩)
      (hwrites : ∀ wr ∈ ws, wr.addsUser = false)
      (hcommitted : w'.committed = engine.view ws w.committed) (hlog : w'.log = w.log ++ [(i, ws)])
      (htx : w'.txs i = .running ⟨k, env, []⟩)
  | registered {data : RegisterIn} (hcall : (accesses i).call = some (.register data))
      (howns : Holder w i (.email data.email)) (hfree : w.committed.userByEmail data.email = none)
      (hnew : ((envs i).registered data).id ∉ w.committed.ids .users)
      (ht : w.txs i = .running ⟨.commit ((enrolled ((envs i).registered data)).map .user),
        ((envs i).pop .users).pop .auditLog, registerWrites (envs i) data⟩)
      (hcommitted : w'.committed = engine.view (registerWrites (envs i) data) w.committed)
      (hlog : w'.log = w.log ++ [(i, registerWrites (envs i) data)])
      (htx : w'.txs i = .running ⟨(enrolled ((envs i).registered data)).map .user,
        ((envs i).pop .users).pop .auditLog, []⟩)

/-- Writes that add no user leave the users alone. -/
theorem users_view {ws : List Write} (hw : ∀ wr ∈ ws, wr.addsUser = false) (db : Db) :
    (engine.view ws db).users = db.users := by
  induction ws generalizing db with
  | nil => rfl
  | cons wr ws ih =>
      rw [Engine.view_cons, ih fun w hm => hw w (List.mem_cons_of_mem _ hm)]
      have hwr := hw wr (List.mem_cons_self ..)
      cases wr with
      | insertUser row => exact absurd hwr (by simp [Write.addsUser])
      | _ => rfl

section
variable {accesses : Nat → Access} {envs : Nat → Env} {w w' : Crowd} {e : Event} {i : Nat}

/-- The users only grow. -/
theorem Does.users (h : Does accesses envs w w' i) : w.committed.users <+: w'.committed.users := by
  cases h with
  | still hc _ => exact hc ▸ List.prefix_refl _
  | posted _ _ hws hc _ _ =>
      have husers : w'.committed.users = w.committed.users := by rw [hc, users_view hws]
      exact husers ▸ List.prefix_refl _
  | registered _ _ _ _ _ hc _ _ =>
      rw [hc]
      exact List.prefix_append _ _

/-- An email that is owned by another stays free. -/
theorem Does.free (h : Does accesses envs w w' i) {j : Nat} (hj : j ≠ i) {email : String}
    (howns : Holder w j (.email email)) (hfree : w.committed.userByEmail email = none) :
    w'.committed.userByEmail email = none := by
  cases h with
  | still hc _ => exact hc ▸ hfree
  | posted _ _ hws hc _ _ =>
      unfold Db.userByEmail at hfree ⊢
      rw [hc, users_view hws]
      exact hfree
  | @registered data _ howns' _ _ _ hc _ _ =>
      rw [hc]
      show lookup User.email (w.committed.users ++ [(envs i).registered data]) email = none
      have hne : data.email ≠ email := by
        rintro rfl
        exact hj (Option.some.inj (howns.symm.trans howns'))
      rw [lookup_append_of_none _ hfree, lookup_singleton]
      exact if_neg hne

/-- What an event does, and where its own transaction stands behind it. -/
theorem Base.does (h : Base accesses envs w) (hm : CrowdMoves w e w') :
    Does accesses envs w w' e.tx
      ∧ (∀ data, (accesses e.tx).call = some (.register data) → ∃ t, w'.txs e.tx = t.map .user
          ∧ Registering (Holder w' e.tx) w'.committed data (envs e.tx) t)
      ∧ (∀ req, (accesses e.tx).call = some (.post req) →
          Posting (Holder w' e.tx) req (envs e.tx) (w'.txs e.tx))
      ∧ ((accesses e.tx).call = none →
          World.Reading engine rowLocks (w'.txs e.tx) ∧ ∀ row, w'.owner row ≠ some e.tx) := by
  cases hcall : (accesses e.tx).call with
  | none =>
      obtain ⟨hreading, hfree⟩ := h.readers _ hcall
      obtain ⟨t, ht, rfl⟩ := hm.reading engine rowLocks hreading hfree
      refine ⟨.still rfl rfl, by simp, by simp, fun _ => ⟨?_, hfree⟩⟩
      show World.Reading engine rowLocks (Function.update w.txs e.tx t e.tx)
      rwa [Function.update_self]
  | some call =>
      cases call with
      | register data =>
          obtain ⟨t, ht, hregistering⟩ := h.registers _ data hcall
          -- a staged row has a drawn id, which no table has
          have hunused : .insertUser ((envs e.tx).registered data) ∈ t.staged →
              ((envs e.tx).registered data).id ∉ w.committed.ids .users := by
            intro hmem
            have hstaged : Write.insertUser ((envs e.tx).registered data) ∈ (w.txs e.tx).staged := by
              rw [ht, Tx.staged_map]
              exact hmem
            exact h.orderly.unused hstaged rfl
          obtain ⟨hnext, hdoes⟩ := hregistering.move hm ht hunused
          refine ⟨?_, fun data' hdata => ?_, by simp, by simp⟩
          · cases hdoes with
            | still hc hl => exact .still hc hl
            | added howns hfree hnew ht hc hl htx =>
                exact .registered hcall howns hfree hnew ht hc hl htx
          · obtain rfl : data = data' := by simpa using hdata
            exact hnext
      | post req =>
          obtain ⟨hposting, hdoes⟩ := (h.posts _ req hcall).move hm (Holder w' e.tx)
          refine ⟨?_, by simp, fun req' hreq => ?_, by simp⟩
          · rcases hdoes with ⟨hc, hl⟩ | ⟨k, env', ws, ht, hws, hc, hl, htx⟩
            · exact .still hc hl
            · exact .posted hcall ht hws hc hl htx
          · obtain rfl : req = req' := by simpa using hreq
            exact hposting

/-- **Every event keeps it.** -/
theorem Base.move (h : Base accesses envs w) (hm : CrowdMoves w e w') : Base accesses envs w' := by
  -- the six fields in their order: emails and ids by what the event adds, the rest by
  -- whose event it is
  obtain ⟨hdoes, hregister, hpost, hread⟩ := h.does hm
  refine ⟨h.orderly.move discipline hm, ?_, ?_, ?_, ?_, ?_⟩
  · cases hdoes with
    | still hc _ => exact hc ▸ h.emails
    | posted _ _ hws hc _ _ =>
        rw [hc, users_view hws]
        exact h.emails
    | @registered data _ _ hfree _ _ hc _ _ =>
        rw [hc]
        show ((w.committed.users ++ [(envs e.tx).registered data]).map User.email).Nodup
        rw [List.map_append]
        -- the lock on the email has kept it free since the INSERT
        refine nodup_concat h.emails fun hin => ?_
        obtain ⟨user, huser, hemail⟩ := List.mem_map.mp hin
        exact lookup_eq_none.mp hfree user huser hemail
  · cases hdoes with
    | still hc _ => exact hc ▸ h.userIds
    | posted _ _ hws hc _ _ =>
        rw [hc, users_view hws]
        exact h.userIds
    | @registered data _ _ _ hnew _ hc _ _ =>
        rw [hc]
        show ((w.committed.users ++ [(envs e.tx).registered data]).map User.id).Nodup
        rw [List.map_append]
        exact nodup_concat h.userIds hnew
  · intro i data hcall
    by_cases hi : i = e.tx
    · subst hi
      exact hregister data hcall
    · obtain ⟨t, ht, hregistering⟩ := h.registers i data hcall
      -- another registration relies on the users it has read, and on its own email
      exact ⟨t, (hm.others hi).trans ht, hregistering.rely hdoes.users
        (fun row hrow => hm.owner_keeps hrow hi) fun howns hfree => hdoes.free hi howns hfree⟩
  · intro i req hcall
    by_cases hi : i = e.tx
    · subst hi
      exact hpost req hcall
    · rw [hm.others hi]
      exact (h.posts i req hcall).mono fun row hrow => hm.owner_gets hrow hi
  · intro i hcall
    by_cases hi : i = e.tx
    · subst hi
      exact hread hcall
    · obtain ⟨hreading, hfree⟩ := h.readers i hcall
      rw [hm.others hi]
      exact ⟨hreading, fun row hrow => hfree row (hm.owner_gets hrow hi)⟩

/-- The program of a registration. -/
theorem Access.program_register {S : Site} {a : Access} {data : RegisterIn}
    (h : a.call = some (.register data)) : a.program S = (handleRegister data).map .user := by
  cases a with
  | register data' =>
      obtain rfl : data' = data := by simpa [Access.call] using h
      rfl
  | login now payload => exact absurd h (by simp [Access.call])
  | authorized caller route => cases route <;> exact absurd h (by simp [Access.call])

/-- The program of a post. -/
theorem Access.program_post {S : Site} {a : Access} {req : HttpRequest}
    (h : a.call = some (.post req)) : a.program S = (handle req).map .response := by
  cases a with
  | register data => exact absurd h (by simp [Access.call])
  | login now payload => exact absurd h (by simp [Access.call])
  | authorized caller route =>
      cases route with
      | post key path op =>
          obtain rfl : (⟨caller, key, path, op⟩ : HttpRequest) = req := by
            simpa [Access.call] using h
          rfl
      | _ => exact absurd h (by simp [Access.call])

/-- The world of the accesses starts well. -/
theorem Base.crowded {db : Db} (h : Reachable db) (S : Site) (accesses : Nat → Access)
    (envs : Nat → Env) : Base accesses envs (db.crowded S accesses envs) where
  orderly := World.Orderly.start (fun _ _ hn => le_foldr_max hn) _ _
  emails := h.emails
  userIds := h.consistent.userIds
  registers := by
    intro i data hcall
    refine ⟨.running ⟨handleRegister data, envs i, []⟩, ?_, .looking⟩
    show Tx.running ⟨(accesses i).program S, envs i, []⟩ = _
    rw [Access.program_register hcall]
    rfl
  posts := by
    intro i req hcall
    show Posting _ req (envs i) (.running ⟨(accesses i).program S, envs i, []⟩)
    rw [Access.program_post hcall]
    exact .start fun row => by simp [Holder, Db.crowded, World.start]
  readers := fun i hcall =>
    ⟨⟨Access.reader hcall, rfl⟩, fun row => by simp [Db.crowded, World.start]⟩

/-! ## §6. The posts on the state with the users to come. -/

/-- More users do no harm. -/
theorem Consistent.withUsers {db : Db} (h : Consistent db) {U : List User} (hU : db.users <+: U)
    (hids : (U.map User.id).Nodup) : Consistent { db with users := U } where
  outline := by
    have hgrow : ∀ i r, db.outline.HasRole i r →
        (Db.outline { db with users := U }).HasRole i r := by
      intro i r hr
      obtain ⟨user, huser, hid, hrole⟩ := hr
      exact ⟨user, hU.subset huser, hid, hrole⟩
    exact
      { userIds := hids
        requestIds := h.outline.requestIds
        negotiationIds := h.outline.negotiationIds
        owned := fun q hq => hgrow _ _ (h.outline.owned q hq)
        supplied := fun t ht => hgrow _ _ (h.outline.supplied t ht)
        chains := h.outline.chains
        single := h.outline.single
        known := h.outline.known }
  settled := ⟨h.settled.requests, h.settled.amounts⟩

/-- The posts `shown` run on a state with the users `U` as they do here; the other posts
have been refused. -/
structure Covers (U : List User) (accesses : Nat → Access) (envs : Nat → Env)
    (shown : Nat → Prop) (w : Crowd) (v : Concurrent) : Prop where
  sound : Sound (requests accesses) envs v
  shadow : World.Shadow (Beyond U) (fun t => t ≠ .users) shown w (v.map Delivered.response)
  posts : ∀ i, shown i → ∃ req, (accesses i).call = some (.post req)
  refused : ∀ i req, (accesses i).call = some (.post req) → ¬ shown i →
    (∃ env err, w.txs i = .running ⟨.raise err, env, []⟩) ∨ ∃ o, w.txs i = .done o

/-- A post is among the requests. -/
theorem requests_of_call {req : HttpRequest} (h : (accesses i).call = some (.post req)) :
    requests accesses i = req := by
  unfold requests
  cases ha : accesses i with
  | register data =>
      rw [ha] at h
      exact absurd h (by simp [Access.call])
  | login now payload =>
      rw [ha] at h
      exact absurd h (by simp [Access.call])
  | authorized caller route =>
      rw [ha] at h
      cases route with
      | post key path op => simpa [Access.call] using h
      | me => exact absurd h (by simp [Access.call])
      | read op => exact absurd h (by simp [Access.call])

/-- In the beginning every post is shown, on the users to come as here. -/
theorem Covers.crowded {db : Db} (h : Consistent db) (S : Site) (accesses : Nat → Access)
    (envs : Nat → Env) {U : List User} (hU : db.users <+: U) (hids : (U.map User.id).Nodup) :
    Covers U accesses envs (fun i => ∃ req, (accesses i).call = some (.post req))
      (db.crowded S accesses envs)
      (({ db with users := U } : Db).opened (requests accesses) envs) where
  sound := .opened (h.withUsers hU hids)
  shadow :=
    { state := ⟨hU, rfl⟩
      owned := fun row i hi => absurd hi (by simp [World.map, Db.opened, World.start])
      hidden := fun i _ row => by simp [World.map, Db.opened, World.start]
      last := by
        intro t ht
        cases t with
        | users => exact absurd rfl ht
        | _ => exact Int.le_refl _
      txs := by
        rintro i ⟨req, hcall⟩
        show Tx.running ⟨(accesses i).program S, envs i, []⟩
          = Tx.running ⟨(handle (requests accesses i)).map Delivered.response, envs i, []⟩
        rw [Access.program_post hcall, requests_of_call hcall] }
  posts := fun i hi => hi
  refused := fun i req hcall hi => absurd ⟨req, hcall⟩ hi

/-- A post that asks too early is given up. -/
theorem Covers.giveUp {U : List User} {shown : Nat → Prop} {v : Concurrent} {req : HttpRequest}
    (h : Covers U accesses envs shown w v) (hm : CrowdMoves w e w')
    (hstart : w.txs e.tx = .running ⟨(handle req).map .response, envs e.tx, []⟩)
    (hfree : ∀ row, ¬ Holder w e.tx row) (hnone : w.committed.user req.caller = none) :
    Covers U accesses envs (fun i => shown i ∧ i ≠ e.tx) w' v := by
  rw [handle_eq] at hstart
  obtain ⟨hc, _, hnext⟩ := hm.of_call hstart
  have hgone : (∃ env err, w'.txs e.tx = .running ⟨.raise err, env, []⟩)
      ∨ ∃ o, w'.txs e.tx = .done o := by
    rcases hnext with ⟨err, hdone, _⟩ | ⟨row, hrow, _, _, htx⟩
    · exact Or.inr ⟨_, hdone⟩
    · obtain rfl : none = row := hnone.symm.trans (Except.ok.inj hrow)
      exact Or.inl ⟨_, _, htx⟩
  refine ⟨h.sound, ?_, fun i hi => h.posts i hi.1, ?_⟩
  · refine (h.shadow.hide fun row hrow => hfree row (h.shadow.owned row _ hrow)).stay hm
      (fun hi => hi.2 rfl) ?_
    rw [hc]
    exact h.shadow.state
  · intro i req' hcall hi
    by_cases hie : i = e.tx
    · subst hie
      exact hgone
    · rw [hm.others hie]
      exact h.refused i req' hcall fun hs => hi ⟨hs, hie⟩

/-- A post that is not refused goes the same way. -/
theorem Covers.follow {U : List User} {shown : Nat → Prop} {v : Concurrent}
    (h : Covers U accesses envs shown w v) (hm : CrowdMoves w e w') (hs : shown e.tx)
    (hfinds : ∀ p, w.txs e.tx = .running p → World.Finds engine rowLocks (Beyond U)
      (fun t => t ≠ .users) w.committed v.committed p) :
    ∃ v', Moves v e v' ∧ Covers U accesses envs shown w' v' := by
  obtain ⟨u, hu, hshadow⟩ := h.shadow.follow hm hs hfinds
  obtain ⟨v', rfl, hv⟩ := hu.of_map
  refine ⟨v', hv, h.sound.move hv, hshadow, h.posts, ?_⟩
  intro i req hcall hi
  have hie : i ≠ e.tx := fun hie => hi (hie ▸ hs)
  rw [hm.others hie]
  exact h.refused i req hcall hi

/-- A post whose caller is there finds him in both states. -/
theorem Beyond.finds_start {U : List User} {db db' : Db} (h : Beyond U db db') {req : HttpRequest}
    {user : User} (hu : db.user req.caller = some user) (env : Env) :
    World.Finds engine rowLocks (Beyond U) (fun t => t ≠ .users) db db'
      (⟨(handle req).map Delivered.response, env, []⟩ : At Delivered) := by
  rw [handle_eq]
  refine ⟨?_, ?_, ?_, ?_⟩
  · intro c k hc
    cases hc
    exact congrArg Except.ok (hu.trans (h.user hu).symm)
  · intro c k hc
    cases hc
    rfl
  · intro c k hc t n hdraw
    cases hc
    exact absurd hdraw (by simp [rowLocks, Cmd.table])
  · intro k hk
    cases hk

/-- **Every event.**  The posts go on as before, as long as no user comes who is not
among those to come. -/
theorem Covers.move {U : List User} {shown : Nat → Prop} {v : Concurrent}
    (h : Covers U accesses envs shown w v) (hb : Base accesses envs w) (hm : CrowdMoves w e w')
    (hU : w'.committed.users <+: U) :
    ∃ shown' v', Covers U accesses envs shown' w' v' := by
  by_cases hs : shown e.tx
  · obtain ⟨req, hcall⟩ := h.posts _ hs
    have hposting := hb.posts _ req hcall
    -- an event of a post that is shown: the other world makes the same one
    have hfollow : ∀ {t}, w.txs e.tx = t → (∀ p, t = .running p → World.Finds engine rowLocks
        (Beyond U) (fun t => t ≠ .users) w.committed v.committed p) →
          ∃ shown' v', Covers U accesses envs shown' w' v' := by
      intro t ht hfinds
      obtain ⟨v', _, hv'⟩ := h.follow hm hs fun p hp => hfinds p (ht.symm.trans hp)
      exact ⟨shown, v', hv'⟩
    generalize ht : w.txs e.tx = t at hposting
    cases hposting with
    | start hfree =>
        cases hu : w.committed.user req.caller with
        -- a caller who is registered later is not found: the post is no longer shown
        | none => exact ⟨_, v, h.giveUp hm ht hfree hu⟩
        | some user =>
            refine hfollow ht fun p hp => ?_
            obtain rfl := Tx.running.inj hp
            exact h.shadow.state.finds_start hu _
    | refused =>
        refine hfollow ht fun p hp => ?_
        obtain rfl := Tx.running.inj hp
        exact h.shadow.state.finds trivial fun wr hwr => absurd hwr List.not_mem_nil
    | onward hsends hwrites =>
        refine hfollow ht fun p hp => ?_
        obtain rfl := Tx.running.inj hp
        exact h.shadow.state.finds hsends hwrites
    | ended o => exact hfollow ht fun p hp => absurd hp (by simp)
  · -- somebody else, who leaves the requests and their negotiations alone
    have hstate : Beyond U w'.committed v.committed := by
      cases (hb.does hm).1 with
      | still hc _ =>
          rw [hc]
          exact h.shadow.state
      | posted hcall ht _ _ _ _ =>
          rcases h.refused _ _ hcall hs with ⟨env, err, hr⟩ | ⟨o, ho⟩
          · exact absurd (ht.symm.trans hr) (by simp)
          · exact absurd (ht.symm.trans ho) (by simp)
      | registered _ _ _ _ _ hc _ _ =>
          refine ⟨hU, ?_⟩
          refine h.shadow.state.others.trans ?_
          rw [hc]
          rfl
    refine ⟨shown, v, h.sound, h.shadow.stay hm hs hstate, h.posts, ?_⟩
    intro i req hcall hi
    by_cases hie : i = e.tx
    · subst hie
      rcases h.refused _ _ hcall hi with ⟨env, err, hr⟩ | ⟨o, ho⟩
      · obtain ⟨_, _, hdone⟩ := hm.of_end (o := .error err) hr rfl
        rcases hdone with hdone | hdone <;> exact Or.inr ⟨_, hdone⟩
      · obtain ⟨p, hp⟩ := hm.running
        exact absurd (ho.symm.trans hp) (by simp)
    · rw [hm.others hie]
      exact h.refused i req hcall hi

/-! ## §7. The serial run. -/

/-- A call of the serial run. -/
structure Called where
  call : Call
  env : Env

def Called.run (c : Called) (db : Db) : Except Error Answer × Db := c.call.run c.env calm db

def calledAfter (db : Db) (cs : List Called) : Db := cs.foldl (fun db c => (c.run db).2) db

/-- The committed calls, in the order of their commits. -/
def queue (accesses : Nat → Access) (envs : Nat → Env) (log : List (Nat × List Write)) :
    List Called :=
  log.filterMap fun entry => (accesses entry.1).call.map fun call => ⟨call, envs entry.1⟩

/-- A commit is one more call. -/
theorem calledAfter_queue {db : Db} {log : List (Nat × List Write)} {ws : List Write} {call : Call}
    (hcall : (accesses i).call = some call) :
    calledAfter db (queue accesses envs (log ++ [(i, ws)]))
      = (call.run (envs i) calm (calledAfter db (queue accesses envs log))).2 := by
  unfold queue calledAfter
  rw [List.filterMap_append, List.foldl_append]
  simp only [List.filterMap_cons, List.filterMap_nil, hcall, Option.map_some]
  rfl

def Answer.delivered : Answer → Delivered
  | .user out => .user out
  | .response r => .response r

/-- The transaction stands behind its commit, and has this to deliver. -/
def Delivers (db : Db) (d : Delivered) : Tx Cmd Cmd.Resp Error Write Env Delivered → Prop
  | .running p => p.prog = .ret d
      ∨ ∃ user, p.prog = (enrolled user).map .user ∧ p.staged = [] ∧ db.user user.id = some user
        ∧ d = .user user.out
  | .done o => o = .ok d ∨ o = .error .server

/-- What is delivered stays so when users are added. -/
theorem Delivers.users {db db' : Db} {d : Delivered}
    {t : Tx Cmd Cmd.Resp Error Write Env Delivered} (h : Delivers db d t)
    (husers : db.users <+: db'.users) : Delivers db' d t := by
  cases t with
  | done o => exact h
  | running p =>
      refine h.imp_right fun ⟨user, hp, hws, hrow, hd⟩ => ⟨user, hp, hws, ?_, hd⟩
      obtain ⟨rest, hrest⟩ := husers
      unfold Db.user at hrow ⊢
      rw [← hrest]
      exact lookup_append_of_some rest hrow

/-- What it has to deliver it delivers, unless it is cut off. -/
theorem Delivers.move {d : Delivered} (hm : CrowdMoves w e w')
    (h : Delivers w.committed d (w.txs e.tx)) : Delivers w'.committed d (w'.txs e.tx) := by
  obtain ⟨⟨p, env, ws⟩, hp⟩ := hm.running
  rw [hp] at h
  rcases h with hret | ⟨user, hprog, hws, hrow, rfl⟩
  · obtain ⟨_, _, hdone⟩ := hm.of_end (o := .ok d) hp hret
    rcases hdone with hdone | hdone
    · exact hdone ▸ Or.inl rfl
    · exact hdone ▸ Or.inr rfl
  · obtain rfl : p = (enrolled user).map .user := hprog
    obtain rfl : ws = [] := hws
    obtain ⟨_, _, ⟨err, hdone, herr⟩ | ⟨row, hanswer, _, _, htx⟩⟩ := hm.of_call hp
    · rw [hdone]
      rcases herr with rfl | herr
      · exact Or.inr rfl
      · exact absurd herr (by simp [engine, Cmd.answer])
    · obtain rfl : some user = row := hrow.symm.trans (Except.ok.inj hanswer)
      rw [htx]
      exact Or.inl rfl

/-- The committed state is the one behind the committed calls, and each of them delivers
what it is answered in that run. -/
structure Queued (db : Db) (accesses : Nat → Access) (envs : Nat → Env) (w : Crowd) : Prop where
  business : w.committed.business = (calledAfter db (queue accesses envs w.log)).business
  once : (w.log.map Prod.fst).Nodup
  answered : ∀ (log : List (Nat × List Write)) (i : Nat) (ws : List Write)
    (later : List (Nat × List Write)), w.log = log ++ (i, ws) :: later →
    ∃ call a, (accesses i).call = some call
      ∧ (call.run (envs i) calm (calledAfter db (queue accesses envs log))).1 = .ok a
      ∧ Delivers w.committed a.delivered (w.txs i)

variable {db : Db}

/-- Nobody commits twice. -/
theorem Queued.not_logged (h : Queued db accesses envs w) {k : Prog Delivered} {env : Env}
    {ws : List Write} (ht : w.txs i = .running ⟨.commit k, env, ws⟩) :
    i ∉ w.log.map Prod.fst := by
  intro hi
  obtain ⟨entry, hentry, rfl⟩ := List.mem_map.mp hi
  obtain ⟨log, later, hlog⟩ := List.append_of_mem hentry
  obtain ⟨_, _, _, _, hdelivers⟩ := h.answered log entry.1 entry.2 later hlog
  rw [ht] at hdelivers
  rcases hdelivers with hret | ⟨_, hprog, _⟩
  · exact absurd hret (by simp)
  · have hcall : Program.commit k = .call (.getUser _) _ := hprog
    exact absurd hcall (by simp)

/-- Who has something to deliver has it after any event. -/
theorem Queued.delivers {d : Delivered} (hb : Base accesses envs w) (hm : CrowdMoves w e w')
    (h : Delivers w.committed d (w.txs i)) : Delivers w'.committed d (w'.txs i) := by
  by_cases hi : i = e.tx
  · subst hi
    exact h.move hm
  · rw [hm.others hi]
    exact h.users (hb.does hm).1.users

/-- **A commit is one more call of the serial run.** -/
theorem Queued.commit (h : Queued db accesses envs w) (hb : Base accesses envs w)
    (hm : CrowdMoves w e w') {call : Call} {k : Prog Delivered} {env : Env} {ws : List Write}
    {a : Answer} {db' : Db} (hcall : (accesses e.tx).call = some call)
    (ht : w.txs e.tx = .running ⟨.commit k, env, ws⟩) (hlog : w'.log = w.log ++ [(e.tx, ws)])
    (hrun : call.run (envs e.tx) calm (calledAfter db (queue accesses envs w.log)) = (.ok a, db'))
    (hstate : w'.committed.business = db'.business)
    (hdelivers : Delivers w'.committed a.delivered (w'.txs e.tx)) : Queued db accesses envs w' where
  business := by
    rw [hlog, calledAfter_queue hcall, hrun]
    exact hstate
  once := by
    rw [hlog, List.map_append]
    exact nodup_concat h.once (h.not_logged ht)
  answered := by
    intro log i vs later hsplit
    rw [hlog] at hsplit
    rcases List.eq_nil_or_concat later with rfl | ⟨later, entry, rfl⟩
    · obtain ⟨rfl, hentry⟩ := List.append_inj' hsplit rfl
      obtain ⟨rfl, rfl⟩ : e.tx = i ∧ ws = vs := by simpa using hentry
      exact ⟨call, a, hcall, congrArg Prod.fst hrun, hdelivers⟩
    · have hearlier : w.log = log ++ (i, vs) :: later := by
        rw [List.concat_eq_append, ← List.cons_append, ← List.append_assoc] at hsplit
        exact (List.append_inj' hsplit rfl).1
      obtain ⟨call', a', hcall', hanswer, hd⟩ := h.answered log i vs later hearlier
      exact ⟨call', a', hcall', hanswer, Queued.delivers hb hm hd⟩

/-- Alone, a registration of a free email goes through. -/
theorem register_alone {data : RegisterIn} {env : Env} {db : Db}
    (hfree : db.userByEmail data.email = none) (hnew : (env.registered data).id ∉ db.ids .users) :
    (Call.register data).run env calm db
      = (.ok (.user (env.registered data).out), engine.view (registerWrites env data) db) := by
  have hrun : engine.request (handleRegister data) env calm db
      = (.ok (env.registered data).out, engine.view (registerWrites env data) db) := by
    rw [request_of_reaches (register_reaches (R := AnyRow) trivial (pinned hfree)),
      Engine.exec_commit_calm]
    refine Prod.ext ?_ (engine.exec_uses (refresh_uses _) _)
    show (engine.exec _ _).1 = _
    rw [exec_refresh, enrolled_view hnew]
    rfl
  simp only [Call.run, hrun]
  rfl

/-- **Every event keeps it.** -/
theorem Queued.move {shown : Nat → Prop} {v : Concurrent} (h : Queued db accesses envs w)
    (hb : Base accesses envs w) (hc : Covers w.committed.users accesses envs shown w v)
    (hm : CrowdMoves w e w') : Queued db accesses envs w' := by
  cases (hb.does hm).1 with
  | still hcommitted hlog =>
      refine ⟨by rw [hcommitted, hlog]; exact h.business, by rw [hlog]; exact h.once, ?_⟩
      intro log i ws later hsplit
      rw [hlog] at hsplit
      obtain ⟨call, a, hcall, hanswer, hd⟩ := h.answered log i ws later hsplit
      exact ⟨call, a, hcall, hanswer, Queued.delivers hb hm hd⟩
  | @posted req k env ws hcall ht _ hcommitted hlog htx =>
      -- the post commits what it commits on the state that has the users of now
      have hs : shown e.tx := by
        by_contra hs
        rcases hc.refused _ _ hcall hs with ⟨_, _, hr⟩ | ⟨_, ho⟩
        · exact absurd (ht.symm.trans hr) (by simp)
        · exact absurd (ht.symm.trans ho) (by simp)
      have hsame : v.committed.business = w.committed.business := hc.shadow.state.others
      obtain ⟨⟨p, _, _⟩, hv, hp⟩ := Tx.of_map ((hc.shadow.txs _ hs).symm.trans ht)
      cases p with
      | commit k' =>
          cases hp
          obtain ⟨user, o, o', _, hx, _, rfl, _, hbusiness⟩ := hc.sound.commit hv
          rw [requests_of_call hcall] at hx hbusiness htx
          have hrun : (Call.post req).run (envs e.tx) calm
              (calledAfter db (queue accesses envs w.log))
                = (.ok (.response ⟨req.op.statusCode, o'.body⟩),
                  engine.view (committedWrites req user o')
                    (calledAfter db (queue accesses envs w.log))) := by
            simp only [Call.run, executes_calm (hx.business (hsame.trans h.business))]
            rfl
          refine h.commit hb hm hcall ht hlog hrun ?_ (by rw [htx]; exact Or.inl rfl)
          rw [hcommitted, ← view_business_congr _ hsame, ← hbusiness]
          exact view_business_congr _ (hsame.trans h.business)
      | _ => cases hp
  | @registered data hcall _ hfree hnew ht hcommitted hlog htx =>
      have heq := eq_of_business h.business
      have hown : (calledAfter db (queue accesses envs w.log)).users = w.committed.users := by
        rw [heq]
      have hfree' : (calledAfter db (queue accesses envs w.log)).userByEmail data.email = none := by
        unfold Db.userByEmail
        rw [hown]
        exact hfree
      have hnew' : ((envs e.tx).registered data).id
          ∉ (calledAfter db (queue accesses envs w.log)).ids .users := by
        rw [heq]
        exact hnew
      refine h.commit hb hm hcall ht hlog (register_alone hfree' hnew') ?_ ?_
      · rw [hcommitted]
        exact view_business_congr _ h.business
      · rw [htx, hcommitted]
        refine Or.inr ⟨_, rfl, rfl, ?_, rfl⟩
        exact enrolled_view hnew

/-- All of it.  The users to come are any that go on from those there are. -/
structure Crowded (db : Db) (accesses : Nat → Access) (envs : Nat → Env) (w : Crowd) : Prop where
  base : Base accesses envs w
  queued : Queued db accesses envs w
  covered : ∀ U, w.committed.users <+: U → (U.map User.id).Nodup →
    ∃ shown v, Covers U accesses envs shown w v

/-- **Every event keeps all of it.** -/
theorem Crowded.move (h : Crowded db accesses envs w) (hm : CrowdMoves w e w') :
    Crowded db accesses envs w' where
  base := h.base.move hm
  queued := by
    obtain ⟨shown, v, hc⟩ := h.covered _ (List.prefix_refl _) h.base.userIds
    exact h.queued.move h.base hc hm
  covered := by
    intro U hU hids
    obtain ⟨shown, v, hc⟩ := h.covered U ((h.base.does hm).1.users.trans hU) hids
    exact hc.move h.base hm hU

/-- **The state behind a run.** -/
theorem Crowded.run (h : Reachable db) (S : Site)
    (hrun : CrowdRun (db.crowded S accesses envs) w) : Crowded db accesses envs w := by
  refine World.Run.invariant engine rowLocks (fun w e w' hw _ hm => hw.move hm) hrun ?_
  refine ⟨.crowded h S accesses envs, ⟨rfl, List.nodup_nil, ?_⟩, ?_⟩
  · intro log i ws later hlog
    exact absurd hlog (by simp [Db.crowded, World.start])
  · intro U hU hids
    exact ⟨_, _, .crowded h.consistent S accesses envs hU hids⟩

end

/-! ## §8. Somebody new. -/

/-- The client accepts a bid, two browsers register one email, and the new client, who
gets the id 14, asks for chairs. -/
def latecomers : Nat → Access
  | 0 | 1 => .register ordinaryAccount
  | 2 => .authorized 1 (.post none "" (.accept 1))
  | 3 => .authorized 14 (.post none "" (.createRequest chairs))
  | _ => .login 0 ⟨"client@example.com", "password"⟩

def latecomerEnvs : Nat → Env
  | 0 => market.numbering 10
  | 1 => market.numbering 20
  | 2 => market.numbering 40
  | _ => market.numbering 30

/-- The acceptance begins; both browsers find the email free, and one gets it; the new
client has his request before the acceptance commits. -/
def newClient : List Event :=
  eventsOf 2 8 ++ eventsOf 0 3 ++ eventsOf 1 2 ++ eventsOf 0 5 ++ eventsOf 1 1 ++ eventsOf 3 7
    ++ eventsOf 2 10

/-! ## §9. Serializability. -/

/-- **The server is serializable.**  From any reachable state, after any events of any
number of registrations, logins, reads and posts, of users that were there or have come
meanwhile: the committed business state is the one that the committed registrations and
posts leave when they are run one at a time in the order of their commits.  Each of them
commits once, succeeds in that run too, and has ended here with the answer it has
there, unless its connection was lost behind the commit.  No email is given twice, and
who only logs in or reads never waits. -/
theorem server_serializable {db : Db} (h : Reachable db) (S : Site) (accesses : Nat → Access)
    (envs : Nat → Env) {w : Crowd} (hrun : CrowdRun (db.crowded S accesses envs) w) :
    w.committed.business = (calledAfter db (queue accesses envs w.log)).business
      ∧ (w.log.map Prod.fst).Nodup
      ∧ (∀ (log : List (Nat × List Write)) (i : Nat) (ws : List Write)
          (later : List (Nat × List Write)), w.log = log ++ (i, ws) :: later →
          ∃ call a, (accesses i).call = some call
            ∧ (call.run (envs i) calm (calledAfter db (queue accesses envs log))).1 = .ok a
            ∧ ∀ o, w.txs i = .done o → o = .ok a.delivered ∨ o = .error .server)
      ∧ (w.committed.users.map User.email).Nodup
      ∧ ∀ i, (accesses i).call = none → (∀ o, w.txs i ≠ .done o) →
          ∃ w', w.next engine rowLocks (.step i) = some w' := by
  have hw := Crowded.run h S hrun
  refine ⟨hw.queued.business, hw.queued.once, ?_, hw.base.emails, ?_⟩
  · intro log i ws later hlog
    obtain ⟨call, a, hcall, hanswer, hdelivers⟩ := hw.queued.answered log i ws later hlog
    refine ⟨call, a, hcall, hanswer, fun o ho => ?_⟩
    rw [ho] at hdelivers
    exact hdelivers
  · intro i hcall hopen
    exact World.next_reading engine rowLocks (hw.base.readers i hcall).1 hopen

/-- The serial run registers, then asks, then accepts. -/
theorem server_serializable_newClient :
    ∃ w, (market.crowded clearSite latecomers latecomerEnvs).runs engine rowLocks World.anyStep
        newClient = some w
      ∧ w.log.map Prod.fst = [0, 3, 2] ∧ w.committed.ids .users = [1, 2, 3, 14]
      ∧ w.committed.business
        = (calledAfter market (queue latecomers latecomerEnvs w.log)).business := by
  have hrun : ((market.crowded clearSite latecomers latecomerEnvs).runs engine rowLocks
      World.anyStep newClient).any (fun w => decide (w.log.map Prod.fst = [0, 3, 2])
        && decide (w.committed.ids .users = [1, 2, 3, 14])) = true := by decide +kernel
  obtain ⟨w, hw, hall⟩ := (Option.any_eq_true _ _).mp hrun
  rw [Bool.and_eq_true] at hall
  have hreach := World.Run.of_runs engine rowLocks hw
  exact ⟨w, hw, of_decide_eq_true hall.1, of_decide_eq_true hall.2,
    (server_serializable market_reachable clearSite latecomers latecomerEnvs hreach).1⟩

end Procurement
