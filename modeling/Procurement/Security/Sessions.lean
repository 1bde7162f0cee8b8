/-
  Procurement.Security.Sessions
  ─────────────────────────────
  **NOBODY ACTS WITHOUT A LOGIN.**

  The log of the server has every request since it was started, with its answer.
  From an answer the log is followed back: a request that is not refused carried
  a token; a token that decodes had been handed out by a login (`Unforged`, which
  is what the signature is for); a login has checked a password against the hash in
  the row of its user, as far as bcrypt reads it; and a row has come from a
  registration.

      login_required   — no request without the three of them, in that order
      audit_accountable — no audit entry names an actor who has not sent a request
                         in a session of his own
-/
import Procurement.Observability.Correlation
import Procurement.Security.Tokens

namespace Procurement

open Procurement.Framework
open Procurement.Framework.Program

/-! ## §1. The log. -/

/-- A request, the moment it was served at, and the answer. -/
structure Entry where
  arrival : Arrival
  moment : Moment
  reply : Except Error Delivered

/-- The entry of a request that finds the server in the state `s`. -/
def Server.entry (S : Site) (s : Server) (a : Arrival) (m : Moment) : Entry :=
  ⟨a, m, (s.serve S m a).1⟩

/-- The server has come to `s`, and the log has every request, oldest first. -/
inductive Served (S : Site) : List Entry → Server → Prop where
  | boot : Served S [] Server.boot
  | serve {log : List Entry} {s : Server} (h : Served S log s) (a : Arrival) (m : Moment)
      (hf : Fresh m.env s.db) : Served S (log ++ [s.entry S a m]) (s.serve S m a).2

/-- Tokens are not forged: what decodes has been handed out by a login before. -/
def Unforged (S : Site) (log : List Entry) : Prop :=
  ∀ past rest authorization route m reply token payload,
    log = past ++ ⟨.authorized authorization route, m, reply⟩ :: rest →
      S.bearer authorization = some token → S.decodeAccessToken m.wall token = some payload →
        ∃ e ∈ past, ∃ out, e.reply = .ok (.token out) ∧ out.accessToken = token

/-- Registrations hash with the library, each with a salt of its own. -/
def Salted (S : Site) (log : List Entry) : Prop :=
  ∀ data m reply, ⟨.register data, m, reply⟩ ∈ log → ∃ salt, m.env.hashpw = hashPassword S.bcrypt salt

section
variable {S : Site} {log past rest : List Entry} {s : Server} {e : Entry}

theorem Served.reachable (h : Served S log s) : Reachable s.db := by
  induction h with
  | boot => exact .refl
  | serve _ a m hf ih => exact ih.trans (Serves.steps ⟨a, m, hf, rfl⟩)

/-- The state that an entry of the log has found. -/
theorem Served.split (h : Served S log s) (hlog : log = past ++ e :: rest) :
    ∃ s₀, Served S past s₀ ∧ Fresh e.moment.env s₀.db
      ∧ e = s₀.entry S e.arrival e.moment
      ∧ Relation.ReflTransGen (Serves S) (s₀.serve S e.moment e.arrival).2 s := by
  induction h generalizing rest with
  | boot => exact absurd hlog.symm (by simp)
  | @serve log s hserved a m hf ih =>
      rcases List.eq_nil_or_concat rest with rfl | ⟨rest, last, rfl⟩
      · -- the entry is the last one
        obtain ⟨rfl, hlast⟩ := List.append_inj' hlog rfl
        obtain rfl : s.entry S a m = e := List.head_eq_of_cons_eq hlast
        exact ⟨s, hserved, hf, rfl, .refl⟩
      · rw [List.concat_eq_append, ← List.cons_append, ← List.append_assoc] at hlog
        obtain ⟨hbefore, _⟩ := List.append_inj' hlog rfl
        obtain ⟨s₀, h₀, hf₀, he, hrun⟩ := ih hbefore
        exact ⟨s₀, h₀, hf₀, he, hrun.tail ⟨a, m, hf, rfl⟩⟩

/-! ## §2. Back from an answer. -/

theorem map_ne_token {α : Type} {f : α → Delivered} {token : TokenOut}
    (hf : ∀ a, f a ≠ .token token) (o : Except Error α) : o.map f ≠ .ok (.token token) := by
  cases o with
  | error e => exact fun h => absurd h (by simp [Except.map])
  | ok a => exact fun h => hf a (Except.ok.inj h)

theorem Route.run_ne_token (route : Route) (caller : Id) (m : Moment) (db : Db)
    (token : TokenOut) : (route.run caller m db).1 ≠ .ok (.token token) := by
  cases route with
  | me => exact map_ne_token (by simp) _
  | read op => exact map_ne_token (by simp) _
  | post key path op => exact map_ne_token (by simp) _

/-- Only a login is answered with a token. -/
theorem token_of_login {a : Arrival} {m : Moment} {token : TokenOut}
    (h : (s.serve S m a).1 = .ok (.token token)) : ∃ request payload, a = .login request payload := by
  cases a with
  | login request payload => exact ⟨request, payload, rfl⟩
  | register data => exact absurd h (map_ne_token (by simp) _)
  | invalidLogin request detail =>
      obtain ⟨e, he⟩ := (invalidLogin_state S s m request detail).2
      exact absurd (he.symm.trans h) (by simp)
  | authorized authorization route =>
      cases hs : S.subject m.wall authorization with
      | error e =>
          rw [serve_authorized_error hs] at h
          exact absurd h (by simp)
      | ok caller =>
          rw [serve_authorized_ok hs] at h
          exact absurd h (route.run_ne_token caller m s.db token)

/-- A request without a good token is answered with 401. -/
theorem subject_error {now : ℚ} {authorization : Option String} {err : Error}
    (h : S.subject now authorization = .error err) : ∃ detail, err = .http 401 detail := by
  unfold Site.subject at h
  split at h
  · exact ⟨_, (Except.error.inj h).symm⟩
  · split at h
    · exact ⟨_, (Except.error.inj h).symm⟩
    · exact absurd h (by simp)

/-- A caller is what the token says that decodes. -/
theorem subject_ok {now : ℚ} {authorization : Option String} {caller : Id}
    (h : S.subject now authorization = .ok caller) :
    ∃ token payload, S.bearer authorization = some token
      ∧ S.decodeAccessToken now token = some payload := by
  unfold Site.subject at h
  split at h
  · exact absurd h (by simp)
  · next token hb =>
      split at h
      · exact absurd h (by simp)
      · next userId hd =>
          obtain ⟨payload, hpayload, _⟩ := Option.bind_eq_some_iff.mp hd
          exact ⟨token, payload, hb, hpayload⟩

/-- Requests with a token add no users. -/
theorem Route.run_users (route : Route) (caller : Id) (m : Moment) (db : Db) :
    (route.run caller m db).2.users = db.users := by
  cases route with
  | me => exact congrArg Db.users (request_service (handleMe_service caller) m.env m.faults db)
  | read op =>
      exact congrArg Db.users (request_service (handleRead_service ⟨caller, op⟩) m.env m.faults db)
  | post key path op =>
      show (engine.request (handle ⟨caller, key, path, op⟩) m.env m.faults db).2.users = _
      rcases handle_cases ⟨caller, key, path, op⟩ m.env m.faults db with
        ⟨e, hrun⟩ | ⟨user, record, _, hrun⟩ | ⟨user, o, hx, hrun⟩
      · rw [hrun]
      · rw [hrun]
      · rw [hrun]
        exact hx.users

/-- What a request does to the users. -/
theorem serve_users (a : Arrival) (m : Moment) :
    (s.serve S m a).2.db.users = s.db.users
      ∨ ∃ data, a = .register data
        ∧ (s.serve S m a).2.db.users = s.db.users ++ [m.env.registered data] := by
  cases a with
  | register data =>
      show (engine.request (handleRegister data) m.env m.faults s.db).2.users = _ ∨ _
      rcases register_outcome data m.env m.faults s.db with h | ⟨_, h⟩
      · exact Or.inl (congrArg Db.users h)
      · exact Or.inr ⟨data, rfl, congrArg Db.users h⟩
  | login request payload =>
      left
      show (s.login S m request payload).2.db.users = _
      rw [login_state]
  | invalidLogin request detail =>
      exact Or.inl (congrArg Db.users (invalidLogin_state S s m request detail).1)
  | authorized authorization route =>
      left
      cases hs : S.subject m.wall authorization with
      | error e => rw [serve_authorized_error hs]
      | ok caller =>
          rw [serve_authorized_ok hs]
          exact route.run_users caller m s.db

/-- **Every row of a user has come from a registration.** -/
theorem Served.registration (h : Served S log s) {user : User} (hu : user ∈ s.db.users) :
    ∃ data m reply, ⟨.register data, m, reply⟩ ∈ log ∧ user = m.env.registered data := by
  induction h with
  | boot => exact absurd hu List.not_mem_nil
  | @serve log s hserved a m hf ih =>
      have hold : user ∈ s.db.users → ∃ data n reply,
          ⟨.register data, n, reply⟩ ∈ log ++ [s.entry S a m] ∧ user = n.env.registered data := by
        intro hu
        obtain ⟨data, n, reply, hmem, huser⟩ := ih hu
        exact ⟨data, n, reply, List.mem_append_left _ hmem, huser⟩
      rcases serve_users (S := S) (s := s) a m with hsame | ⟨data, rfl, hnew⟩
      · exact hold (hsame ▸ hu)
      · rw [hnew] at hu
        rcases List.mem_append.mp hu with hu | hu
        · exact hold hu
        · -- the registration that the log ends with
          exact ⟨data, m, _, List.mem_append_right _ (List.mem_singleton.mpr rfl),
            List.mem_singleton.mp hu⟩

/-! ## §3. Sessions. -/

/-- A token out of the log: its login has checked the password of a user who had
registered before. -/
theorem Served.login_of_token (hS : S.Lawful) (h : Served S log s) (hsalt : Salted S log)
    {m : Moment} {a : Arrival} {token : TokenOut}
    (he : ⟨a, m, .ok (.token token)⟩ ∈ log) :
    ∃ user, S.tokenFor m.wall user = .ok token ∧ s.db.user user.id = some user
      ∧ ∃ data n reply request payload,
        [⟨.register data, n, reply⟩, ⟨.login request payload, m, .ok (.token token)⟩].Sublist log
        ∧ user = n.env.registered data ∧ payload.email = data.email
        ∧ (encode payload.password).take 72 = (encode data.password).take 72 := by
  obtain ⟨past, rest, hlog⟩ := List.append_of_mem he
  obtain ⟨s₀, h₀, _, hentry, hrun⟩ := h.split hlog
  have hanswer : (s₀.serve S m a).1 = .ok (.token token) := (congrArg Entry.reply hentry).symm
  obtain ⟨request, payload, rfl⟩ := token_of_login hanswer
  obtain ⟨user, huser, htoken, hdb⟩ := login_answered (Prod.ext hanswer rfl)
  obtain ⟨hemail, hverify⟩ := Db.loggedIn_iff.mp huser
  obtain ⟨data, n, reply, hreg, hrow⟩ := h₀.registration (lookup_mem hemail)
  have hname : user.email = payload.email := lookup_key hemail
  obtain ⟨salt, hhash⟩ := hsalt data n reply (hlog ▸ List.mem_append_left _ hreg)
  refine ⟨user, htoken, loggedIn_stays h₀.reachable huser (hdb ▸ steps_of_serves hrun), data, n,
    reply, request, payload, ?_, hrow, ?_, ?_⟩
  · rw [hlog]
    exact List.Sublist.append (List.singleton_sublist.mpr hreg)
      (List.Sublist.cons_cons _ (List.nil_sublist _))
  · rw [← hname, hrow]
    rfl
  · -- the stored hash is the one of the registered password
    rw [hrow] at hverify
    change verifyPassword S.bcrypt payload.password (n.env.hashpw data.password) = true at hverify
    unfold verifyPassword at hverify
    rw [hhash, show hashPassword S.bcrypt salt data.password
      = S.bcrypt.hashpw (encode data.password) salt from rfl, hS.bcrypt.check] at hverify
    exact of_decide_eq_true hverify

/-- In front of a request with this header, at this moment: `user` has registered, has
logged in with a password that agrees with the registered one in its first 72 bytes, and
the header carries the token of that login, which is still good. -/
def Session (S : Site) (past : List Entry) (authorization : Option String) (now : ℚ)
    (user : User) : Prop :=
  ∃ data n reply request payload issued token,
    [⟨.register data, n, reply⟩, ⟨.login request payload, issued, .ok (.token token)⟩].Sublist past
      ∧ user = n.env.registered data ∧ payload.email = data.email
      ∧ (encode payload.password).take 72 = (encode data.password).take 72
      ∧ S.bearer authorization = some token.accessToken ∧ S.InWindow issued.wall now

/-- Whoever a token names has a session. -/
theorem Served.session (hS : S.Lawful) {s₀ : Server} (h : Served S past s₀)
    (hforge : Unforged S log) (hsalt : Salted S log) {authorization : Option String}
    {route : Route} {m : Moment} {reply : Except Error Delivered}
    (hlog : log = past ++ ⟨.authorized authorization route, m, reply⟩ :: rest) {caller : Id}
    (hs : S.subject m.wall authorization = .ok caller) :
    ∃ user, s₀.db.user caller = some user ∧ user.id = caller
      ∧ Session S past authorization m.wall user := by
  obtain ⟨text, payload, hb, hd⟩ := subject_ok hs
  obtain ⟨e, he, token, hreply, rfl⟩ := hforge _ _ _ _ _ _ _ _ hlog hb hd
  obtain ⟨a, issued, r⟩ := e
  obtain rfl : r = .ok (.token token) := hreply
  have hpast : Salted S past :=
    fun data n reply he => hsalt data n reply (hlog ▸ List.mem_append_left _ he)
  obtain ⟨user, htoken, hrow, data, n, reply', request, credentials, hsub, hfacts⟩ :=
    h.login_of_token hS hpast he
  rw [subject_tokenFor hS htoken hb m.wall] at hs
  by_cases hw : S.InWindow issued.wall m.wall
  · rw [if_pos hw] at hs
    obtain rfl : user.id = caller := Except.ok.inj hs
    exact ⟨user, hrow, rfl, data, n, reply', request, credentials, issued, token, hsub, hfacts.1,
      hfacts.2.1, hfacts.2.2, hb, hw⟩
  · rw [if_neg hw] at hs
    exact absurd hs (by simp)

end

/-! ## §4. A run of three requests. -/

/-- A log stays unforged with one more request, whose token is out of it. -/
theorem Unforged.concat {S : Site} {log : List Entry} {e : Entry} (h : Unforged S log)
    (he : ∀ authorization route, e.arrival = .authorized authorization route →
      ∃ d ∈ log, ∃ out, d.reply = .ok (.token out) ∧ S.bearer authorization = some out.accessToken) :
    Unforged S (log ++ [e]) := by
  intro past rest authorization route m reply token payload hlog hb hd
  rcases List.eq_nil_or_concat rest with rfl | ⟨rest, last, rfl⟩
  · obtain ⟨rfl, hlast⟩ := List.append_inj' hlog rfl
    obtain rfl : e = _ := List.head_eq_of_cons_eq hlast
    obtain ⟨d, hmem, out, hreply, hown⟩ := he authorization route rfl
    exact ⟨d, hmem, out, hreply, Option.some.inj (hown.symm.trans hb)⟩
  · rw [List.concat_eq_append, ← List.cons_append, ← List.append_assoc] at hlog
    obtain ⟨hbefore, _⟩ := List.append_inj' hlog rfl
    exact h past rest authorization route m reply token payload hbefore hb hd

/-- The row of "client@example.com". -/
def accountUser : User := (momentAt Db.empty 0).env.registered ordinaryAccount

/-- The token of `accountLogin`. -/
def accountToken : TokenOut :=
  ⟨clearJwt.encode ⟨"1", accountUser.role.value, 1000, 4600⟩, "bearer"⟩

theorem accountToken_issued : clearSite.tokenFor 1000 accountUser = .ok accountToken := by
  have hiat : truncate 1000 = 1000 := by decide +kernel
  refine Site.tokenFor_iff.mpr ⟨"1", 4600, by decide +kernel, by decide +kernel, ?_⟩
  rw [hiat]
  rfl

theorem accountLogin_token : Server.accountLogin.1 = .ok (.token accountToken) := by
  obtain ⟨token, s₁, hlogin⟩ := accountLogin_ok
  obtain ⟨user, huser, htoken, _⟩ := login_answered hlogin
  -- the table has one row
  obtain rfl : user = accountUser :=
    List.mem_singleton.mp (lookup_mem (Db.loggedIn_iff.mp huser).1)
  obtain rfl : accountToken = token := Except.ok.inj (accountToken_issued.symm.trans htoken)
  exact congrArg Prod.fst hlogin

/-- The request for chairs, in that session. -/
def chairsArrival : Arrival :=
  .authorized accountToken.header (.post none "/requests" (.createRequest chairs))

def registerEntry : Entry :=
  Server.boot.entry clearSite (.register ordinaryAccount) (momentAt Db.empty 0)

def loginEntry : Entry :=
  Server.withAccount.entry clearSite (.login ⟨none, none⟩ ⟨"client@example.com", "password"⟩)
    (momentAt Server.withAccount.db 1000)

def chairsEntry : Entry :=
  Server.accountLogin.2.entry clearSite chairsArrival (momentAt Server.accountLogin.2.db 2000)

/-- A registration, a login, and a request in its session. -/
def accountLog : List Entry := [registerEntry, loginEntry, chairsEntry]

/-- The server behind them. -/
def Server.withChairs : Server :=
  (Server.accountLogin.2.serve clearSite (momentAt Server.accountLogin.2.db 2000) chairsArrival).2

/-- The server knows whose token that is, and has the tables from before the login. -/
theorem chairs_served : Server.accountLogin.2.serve clearSite
      (momentAt Server.accountLogin.2.db 2000) chairsArrival
    = ({ Server.accountLogin.2 with db := Server.withAccount.db }).asCaller
        (momentAt Server.withAccount.db 2000) accountUser.id
        (.post none "/requests" (.createRequest chairs)) := by
  have hdb : Server.accountLogin.2.db = Server.withAccount.db := login_state ..
  have hin : clearSite.InWindow 1000 2000 := by decide +kernel
  have hbearer : clearSite.bearer accountToken.header = some accountToken.accessToken :=
    clearSite_lawful.bearer accountToken.accessToken
  have hcaller : clearSite.subject (momentAt Server.accountLogin.2.db 2000).wall
      accountToken.header = .ok accountUser.id :=
    (subject_tokenFor clearSite_lawful accountToken_issued hbearer 2000).trans (if_pos hin)
  refine (serve_authorized_ok hcaller _).trans ?_
  unfold Server.asCaller
  rw [hdb]

theorem account_served : Served clearSite accountLog Server.withChairs :=
  ((Served.boot.serve _ _ (momentAt_fresh _ _)).serve _ _ (momentAt_fresh _ _)).serve _ _
    (momentAt_fresh _ _)

theorem account_unforged : Unforged clearSite accountLog := by
  have hnil : Unforged clearSite [] :=
    fun past rest authorization route m reply token payload hlog => absurd hlog.symm (by simp)
  have hregistered : Unforged clearSite ([] ++ [registerEntry]) :=
    hnil.concat fun _ _ h => absurd h (by simp [registerEntry, Server.entry])
  have hlogged : Unforged clearSite ([] ++ [registerEntry] ++ [loginEntry]) :=
    hregistered.concat fun _ _ h => absurd h (by simp [loginEntry, Server.entry])
  refine hlogged.concat fun authorization route h => ?_
  -- the header is the one of the token out of the second request
  obtain ⟨rfl, _⟩ := Arrival.authorized.inj h
  exact ⟨loginEntry, List.mem_append_right _ (List.mem_singleton.mpr rfl), accountToken,
    accountLogin_token, clearSite_lawful.bearer accountToken.accessToken⟩

theorem account_salted : Salted clearSite accountLog := by
  intro data m reply hmem
  have hhash : ∀ e ∈ accountLog, e.moment.env.hashpw = hashPassword clearBcrypt "" := by
    intro e he
    rcases List.mem_cons.mp he with rfl | he
    · rfl
    rcases List.mem_cons.mp he with rfl | he
    · rfl
    obtain rfl := List.mem_singleton.mp he
    rfl
  exact ⟨"", hhash _ hmem⟩

theorem chairs_answered (detail : String) : chairsEntry.reply ≠ .error (.http 401 detail) := by
  have hok : chairsEntry.reply.toOption.isSome = true := by
    unfold chairsEntry Server.entry
    rw [chairs_served]
    decide +kernel
  intro h
  rw [h] at hok
  exact absurd hok (by simp [Except.toOption])

/-! ## §5. No request without a login. -/

/-- **Nobody acts without a login.**  As long as no token is forged: a request that needs
one, and that validation lets through, is refused with 401, or has been answered as the
request of a user who had registered, and who had then logged in, not longer ago than the
lifetime of a token, with a password that agrees with the registered one in its first 72
bytes. -/
theorem login_required (S : Site) (hS : S.Lawful) (log past rest : List Entry) (s : Server)
    (authorization : Option String) (route : Route) (m : Moment) (reply : Except Error Delivered)
    (h : Served S log s) (hforge : Unforged S log) (hsalt : Salted S log)
    (hlog : log = past ++ ⟨.authorized authorization route, m, reply⟩ :: rest)
    (hreply : ∀ detail, reply ≠ .error (.http 401 detail)) :
    ∃ user s₀, Session S past authorization m.wall user ∧ Served S past s₀
      ∧ s₀.db.user user.id = some user ∧ reply = (route.run user.id m s₀.db).1 := by
  obtain ⟨s₀, h₀, _, hentry, _⟩ := h.split hlog
  have hanswer : reply = (s₀.serve S m (.authorized authorization route)).1 :=
    congrArg Entry.reply hentry
  cases hs : S.subject m.wall authorization with
  | error err =>
      obtain ⟨detail, rfl⟩ := subject_error hs
      rw [serve_authorized_error hs] at hanswer
      exact absurd hanswer (hreply detail)
  | ok caller =>
      rw [serve_authorized_ok hs] at hanswer
      obtain ⟨user, hrow, rfl, hsession⟩ := h₀.session hS hforge hsalt hlog hs
      exact ⟨user, s₀, hsession, h₀, hrow, hanswer⟩

/-- The third answer is no 401, so that its request was sent in a session. -/
theorem login_required_chairs :
    ∃ user, Session clearSite [registerEntry, loginEntry] accountToken.header 2000 user := by
  have hlast : accountLog = [registerEntry, loginEntry]
      ++ [⟨chairsArrival, momentAt Server.accountLogin.2.db 2000, chairsEntry.reply⟩] := by
    unfold accountLog chairsEntry Server.entry
    simp only [List.cons_append, List.nil_append]
  obtain ⟨user, s₀, hsession, _⟩ := login_required clearSite clearSite_lawful accountLog
    [registerEntry, loginEntry] [] Server.withChairs accountToken.header
    (.post none "/requests" (.createRequest chairs)) (momentAt Server.accountLogin.2.db 2000)
    chairsEntry.reply account_served account_unforged account_salted hlast chairs_answered
  exact ⟨user, hsession⟩

/-! ## §6. No audit entry without a session. -/

/-- What an operation may write into the audit log, and whom it names: the caller, and
nobody where the server itself supersedes a negotiation. -/
def Op.Signs (user : User) (e : AuditLog) : Op → Prop
  | .createRequest _ => e.action = .requestCreated ∧ e.actorId = some user.id
  | .makeOffer _ _ => e.action = .offerCreated ∧ e.actorId = some user.id
  | .accept i =>
      e.action = .negotiationAccepted ∧ e.entityId = some i ∧ e.actorId = some user.id
        ∨ e.action = .negotiationSuperseded ∧ e.entityId ≠ some i ∧ e.actorId = none
  | .reject i => e.action = .negotiationRejected ∧ e.entityId = some i ∧ e.actorId = some user.id
  | .counter i _ => e.action = .negotiationCountered ∧ e.entityId = some i ∧ e.actorId = some user.id

theorem supersedeWrites_entry {e : AuditLog} (w : Id) (siblings : List Negotiation) :
    ∀ env : Env, .insertAudit e ∈ supersedeWrites w env siblings →
      e.action = .negotiationSuperseded ∧ e.actorId = none
        ∧ ∃ sib ∈ siblings, e.entityId = some sib.id := by
  induction siblings with
  | nil => exact fun env he => absurd he List.not_mem_nil
  | cons sib siblings ih =>
      intro env he
      rcases List.mem_cons.mp he with he | he
      · exact absurd he (by simp)
      rcases List.mem_cons.mp he with he | he
      · obtain rfl := Write.insertAudit.inj he
        exact ⟨rfl, rfl, sib, List.mem_cons_self, rfl⟩
      · obtain ⟨hact, hactor, t, ht, hid⟩ := ih _ he
        exact ⟨hact, hactor, t, List.mem_cons_of_mem _ ht, hid⟩

/-- Every operation signs its entries. -/
theorem Produces.signs {db : Db} {user : User} {env : Env} {op : Op} {o : Produced}
    (h : Produces db user env op o) {e : AuditLog} (he : .insertAudit e ∈ o.writes) :
    op.Signs user e := by
  cases h with
  | createRequest data =>
      obtain rfl := Write.insertAudit.inj (List.mem_singleton.mp ((List.mem_cons.mp he).resolve_left
        (by simp)))
      exact ⟨rfl, rfl⟩
  | makeOffer data hread ho =>
      obtain rfl := Write.insertAudit.inj (List.mem_singleton.mp ((List.mem_cons.mp
        ((List.mem_cons.mp he).resolve_left (by simp))).resolve_left (by simp)))
      exact ⟨rfl, rfl⟩
  | reject hread hm =>
      obtain rfl := Write.insertAudit.inj (List.mem_singleton.mp ((List.mem_cons.mp he).resolve_left
        (by simp)))
      exact ⟨rfl, rfl, rfl⟩
  | counter data hread hm =>
      obtain rfl := Write.insertAudit.inj (List.mem_singleton.mp ((List.mem_cons.mp he).resolve_left
        (by simp)))
      exact ⟨rfl, rfl, rfl⟩
  | @accept neg client ps last req hread hm hreq =>
      -- behind the winner's decision and the closed request
      have hrest : Write.insertAudit e ∈ supersedeWrites neg.id env
          (env.order (db.activeSiblings req.id neg.id)) ++ [.insertAudit _] :=
        (List.mem_cons.mp ((List.mem_cons.mp he).resolve_left (by simp))).resolve_left (by simp)
      rcases List.mem_append.mp hrest with hloop | hown
      · right
        obtain ⟨hact, hactor, sib, hsib, hid⟩ := supersedeWrites_entry _ _ _ hloop
        refine ⟨hact, ?_, hactor⟩
        intro hsame
        have hwinner : sib.id = neg.id := Option.some.inj (hid.symm.trans hsame)
        exact winner_not_sibling (hwinner ▸ List.mem_map_of_mem hsib)
      · left
        obtain rfl := Write.insertAudit.inj (List.mem_singleton.mp hown)
        exact ⟨rfl, rfl, rfl⟩

/-- Whom an audit entry goes back to: the registration of the user it is about, or an
operation of that kind that was sent in a session of the user it names. -/
inductive Signed (S : Site) (log : List Entry) (e : AuditLog) : Prop where
  | registration {data : RegisterIn} {m : Moment} {reply : Except Error Delivered}
      (hlog : ⟨.register data, m, reply⟩ ∈ log) (haction : e.action = .userRegistered)
      (hactor : e.actorId = some (m.env.registered data).id) (hid : e.requestId = m.env.requestId)
  | operation {past rest : List Entry} {authorization key : Option String} {path : String} {op : Op}
      {m : Moment} {reply : Except Error Delivered} {user : User}
      (hlog : log = past ++ ⟨.authorized authorization (.post key path op), m, reply⟩ :: rest)
      (hsession : Session S past authorization m.wall user) (hsigns : op.Signs user e)
      (hid : e.requestId = m.env.requestId)

section
variable {S : Site} {log : List Entry} {s : Server} {e : AuditLog}

theorem Signed.append (h : Signed S log e) (more : List Entry) : Signed S (log ++ more) e := by
  cases h with
  | registration hlog haction hactor hid =>
      exact .registration (List.mem_append_left _ hlog) haction hactor hid
  | @operation past rest authorization key path op m reply user hlog hsession hsigns hid =>
      have hmore : log ++ more
          = past ++ ⟨.authorized authorization (.post key path op), m, reply⟩ :: (rest ++ more) := by
        rw [hlog, List.append_assoc, List.cons_append]
      exact .operation hmore hsession hsigns hid

theorem Unforged.init {more : List Entry} (h : Unforged S (log ++ more)) : Unforged S log := by
  intro past rest authorization route m reply token payload hlog
  refine h past (rest ++ more) authorization route m reply token payload ?_
  rw [hlog, List.append_assoc, List.cons_append]

/-- The new entries of a request. -/
theorem serve_audit (a : Arrival) (m : Moment)
    (he : e ∈ (s.serve S m a).2.db.auditLog) :
    e ∈ s.db.auditLog
      ∨ (∃ data, a = .register data ∧ e.action = .userRegistered
        ∧ e.actorId = some (m.env.registered data).id ∧ e.requestId = m.env.requestId)
      ∨ ∃ authorization key path op caller user, a = .authorized authorization (.post key path op)
        ∧ S.subject m.wall authorization = .ok caller ∧ s.db.user caller = some user
        ∧ op.Signs user e ∧ e.requestId = m.env.requestId := by
  cases a with
  | register data =>
      change e ∈ (engine.request (handleRegister data) m.env m.faults s.db).2.auditLog at he
      rcases register_outcome data m.env m.faults s.db with h | ⟨_, h⟩
      · exact Or.inl (h ▸ he)
      · rw [h, auditLog_view] at he
        refine (List.mem_append.mp he).imp_right fun hnew => Or.inl ?_
        obtain rfl := List.mem_singleton.mp hnew
        exact ⟨data, rfl, rfl, rfl, rfl⟩
  | login request payload =>
      change e ∈ (s.login S m request payload).2.db.auditLog at he
      rw [login_state] at he
      exact Or.inl he
  | invalidLogin request detail =>
      change e ∈ (s.invalidLogin S m request detail).2.db.auditLog at he
      rw [(invalidLogin_state S s m request detail).1] at he
      exact Or.inl he
  | authorized authorization route =>
      cases hs : S.subject m.wall authorization with
      | error err =>
          rw [serve_authorized_error hs] at he
          exact Or.inl he
      | ok caller =>
          rw [serve_authorized_ok hs] at he
          change e ∈ (route.run caller m s.db).2.auditLog at he
          cases route with
          | me =>
              left
              rwa [show ((Route.me).run caller m s.db).2 = s.db from
                request_service (handleMe_service caller) ..] at he
          | read op =>
              left
              rwa [show ((Route.read op).run caller m s.db).2 = s.db from
                request_service (handleRead_service ⟨caller, op⟩) ..] at he
          | post key path op =>
              change e ∈ (engine.request (handle ⟨caller, key, path, op⟩) m.env m.faults
                s.db).2.auditLog at he
              rcases handle_cases ⟨caller, key, path, op⟩ m.env m.faults s.db with
                ⟨_, hrun⟩ | ⟨_, _, _, hrun⟩ | ⟨user, o, hx, hrun⟩
              · rw [hrun] at he
                exact Or.inl he
              · rw [hrun] at he
                exact Or.inl he
              · rw [hrun, auditLog_view] at he
                refine (List.mem_append.mp he).imp_right fun hnew => Or.inr ?_
                have hin : .insertAudit e ∈ o.writes ++ keyWrites ⟨caller, key, path, op⟩ user o.body :=
                  mem_insertedEntries.mp hnew
                have hwrites : .insertAudit e ∈ o.writes := by
                  refine (List.mem_append.mp hin).resolve_right fun hkey => ?_
                  -- the row of the key is no entry
                  unfold keyWrites at hkey
                  split at hkey
                  · exact absurd hkey List.not_mem_nil
                  · exact absurd (List.mem_singleton.mp hkey) (by simp)
                exact ⟨authorization, key, path, op, caller, user, rfl, hs, hx.caller,
                  hx.produces.signs hwrites, hx.produces.carry e hwrites⟩

end

/-- **Whom the audit log holds to account.**  Whatever the server is asked, as long as no
token is forged: every entry of the audit log goes back to a registration, or to an
operation that wrote an entry of its kind and was sent in a session of the user it
names. -/
theorem audit_accountable (S : Site) (hS : S.Lawful) (log : List Entry) (s : Server)
    (h : Served S log s) (hforge : Unforged S log) (hsalt : Salted S log) :
    ∀ e ∈ s.db.auditLog, Signed S log e := by
  induction h with
  | boot => exact fun e he => absurd he List.not_mem_nil
  | @serve log s hserved a m hf ih =>
      intro e he
      have hold : Salted S log :=
        fun data n reply he => hsalt data n reply (List.mem_append_left _ he)
      rcases serve_audit a m he with he | ⟨data, rfl, haction, hactor, hid⟩
        | ⟨authorization, key, path, op, caller, user, rfl, hs, hu, hsigns, hid⟩
      · exact (ih hforge.init hold e he).append _
      · exact .registration (List.mem_append_right _ (List.mem_singleton.mpr rfl)) haction hactor hid
      · obtain ⟨user', hu', _, hsession⟩ := hserved.session hS hforge hsalt rfl hs
        obtain rfl : user' = user := Option.some.inj (hu'.symm.trans hu)
        exact .operation rfl hsession hsigns hid

/-- The entry about the chairs was signed in a session. -/
theorem audit_accountable_chairs : ∃ e ∈ Server.withChairs.db.auditLog,
    e.action = .requestCreated ∧ Signed clearSite accountLog e := by
  have hactions : Server.withChairs.db.auditLog.map AuditLog.action
      = [.userRegistered, .requestCreated] := by
    unfold Server.withChairs
    rw [chairs_served]
    decide +kernel
  obtain ⟨e, he, haction⟩ : ∃ e ∈ Server.withChairs.db.auditLog, e.action = .requestCreated :=
    List.mem_map.mp (hactions ▸ by simp)
  exact ⟨e, he, haction, audit_accountable clearSite clearSite_lawful accountLog
    Server.withChairs account_served account_unforged account_salted e he⟩

end Procurement
