/-
  Procurement.Security.Guessing
  ─────────────────────────────
  **WHAT GUESSING PASSWORDS GETS.**

  The limiter stands in front of the login, and what it admits is a guess: it is
  answered with a token, or with "Invalid email or password".  In the log of a
  server the guesses are so as few as the limiter lets them be, whatever is served
  between them, and a login that fails tells nothing else.

      guesses_bounded   — at most the limit of guesses of a key for each window
      failures_alike    — the answer to a failed login, from what is known anyway
-/
import Procurement.Security.Sessions

namespace Procurement

open Procurement.Framework

/-! ## §1. The logins of a log. -/

/-- The answers that tell whether the password is right. -/
def tells : Except Error Delivered → Bool
  | .ok _ => true
  | .error e => decide (e = .http 401 "Invalid email or password")

/-- The call of the limiter that a request makes. -/
def Entry.call (e : Entry) : Option LoginCall :=
  match e.arrival with
  | .login request _ => some ⟨request, e.moment.tick⟩
  | .invalidLogin request _ => some ⟨request, e.moment.tick⟩
  | _ => none

/-- The calls of the limiter, oldest first. -/
def loginCalls (log : List Entry) : List LoginCall := log.filterMap Entry.call

/-- The calls whose login was answered with the truth about a password. -/
def guesses (log : List Entry) : List LoginCall :=
  (log.filter fun e => tells e.reply).filterMap Entry.call

/-! ## §2. One login. -/

section
variable {S : Site} {s : Server} {m : Moment} {request : LoginRequest} {payload : LoginIn}

/-- The answer to a login that has found this row. -/
def Site.loginWith (S : Site) (now : ℚ) (payload : LoginIn) (row : Option User) :
    Except Error TokenOut :=
  S.handOut now
    (row.filter fun user => verifyPassword S.bcrypt payload.password user.hashedPassword)

/-- **The login is a SELECT of the user and a decision.** -/
theorem handleLogin_eq (S : Site) (now : ℚ) (payload : LoginIn) : handleLogin S now payload
    = .call (.userByEmail payload.email) fun row => ended (S.loginWith now payload row) := by
  unfold handleLogin authenticateUser
  simp only [Program.send_bind, Program.call_bind]
  congr 1
  funext row
  unfold Site.loginWith
  cases row with
  | none => rfl
  | some user =>
      by_cases hv : verifyPassword S.bcrypt payload.password user.hashedPassword
      · simp only [hv, if_true, Option.filter]
        rfl
      · simp only [hv, Option.filter]
        rfl

/-- A program that has ended is executed. -/
theorem exec_ended {α : Type} (o : Except Error α) (st : Framework.Session Db Write Env) :
    engine.exec (ended o) st = (o, st) := by
  cases o with
  | ok a => rfl
  | error e => rfl

/-- The session of a login is one SELECT, and what it answers is seen there. -/
theorem handleLogin_request (S : Site) (now : ℚ) (payload : LoginIn) (env : Env) (f : Nat → Bool)
    (db : Db) : (engine.request (handleLogin S now payload) env f db).1
      = if f 0 then .error .server else db.loginAnswer S now payload := by
  rw [handleLogin_eq]
  unfold Engine.request
  simp only [Engine.exec]
  cases hf : f 0 with
  | true =>
      simp only [if_true]
      rfl
  | false =>
      simp only [Bool.false_eq_true, if_false]
      show (engine.exec (ended (S.loginWith now payload (db.userByEmail payload.email))) _).1 = _
      rw [exec_ended]
      rfl

/-- The answer of a refused call. -/
def refusalOf (settings : Settings) (past : List LoginCall) (c : LoginCall) : Except Error Delivered :=
  .error (refusal .float settings c.now
    (bucketAt settings c.key c.now (hitsAfter settings past))).error

/-- **The limiter behind the calls `past`**: it lets the call pass or refuses it, and
has one more to count. -/
theorem rateLimitLogin_after (settings : Settings) (past : List LoginCall) (c : LoginCall) :
    rateLimitLogin .float settings c.request c.now (hitsAfter settings past)
      = (if Passes settings past c then .ok ()
          else .error (refusal .float settings c.now
            (bucketAt settings c.key c.now (hitsAfter settings past))),
        hitsAfter settings (past ++ [c])) := by
  have hhits : (rateLimitLogin .float settings c.request c.now (hitsAfter settings past)).2
      = hitsAfter settings (past ++ [c]) := by
    unfold hitsAfter
    rw [List.foldl_append]
    rfl
  refine Prod.ext ?_ hhits
  show (limitLocked .float settings c.key c.now (hitsAfter settings past)).1 = _
  by_cases hp : Passes settings past c
  · rw [limitLocked_of_lt _ _ _ _ _ (passes_iff.mp hp), if_pos hp]
  · rw [limitLocked_of_le _ _ _ _ _ (not_lt.mp fun hlt => hp (passes_iff.mpr hlt)), if_neg hp]

/-- What a login is answered behind the calls `past` of the limiter. -/
theorem login_reply {past : List LoginCall} (hs : s.hits = hitsAfter S.settings past) :
    (s.serve S m (.login request payload)).1
      = if Passes S.settings past ⟨request, m.tick⟩ then
          (if m.faults 0 then .error .server else s.db.loginAnswer S m.wall payload).map .token
        else refusalOf S.settings past ⟨request, m.tick⟩ := by
  show (s.login S m request payload).1 = _
  unfold Server.login
  rw [hs, rateLimitLogin_after S.settings past ⟨request, m.tick⟩,
    ← handleLogin_request S m.wall payload m.env]
  by_cases hp : Passes S.settings past ⟨request, m.tick⟩
  · rw [if_pos hp, if_pos hp]
  · rw [if_neg hp, if_neg hp]
    rfl

/-- What a login that validation refuses is answered behind the calls `past`. -/
theorem invalidLogin_reply {past : List LoginCall} (hs : s.hits = hitsAfter S.settings past)
    (detail : String) : (s.serve S m (.invalidLogin request detail)).1
      = if Passes S.settings past ⟨request, m.tick⟩ then .error (.http 422 detail)
        else refusalOf S.settings past ⟨request, m.tick⟩ := by
  show (s.invalidLogin S m request detail).1 = _
  unfold Server.invalidLogin
  rw [hs, rateLimitLogin_after S.settings past ⟨request, m.tick⟩]
  by_cases hp : Passes S.settings past ⟨request, m.tick⟩
  · rw [if_pos hp, if_pos hp]
  · rw [if_neg hp, if_neg hp]
    rfl

/-- A refused call is not taken for a guess. -/
theorem tells_refusalOf (past : List LoginCall) (c : LoginCall) :
    tells (refusalOf S.settings past c) = false := by
  unfold refusalOf refusal
  split
  · simp [tells, LimiterError.error]
  · split <;> simp [tells, LimiterError.error]

/-- Nor is a login that validation refuses. -/
theorem tells_invalidLogin {past : List LoginCall} (hs : s.hits = hitsAfter S.settings past)
    (detail : String) : tells (s.serve S m (.invalidLogin request detail)).1 = false := by
  rw [invalidLogin_reply hs]
  split
  · simp [tells]
  · exact tells_refusalOf past _

/-- Whatever is asked, the deques change as the limiter's calls change them. -/
theorem serve_hits {past : List LoginCall} (hs : s.hits = hitsAfter S.settings past)
    (a : Arrival) : (s.serve S m a).2.hits
      = hitsAfter S.settings (past ++ (s.entry S a m).call.toList) := by
  cases a with
  | register data =>
      show s.hits = hitsAfter S.settings (past ++ [])
      rw [hs, List.append_nil]
  | login request payload =>
      show (s.login S m request payload).2.hits = hitsAfter S.settings (past ++ [⟨request, m.tick⟩])
      unfold Server.login
      rw [hs, rateLimitLogin_after S.settings past ⟨request, m.tick⟩]
      split <;> next heq => exact (congrArg Prod.snd heq).symm
  | invalidLogin request detail =>
      show (s.invalidLogin S m request detail).2.hits
        = hitsAfter S.settings (past ++ [⟨request, m.tick⟩])
      unfold Server.invalidLogin
      rw [hs, rateLimitLogin_after S.settings past ⟨request, m.tick⟩]
      split <;> next heq => exact (congrArg Prod.snd heq).symm
  | authorized authorization route =>
      have hsame : (s.authorized S m authorization route).2.hits = s.hits := by
        unfold Server.authorized
        cases S.subject m.wall authorization with
        | error e => rfl
        | ok caller => rfl
      show (s.authorized S m authorization route).2.hits = hitsAfter S.settings (past ++ [])
      rw [hsame, hs, List.append_nil]

/-! ## §3. The log. -/

variable {log past rest : List Entry} {reply : Except Error Delivered}

/-- The calls of a log with one more request. -/
theorem loginCalls_concat (log : List Entry) (e : Entry) :
    loginCalls (log ++ [e]) = loginCalls log ++ e.call.toList := by
  unfold loginCalls
  rw [List.filterMap_append]
  cases hc : e.call <;> simp [hc]

/-- And its guesses. -/
theorem guesses_concat (log : List Entry) (e : Entry) :
    guesses (log ++ [e]) = guesses log ++ if tells e.reply then e.call.toList else [] := by
  unfold guesses
  rw [List.filter_append, List.filterMap_append]
  cases ht : tells e.reply
  · simp [ht]
  · cases hc : e.call <;> simp [ht, hc]

/-- The deques are those of the log. -/
theorem Served.hits (h : Served S log s) : s.hits = hitsAfter S.settings (loginCalls log) := by
  induction h with
  | boot => rfl
  | serve _ a m _ ih => rw [loginCalls_concat, serve_hits ih]

theorem sublist_of_ite {α : Type} (b : Bool) (l : List α) : (if b then l else []).Sublist l := by
  cases b with
  | true => exact List.Sublist.refl l
  | false => exact List.nil_sublist l

/-- There are tokens to be handed out at this moment: their expiry is a moment, too, and
the ids of the users can be printed. -/
structure Site.Issues (S : Site) (now : ℚ) (users : List User) : Prop where
  expiry : (S.expiry now).isSome
  ids : ∀ user ∈ users, (pyStr user.id).isSome

/-- Then everybody who is found gets one. -/
theorem Site.Issues.tokenFor {now : ℚ} {users : List User} (h : S.Issues now users) {user : User}
    (hu : user ∈ users) : ∃ token, S.tokenFor now user = .ok token := by
  obtain ⟨exp, hexp⟩ := Option.isSome_iff_exists.mp h.expiry
  obtain ⟨subject, hsub⟩ := Option.isSome_iff_exists.mp (h.ids user hu)
  exact ⟨_, Site.tokenFor_iff.mpr ⟨subject, exp, hsub, hexp, rfl⟩⟩

/-- **The answer to a login that hands out nothing**, from what everybody knows. -/
theorem Served.failure (h : Served S log s)
    (hlog : log = past ++ ⟨.login request payload, m, reply⟩ :: rest)
    (hissues : S.Issues m.wall s.db.users) (hfails : ∀ out, reply ≠ .ok out) :
    reply = if Passes S.settings (loginCalls past) ⟨request, m.tick⟩ then
        .error (if m.faults 0 then .server else .http 401 "Invalid email or password")
      else refusalOf S.settings (loginCalls past) ⟨request, m.tick⟩ := by
  obtain ⟨s₀, h₀, hf₀, hentry, hrun⟩ := h.split hlog
  have hreply : reply = (s₀.serve S m (.login request payload)).1 := congrArg Entry.reply hentry
  rw [login_reply h₀.hits] at hreply
  by_cases hp : Passes S.settings (loginCalls past) ⟨request, m.tick⟩
  · rw [if_pos hp] at hreply ⊢
    cases hf : m.faults 0 with
    | true =>
        rw [hf] at hreply
        exact hreply
    | false =>
        rw [hf] at hreply
        unfold Db.loginAnswer at hreply
        cases hu : s₀.db.loggedIn S payload with
        | none =>
            rw [hu] at hreply
            exact hreply
        | some user =>
            -- his token could have been handed out
            have hsteps : Relation.ReflTransGen Step s₀.db s.db :=
              Relation.ReflTransGen.trans (Serves.steps ⟨_, m, hf₀, rfl⟩) (steps_of_serves hrun)
            have hmem : user ∈ s.db.users :=
              (users_prefix_of_run hsteps).subset (lookup_mem (Db.loggedIn_iff.mp hu).1)
            obtain ⟨token, ht⟩ := hissues.tokenFor hmem
            rw [hu, show S.handOut m.wall (some user) = .ok token from ht] at hreply
            exact absurd hreply (hfails _)
  · rw [if_neg hp] at hreply ⊢
    exact hreply

/-- **Guesses are admitted calls**, in their order. -/
theorem Served.guesses_sublist (h : Served S log s) :
    (guesses log).Sublist (admittedCalls S.settings (loginCalls log)) := by
  induction h with
  | boot => exact List.Sublist.refl _
  | @serve log s hserved a m _ ih =>
      rw [guesses_concat, loginCalls_concat]
      cases a with
      | login request payload =>
          show (guesses log ++ if tells (s.serve S m (.login request payload)).1 then
            [(⟨request, m.tick⟩ : LoginCall)] else []).Sublist
              (admittedCalls S.settings (loginCalls log ++ [(⟨request, m.tick⟩ : LoginCall)]))
          rw [admittedCalls_concat, login_reply hserved.hits]
          refine ih.append ?_
          by_cases hp : Passes S.settings (loginCalls log) ⟨request, m.tick⟩
          · rw [if_pos hp, if_pos hp]
            exact sublist_of_ite _ _
          · simp only [if_neg hp, tells_refusalOf, Bool.false_eq_true, if_false]
            exact List.Sublist.refl _
      | invalidLogin request detail =>
          show (guesses log ++ if tells (s.serve S m (.invalidLogin request detail)).1 then
            [(⟨request, m.tick⟩ : LoginCall)] else []).Sublist
              (admittedCalls S.settings (loginCalls log ++ [(⟨request, m.tick⟩ : LoginCall)]))
          rw [admittedCalls_concat, tells_invalidLogin hserved.hits]
          exact ih.append (List.nil_sublist _)
      | register data =>
          have hnone : (s.entry S (.register data) m).call = none := rfl
          rw [hnone]
          simpa using ih
      | authorized authorization route =>
          have hnone : (s.entry S (.authorized authorization route) m).call = none := rfl
          rw [hnone]
          simpa using ih

end

/-! ## §4. A strict site. -/

/-- One login each minute. -/
def strictSite : Site := { clearSite with settings := ⟨1, 60⟩ }

/-- A moment of the state `db`, by the clock of the limiter. -/
def tickAt (db : Db) (tick : ℚ) : Moment := { momentAt db 0 with tick }

theorem tickAt_fresh (db : Db) (tick : ℚ) : Fresh (tickAt db tick).env db := momentAt_fresh db 0

/-- A guess at the password of "client@example.com". -/
def guessIn : LoginIn := ⟨"client@example.com", "guess"⟩

def Server.guessed (s : Server) (tick : ℚ) : Server :=
  (s.serve strictSite (tickAt s.db tick) (.login ⟨none, none⟩ guessIn)).2

def Server.guess (s : Server) (tick : ℚ) : Entry :=
  s.entry strictSite (.login ⟨none, none⟩ guessIn) (tickAt s.db tick)

/-- Three guesses in a little more than a minute. -/
def guessLog : List Entry :=
  [Server.boot.guess 0, (Server.boot.guessed 0).guess 30,
    ((Server.boot.guessed 0).guessed 30).guess 61]

theorem guessLog_served :
    Served strictSite guessLog (((Server.boot.guessed 0).guessed 30).guessed 61) :=
  ((Served.boot.serve _ _ (tickAt_fresh _ 0)).serve _ _ (tickAt_fresh _ 30)).serve _ _
    (tickAt_fresh _ 61)

/-- The account has been registered, and somebody guesses. -/
def accountGuessLog : List Entry :=
  [Server.boot.entry strictSite (.register ordinaryAccount) (momentAt Db.empty 0),
    Server.withAccount.guess 0]

theorem accountGuessLog_served : Served strictSite accountGuessLog (Server.withAccount.guessed 0) :=
  (Served.boot.serve (.register ordinaryAccount) _ (momentAt_fresh Db.empty 0)).serve _ _
    (tickAt_fresh _ 0)

/-! ## §5. How many, and what they tell. -/

/-- **Guessing is slow.**  Whatever is served in between: of the logins of one key, in
any interval of some windows, at most the limit for each window is answered with the
truth about a password. -/
theorem guesses_bounded (S : Site) (log : List Entry) (s : Server) (h : Served S log s)
    (hlimit : 1 ≤ S.settings.loginRateLimit) (hclock : InOrder (loginCalls log)) (k : String)
    (a : ℚ) (n : ℕ) :
    ((inInterval LoginCall.now ((n + 1) • S.settings.window) a
      ((guesses log).filter fun c => c.key = k)).length : ℤ)
        ≤ (n + 1) * S.settings.loginRateLimit := by
  have hwindow : ∀ a, ((inInterval LoginCall.now S.settings.window a
      ((admittedCalls S.settings (loginCalls log)).filter fun c => c.key = k)).length : ℤ)
        ≤ S.settings.loginRateLimit := by
    intro a
    rw [(admittedCalls_eq S.settings hclock).1]
    exact admitted_inInterval (le_trans (by norm_num) hlimit) k a _
  refine le_trans ?_ (inInterval_windows_le hwindow n a)
  have hsub := (h.guesses_sublist.filter fun c => decide (c.key = k)).filter
    fun c => decide (a ≤ c.now ∧ c.now ≤ a + (n + 1) • S.settings.window)
  exact_mod_cast hsub.length_le

/-- Two of three guesses are answered, and one of them in the first minute. -/
theorem guesses_bounded_strict :
    (guesses guessLog).map LoginCall.now = [0, 61]
      ∧ ((inInterval LoginCall.now ((0 + 1) • strictSite.settings.window) 0
          ((guesses guessLog).filter fun c => c.key = "unknown")).length : ℤ)
            ≤ ((0 : ℕ) + 1) * strictSite.settings.loginRateLimit :=
  ⟨by decide +kernel, guesses_bounded strictSite guessLog _ guessLog_served (by decide)
    (by decide +kernel) "unknown" 0 0⟩

/-- **A failed login tells that it has failed.**  In the logs of two servers, of any
users and any traffic, with the same logins before as the limiter sees them: two logins
with the same source, clock and faults that hand out no token are answered alike,
whatever their emails and passwords are, and whoever is registered, as long as there are
tokens to be handed out at their moments. -/
theorem failures_alike (S : Site) (log log' past past' rest rest' : List Entry) (s s' : Server)
    (h : Served S log s) (h' : Served S log' s') (request : LoginRequest)
    (payload payload' : LoginIn) (m m' : Moment) (reply reply' : Except Error Delivered)
    (hlog : log = past ++ ⟨.login request payload, m, reply⟩ :: rest)
    (hlog' : log' = past' ++ ⟨.login request payload', m', reply'⟩ :: rest')
    (hcalls : loginCalls past = loginCalls past') (htick : m.tick = m'.tick)
    (hfaults : m.faults 0 = m'.faults 0) (hissues : S.Issues m.wall s.db.users)
    (hissues' : S.Issues m'.wall s'.db.users) (hfails : ∀ out, reply ≠ .ok out)
    (hfails' : ∀ out, reply' ≠ .ok out) : reply = reply' := by
  rw [h.failure hlog hissues hfails, h'.failure hlog' hissues' hfails', hcalls, htick, hfaults]

theorem guess_fails (s : Server) (h : s = Server.boot ∨ s = Server.withAccount) (out : Delivered) :
    (s.guess 0).reply ≠ .ok out := by
  have hfails : (s.guess 0).reply.toOption.isSome = false := by
    rcases h with rfl | rfl <;> decide +kernel
  intro hok
  rw [hok] at hfails
  exact absurd hfails (by simp [Except.toOption])

/-- The password of an account, and an account that does not exist. -/
theorem failures_alike_account : (Server.boot.guess 0).reply = (Server.withAccount.guess 0).reply :=
  failures_alike strictSite guessLog accountGuessLog []
    [Server.boot.entry strictSite (.register ordinaryAccount) (momentAt Db.empty 0)] _ [] _ _
    guessLog_served accountGuessLog_served ⟨none, none⟩ guessIn guessIn (tickAt _ 0) (tickAt _ 0)
    _ _ rfl rfl rfl rfl rfl ⟨by decide +kernel, by decide +kernel⟩
    ⟨by decide +kernel, by decide +kernel⟩ (guess_fails _ (Or.inl rfl)) (guess_fails _ (Or.inr rfl))

end Procurement
