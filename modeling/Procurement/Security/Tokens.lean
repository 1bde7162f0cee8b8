/-
  Procurement.Security.Tokens
  ───────────────────────────
  **THE SERVER BEHIND ITS TOKENS** (`security.py`, `deps.py`, `routers/auth.py`).

  A login hands out a token that names its user and two moments.  Every other
  request but a registration has to carry one; the caller is whoever it names,
  and the row of that user decides what he may do.  The libraries are parameters,
  with what the code relies on in `Site.Lawful`.

  `session_window`: a token is good from the second it was issued in to the end of
  its lifetime, in whatever state the server is by then, and a request that carries
  it is the request of the user whose stored hash the password was checked against.
-/
import Procurement.Framework.JsonTexts
import Procurement.Security.Confidentiality
import Procurement.Security.Passwords
import Procurement.Security.RateLimit

namespace Procurement

open Procurement.Framework
open Procurement.Framework.Program

/-! ## §1. `str` and `int` of an id. -/

/-- The zeros of the decimal digits of Unicode 15 outside ASCII. -/
def otherZeros : List Nat :=
  [0x660, 0x6F0, 0x7C0, 0x966, 0x9E6, 0xA66, 0xAE6, 0xB66, 0xBE6, 0xC66, 0xCE6, 0xD66, 0xDE6,
   0xE50, 0xED0, 0xF20, 0x1040, 0x1090, 0x17E0, 0x1810, 0x1946, 0x19D0, 0x1A80, 0x1A90, 0x1B50,
   0x1BB0, 0x1C40, 0x1C50, 0xA620, 0xA8D0, 0xA900, 0xA9D0, 0xA9F0, 0xAA50, 0xABF0, 0xFF10, 0x104A0,
   0x10D30, 0x11066, 0x110F0, 0x11136, 0x111D0, 0x112F0, 0x11450, 0x114D0, 0x11650, 0x116C0,
   0x11730, 0x118E0, 0x11950, 0x11C50, 0x11D50, 0x11DA0, 0x11F50, 0x16A60, 0x16AC0, 0x16B50,
   0x1D7CE, 0x1D7D8, 0x1D7E2, 0x1D7EC, 0x1D7F6, 0x1E140, 0x1E2F0, 0x1E4F0, 0x1E950, 0x1FBF0]

def digitValue (c : Char) : Option Nat :=
  ((0x30 :: otherZeros).find? fun z => z ≤ c.toNat && c.toNat < z + 10).map fun z => c.toNat - z

/-- The digits behind the first one.  One underscore may stand in front of each. -/
def digitsFrom (n : Nat) : List Char → Option Nat
  | [] => some n
  | [c] => (digitValue c).map fun k => 10 * n + k
  | c :: d :: cs =>
      if c = '_' then (digitValue d).bind fun k => digitsFrom (10 * n + k) cs
      else (digitValue c).bind fun k => digitsFrom (10 * n + k) (d :: cs)

/-- `sys.get_int_max_str_digits()`: longer texts of integers are neither read nor made. -/
def maxStrDigits : Nat := 4300

/-- The digits of a text, without its underscores. -/
def digitsOf (cs : List Char) : List Char := cs.filter fun c => c ≠ '_'

def natural : List Char → Option Nat
  | [] => none
  | c :: cs =>
      if (digitsOf (c :: cs)).length ≤ maxStrDigits then
        (digitValue c).bind fun k => digitsFrom k cs
      else none

/-- What `int` skips around a number.  U+001C to U+001F are blanks for `str` alone. -/
def isBlank (c : Char) : Bool := isSpace c && !(0x1C ≤ c.toNat && c.toNat ≤ 0x1F)

def trim (cs : List Char) : List Char :=
  ((cs.dropWhile isBlank).reverse.dropWhile isBlank).reverse

/-- `int(text)`; `none` is its `ValueError`. -/
def toInt (text : String) : Option Int :=
  match trim text.toList with
  | '-' :: cs => (natural cs).map fun (n : Nat) => -(n : Int)
  | '+' :: cs => (natural cs).map Int.ofNat
  | cs => (natural cs).map Int.ofNat

/-- `str(i)`; `none` is its `ValueError`. -/
def pyStr (i : Int) : Option String :=
  if (Nat.toDigits 10 i.natAbs).length ≤ maxStrDigits then some (toString i) else none

/-- A digit of ASCII is worth its distance from `0`. -/
theorem digitValue_ascii {c : Char} (h : c.isDigit = true) : digitValue c = some (c.toNat - 48) := by
  obtain ⟨h0, h9⟩ := Char.isDigit_iff_toNat.mp h
  have hfirst : (decide (0x30 ≤ c.toNat) && decide (c.toNat < 0x30 + 10)) = true := by
    rw [Bool.and_eq_true, decide_eq_true_iff, decide_eq_true_iff]
    change 48 ≤ c.toNat at h0
    change c.toNat ≤ 57 at h9
    omega
  unfold digitValue
  rw [List.find?_cons, hfirst]
  rfl

/-- ASCII digits are read as the number they stand for. -/
theorem digitsFrom_ascii (ds : List Char) (h : ∀ c ∈ ds, c.isDigit = true) :
    ∀ n, digitsFrom n ds = some (Nat.ofDigitChars 10 ds n) := by
  induction ds with
  | nil => exact fun n => (congrArg some Nat.ofDigitChars_nil).symm
  | cons c cs ih =>
      intro n
      have hc : c.isDigit = true := h c List.mem_cons_self
      rw [Nat.ofDigitChars_cons]
      cases cs with
      | nil =>
          rw [Nat.ofDigitChars_nil]
          show (digitValue c).map _ = _
          rw [digitValue_ascii hc]
          rfl
      | cons d cs =>
          have hbar : c ≠ '_' := Json.digit_apart hc (by decide)
          unfold digitsFrom
          rw [if_neg hbar, digitValue_ascii hc]
          exact ih (fun e he => h e (List.mem_cons_of_mem _ he)) _

/-- Printed digits have no underscores. -/
theorem digitsOf_toDigits (n : Nat) : digitsOf (Nat.toDigits 10 n) = Nat.toDigits 10 n := by
  refine List.filter_eq_self.mpr fun c hc => ?_
  exact decide_eq_true (Json.digit_apart (Json.isDigit_toDigits c hc) (by decide))

/-- A number is read from its digits, if they are not too many. -/
theorem natural_toDigits {n : Nat} (h : (Nat.toDigits 10 n).length ≤ maxStrDigits) :
    natural (Nat.toDigits 10 n) = some n := by
  have hfew := h
  rw [← digitsOf_toDigits] at hfew
  have hall := @Json.isDigit_toDigits n
  obtain ⟨c, ds, hds, hc⟩ := Json.toDigits_head n
  have hvalue : Nat.ofDigitChars 10 (c :: ds) 0 = n := by
    rw [← hds]
    exact Nat.ofDigitChars_ten_toDigits
  rw [hds] at hall hfew ⊢
  refine (if_pos hfew).trans ?_
  rw [digitValue_ascii hc]
  refine (digitsFrom_ascii ds (fun e he => hall e (List.mem_cons_of_mem _ he)) _).trans ?_
  rw [Nat.ofDigitChars_cons, Nat.mul_zero, Nat.zero_add] at hvalue
  exact congrArg some hvalue

/-- A character of a printed integer is no blank. -/
theorem isBlank_of_printed {c : Char} (h : c = '-' ∨ c.isDigit = true) : isBlank c = false := by
  have hrange : 45 ≤ c.toNat ∧ c.toNat ≤ 57 := by
    rcases h with rfl | h
    · decide
    · obtain ⟨h0, h9⟩ := Char.isDigit_iff_toNat.mp h
      change 48 ≤ c.toNat at h0
      change c.toNat ≤ 57 at h9
      omega
  have hspace : isSpace c = false := by
    unfold isSpace
    simp
    omega
  unfold isBlank
  rw [hspace, Bool.false_and]

/-- There is nothing to trim where no character is a blank. -/
theorem trim_of_solid {cs : List Char} (h : ∀ c ∈ cs, isBlank c = false) : trim cs = cs := by
  have hfront : ∀ ds : List Char, (∀ c ∈ ds, isBlank c = false) → ds.dropWhile isBlank = ds := by
    intro ds hds
    cases ds with
    | nil => rfl
    | cons c ds => rw [List.dropWhile_cons, hds c List.mem_cons_self]; rfl
  unfold trim
  rw [hfront cs h, hfront cs.reverse fun c hc => h c (List.mem_reverse.mp hc), List.reverse_reverse]

/-- A negative integer is printed behind its sign. -/
theorem renderInt_negSucc (n : Nat) :
    Json.renderInt (Int.negSucc n) = '-' :: Nat.toDigits 10 (n + 1) := by
  unfold Json.renderInt
  rw [decide_eq_true (Int.negSucc_lt_zero n)]
  rfl

/-- `toString` of an integer is how JSON prints it. -/
theorem toString_int (i : Int) : (toString i).toList = Json.renderInt i := by
  cases i with
  | ofNat n =>
      show (Nat.repr n).toList = _
      rw [Nat.toList_repr]
      rfl
  | negSucc n =>
      rw [renderInt_negSucc]
      show ("-" ++ Nat.repr (n + 1)).toList = _
      rw [String.toList_append, Nat.toList_repr]
      rfl

/-- **`int(str(i))` is `i`**, where there is a `str(i)`. -/
theorem toInt_pyStr {i : Int} {text : String} (h : pyStr i = some text) : toInt text = some i := by
  unfold pyStr at h
  split at h
  · next hfew =>
      obtain rfl := Option.some.inj h
      have hsolid : ∀ c ∈ Json.renderInt i, isBlank c = false := by
        intro c hc
        refine isBlank_of_printed ?_
        unfold Json.renderInt Json.sign at hc
        rcases List.mem_append.mp hc with hc | hc
        · left
          split at hc
          · exact List.mem_singleton.mp hc
          · exact absurd hc List.not_mem_nil
        · exact Or.inr (Json.isDigit_toDigits c hc)
      unfold toInt
      rw [toString_int, trim_of_solid hsolid]
      cases i with
      | ofNat n =>
          show (match Nat.toDigits 10 n with
            | '-' :: cs => _
            | '+' :: cs => _
            | cs => _) = _
          obtain ⟨c, ds, hds, hc⟩ := Json.toDigits_head n
          have hminus : c ≠ '-' := Json.digit_apart hc (by decide)
          have hplus : c ≠ '+' := Json.digit_apart hc (by decide)
          have hvalue := natural_toDigits (n := n) hfew
          rw [hds] at hvalue ⊢
          split
          · next heq => exact absurd (List.cons.inj heq).1 hminus
          · next heq => exact absurd (List.cons.inj heq).1 hplus
          · rw [hvalue]
            rfl
      | negSucc n =>
          rw [renderInt_negSucc]
          show (natural (Nat.toDigits 10 (n + 1))).map _ = _
          rw [natural_toDigits (n := n + 1) hfew]
          rfl
  · exact absurd h (by simp)

/-! ## §2. Tokens. -/

/-- The payload of `create_access_token`. -/
structure Claims where
  sub : String
  role : String
  iat : Int
  exp : Int
  deriving DecidableEq, Repr

/-- What the code reads of a decoded payload: `sub`, which may be missing. -/
structure Payload where
  sub : Option String
  deriving DecidableEq, Repr

/-- The two functions of the library, with the secret and the algorithm of the
settings.  `decode` reads the clock; `none` is a `PyJWTError`. -/
structure Jwt where
  encode : Claims → String
  decode : ℚ → String → Option Payload

/-- A token decodes from the second it was issued in until it expires. -/
structure Jwt.Lawful (J : Jwt) : Prop where
  decode_encode : ∀ now claims, J.decode now (J.encode claims)
    = if (claims.iat : ℚ) ≤ now ∧ now < claims.exp then some ⟨some claims.sub⟩ else none

/-- What the code finds outside: the libraries and the settings.  `bearer` is
`OAuth2PasswordBearer`, from the header `Authorization` to a token; `none` is its
refusal. -/
structure Site where
  bcrypt : Bcrypt
  jwt : Jwt
  bearer : Option String → Option String
  settings : Settings
  accessTokenExpireMinutes : Int := 60

structure Site.Lawful (S : Site) : Prop where
  bcrypt : S.bcrypt.Lawful
  jwt : S.jwt.Lawful
  bearer : ∀ token, S.bearer (some ("Bearer " ++ token)) = some token

namespace Site

variable (S : Site)

/-- `int((now + timedelta(minutes=…)).timestamp())`.  A `datetime` has a year from 1 to
9999; `none` is the `OverflowError` of every other sum. -/
def expiry (now : ℚ) : Option Int :=
  let moment := now + 60 * S.accessTokenExpireMinutes
  if -62135596800 ≤ moment ∧ moment < 253402300800 then some (truncate moment) else none

/-- `none` is the `OverflowError` of the expiry. -/
def createAccessToken (now : ℚ) (subject role : String) : Option String :=
  (S.expiry now).map fun exp => S.jwt.encode { sub := subject, role, iat := truncate now, exp }

def decodeAccessToken (now : ℚ) (token : String) : Option Payload := S.jwt.decode now token

/-- The caller, as far as `get_current_user` knows him before it asks the database:
a `PyJWTError`, a `KeyError` and a `ValueError` are one answer. -/
def subject (now : ℚ) (authorization : Option String) : Except Error Id :=
  match S.bearer authorization with
  | none => .error (.http 401 "Not authenticated")
  | some token =>
      match (S.decodeAccessToken now token).bind fun payload => payload.sub.bind toInt with
      | none => .error (.http 401 "Could not validate credentials")
      | some userId => .ok userId

end Site

/-! ## §3. The login. -/

structure LoginIn where
  email : String
  password : String

structure TokenOut where
  accessToken : String
  tokenType : String := "bearer"
  deriving DecidableEq, Repr

/-- What a user is handed out.  Neither the `ValueError` of `str(user.id)` nor the
`OverflowError` of the token is caught. -/
def Site.tokenFor (S : Site) (now : ℚ) (user : User) : Except Error TokenOut :=
  match (pyStr user.id).bind fun subject => S.createAccessToken now subject user.role.value with
  | none => .error .server
  | some accessToken => .ok { accessToken }

/-- `POST /auth/login`, behind the limiter. -/
def handleLogin (S : Site) (now : ℚ) (payload : LoginIn) : Prog TokenOut := do
  let user ← authenticateUser S.bcrypt payload.email payload.password
  match user with
  | none => raise (.http 401 "Invalid email or password")
  | some user => ended (S.tokenFor now user)

/-- Who logs in with these credentials. -/
def Db.loggedIn (db : Db) (S : Site) (payload : LoginIn) : Option User :=
  (db.userByEmail payload.email).filter fun user =>
    verifyPassword S.bcrypt payload.password user.hashedPassword

/-- The answer to who has been found. -/
def Site.handOut (S : Site) (now : ℚ) : Option User → Except Error TokenOut
  | none => .error (.http 401 "Invalid email or password")
  | some user => S.tokenFor now user

def Db.loginAnswer (db : Db) (S : Site) (now : ℚ) (payload : LoginIn) : Except Error TokenOut :=
  S.handOut now (db.loggedIn S payload)

/-- A token is handed out to somebody, and is his. -/
theorem Site.handOut_ok {S : Site} {now : ℚ} {found : Option User} {token : TokenOut}
    (h : S.handOut now found = .ok token) :
    ∃ user, found = some user ∧ S.tokenFor now user = .ok token := by
  cases found with
  | none => exact absurd h (by simp [Site.handOut])
  | some user => exact ⟨user, rfl, h⟩

/-- **The login is one SELECT**, and `loginAnswer` is what it answers. -/
theorem handleLogin_gets (S : Site) (now : ℚ) (payload : LoginIn) (env : Env) (db : Db) :
    Gets db env (handleLogin S now payload) (ended (db.loginAnswer S now payload)) := by
  unfold handleLogin authenticateUser Db.loginAnswer Db.loggedIn
  simp only [send_bind, call_bind]
  refine Gets.select (r := db.userByEmail payload.email) rfl rfl rfl ?_
  cases db.userByEmail payload.email with
  | none => exact .refl _
  | some user =>
      by_cases hv : verifyPassword S.bcrypt payload.password user.hashedPassword
      · simp only [hv, if_true, Option.filter]
        exact .refl _
      · simp only [hv, Option.filter]
        exact .refl _

/-- A login writes nothing. -/
theorem handleLogin_service (S : Site) (now : ℚ) (payload : LoginIn) :
    Service (handleLogin S now payload) := by
  refine ⟨rfl, fun user => ?_⟩
  cases user with
  | none => trivial
  | some user =>
      show Service ((if _ then _ else _) >>= _)
      split
      · show Service (ended (S.tokenFor now user))
        cases S.tokenFor now user <;> trivial
      · trivial

/-! ## §4. The server. -/

/-- The committed state, and the deques of the limiter. -/
structure Server where
  db : Db
  hits : Hits

/-- The routes for an authenticated caller. -/
inductive Route where
  | me
  | read (op : ReadOp)
  | post (key : Option String) (path : String) (op : Op)

/-- The requests, as validation lets them through.  `invalidLogin` is a login whose fields
it refuses, which comes behind the limiter, with the `detail` of the refusal. -/
inductive Arrival where
  | register (data : RegisterIn)
  | login (request : LoginRequest) (payload : LoginIn)
  | invalidLogin (request : LoginRequest) (detail : String)
  | authorized (authorization : Option String) (route : Route)

/-- What a request finds while it is served: the clocks `datetime.now` and
`time.monotonic`, what the database generates, and the faults. -/
structure Moment where
  wall : ℚ
  tick : ℚ
  env : Env
  faults : Nat → Bool

inductive Delivered where
  | user (out : UserOut)
  | token (out : TokenOut)
  | body (body : ReadBody)
  | response (response : Response)
  deriving DecidableEq, Repr

/-- The route in its own session, for a caller whose token was good. -/
def Route.run (route : Route) (caller : Id) (m : Moment) (db : Db) : Except Error Delivered × Db :=
  match route with
  | .me =>
      let (o, db') := engine.request (handleMe caller) m.env m.faults db
      (o.map .user, db')
  | .read op =>
      let (o, db') := engine.request (handleRead ⟨caller, op⟩) m.env m.faults db
      (o.map .body, db')
  | .post key path op =>
      let (o, db') := engine.request (handle ⟨caller, key, path, op⟩) m.env m.faults db
      (o.map .response, db')

/-- What the limiter raises, as an answer. -/
def LimiterError.error : LimiterError → Error
  | .http status detail _ => .http status detail
  | .indexError => .server
  | .overflowError => .server

namespace Server

/-- `POST /auth/login`: the limiter runs first. -/
def login (S : Site) (s : Server) (m : Moment) (request : LoginRequest) (payload : LoginIn) :
    Except Error Delivered × Server :=
  match rateLimitLogin .float S.settings request m.tick s.hits with
  | (.error e, hits) => (.error e.error, { s with hits })
  | (.ok _, hits) =>
      let (o, db') := engine.request (handleLogin S m.wall payload) m.env m.faults s.db
      (o.map .token, ⟨db', hits⟩)

/-- `POST /auth/login` with fields that are not those of a `LoginIn`: the dependencies
are solved before the body is validated. -/
def invalidLogin (S : Site) (s : Server) (m : Moment) (request : LoginRequest) (detail : String) :
    Except Error Delivered × Server :=
  match rateLimitLogin .float S.settings request m.tick s.hits with
  | (.error e, hits) => (.error e.error, { s with hits })
  | (.ok _, hits) => (.error (.http 422 detail), { s with hits })

/-- A request that needs a token. -/
def authorized (S : Site) (s : Server) (m : Moment) (authorization : Option String)
    (route : Route) : Except Error Delivered × Server :=
  match S.subject m.wall authorization with
  | .error e => (.error e, s)
  | .ok caller =>
      let (o, db') := route.run caller m s.db
      (o, { s with db := db' })

/-- One request. -/
def serve (S : Site) (s : Server) (m : Moment) : Arrival → Except Error Delivered × Server
  | .register data =>
      let (o, db') := engine.request (handleRegister data) m.env m.faults s.db
      (o.map .user, { s with db := db' })
  | .login request payload => s.login S m request payload
  | .invalidLogin request detail => s.invalidLogin S m request detail
  | .authorized authorization route => s.authorized S m authorization route

/-- Before the first request. -/
def boot : Server := ⟨Db.empty, noHits⟩

end Server

/-- One request, by anyone and at any time. -/
def Serves (S : Site) (s s' : Server) : Prop :=
  ∃ a m, Fresh m.env s.db ∧ s' = (s.serve S m a).2

/-! ## §5. What a request does to the database. -/

theorem handleMe_service (caller : Id) : Service (handleMe caller) := by
  refine ⟨rfl, fun user => ?_⟩
  cases user with
  | none => trivial
  | some user => trivial

section
variable {S : Site} {s s' : Server} {m : Moment}

/-- A session that stages and never commits leaves the state as it was. -/
theorem request_service {α : Type} {p : Prog α} (hp : Service p) (env : Env) (f : Nat → Bool)
    (db : Db) : (engine.request p env f db).2 = db :=
  engine.exec_uses hp _

theorem Route.run_step {route : Route} {caller : Id} {db : Db} (hf : Fresh m.env db) :
    (route.run caller m db).2 = db ∨ Step db (route.run caller m db).2 := by
  cases route with
  | me => exact Or.inl (request_service (handleMe_service caller) ..)
  | read op => exact Or.inl (request_service (handleRead_service ⟨caller, op⟩) ..)
  | post key path op =>
      exact Or.inr ⟨.post ⟨caller, key, path, op⟩, m.env, m.faults, hf, rfl⟩

/-- A login leaves the database as it was. -/
theorem login_state (S : Site) (s : Server) (m : Moment) (request : LoginRequest)
    (payload : LoginIn) : (s.login S m request payload).2.db = s.db := by
  unfold Server.login
  rcases rateLimitLogin .float S.settings request m.tick s.hits with ⟨e | _, hits⟩
  · rfl
  · exact request_service (handleLogin_service S m.wall payload) ..

/-- A login that validation refuses changes the deques of the limiter at most, and is
answered with an error. -/
theorem invalidLogin_state (S : Site) (s : Server) (m : Moment) (request : LoginRequest)
    (detail : String) : (s.invalidLogin S m request detail).2.db = s.db
      ∧ ∃ e, (s.invalidLogin S m request detail).1 = .error e := by
  unfold Server.invalidLogin
  rcases rateLimitLogin .float S.settings request m.tick s.hits with ⟨e | _, hits⟩
  · exact ⟨rfl, _, rfl⟩
  · exact ⟨rfl, _, rfl⟩

/-- **The requests of the server are the steps of its database**, or leave it alone. -/
theorem Server.serve_step (a : Arrival) (hf : Fresh m.env s.db) :
    (s.serve S m a).2.db = s.db ∨ Step s.db (s.serve S m a).2.db := by
  cases a with
  | register data => exact Or.inr ⟨.register data, m.env, m.faults, hf, rfl⟩
  | login request payload => exact Or.inl (login_state S s m request payload)
  | invalidLogin request detail => exact Or.inl (invalidLogin_state S s m request detail).1
  | authorized authorization route =>
      show (s.authorized S m authorization route).2.db = _
        ∨ Step _ (s.authorized S m authorization route).2.db
      unfold authorized
      cases S.subject m.wall authorization with
      | error e => exact Or.inl rfl
      | ok caller => exact Route.run_step hf

theorem Serves.steps (h : Serves S s s') : Relation.ReflTransGen Step s.db s'.db := by
  obtain ⟨a, m, hf, rfl⟩ := h
  rcases s.serve_step a hf with hsame | hstep
  · rw [hsame]
  · exact .single hstep

theorem steps_of_serves (h : Relation.ReflTransGen (Serves S) s s') :
    Relation.ReflTransGen Step s.db s'.db := by
  induction h with
  | refl => exact .refl
  | tail _ hs ih => exact ih.trans hs.steps

/-! ## §6. Sessions. -/

/-- A login that is answered with a token has found its user. -/
theorem login_answered {request : LoginRequest} {payload : LoginIn} {token : TokenOut}
    (h : s.serve S m (.login request payload) = (.ok (.token token), s')) :
    ∃ user, s.db.loggedIn S payload = some user ∧ S.tokenFor m.wall user = .ok token
      ∧ s'.db = s.db := by
  change s.login S m request payload = _ at h
  unfold Server.login at h
  rcases hlimit : rateLimitLogin .float S.settings request m.tick s.hits with ⟨e | _, hits⟩
  · rw [hlimit] at h
    exact absurd (congrArg Prod.fst h) (by simp)
  rw [hlimit] at h
  have hreply : (engine.request (handleLogin S m.wall payload) m.env m.faults s.db).1.map
      Delivered.token = .ok (.token token) := congrArg Prod.fst h
  have hstate : (engine.request (handleLogin S m.wall payload) m.env m.faults s.db).2 = s'.db :=
    congrArg Server.db (congrArg Prod.snd h)
  rw [request_service (handleLogin_service S m.wall payload)] at hstate
  cases ho : (engine.request (handleLogin S m.wall payload) m.env m.faults s.db).1 with
  | error e =>
      rw [ho] at hreply
      exact absurd hreply (by simp [Except.map])
  | ok out =>
      rw [ho] at hreply
      obtain rfl : out = token := by simpa [Except.map] using hreply
      -- it met no fault, so the state decides
      rw [engine.request_ok ho, request_of_reaches (handleLogin_gets S m.wall payload m.env s.db)]
        at ho
      have hanswer : s.db.loginAnswer S m.wall payload = .ok out := by
        cases ha : s.db.loginAnswer S m.wall payload with
        | error e =>
            rw [ha] at ho
            exact absurd ho (by simp [ended])
        | ok token =>
            rw [ha] at ho
            exact ho
      obtain ⟨user, hu, ht⟩ := Site.handOut_ok hanswer
      exact ⟨user, hu, ht, hstate.symm⟩

/-- Who logs in is a user of the database, and his password has been checked. -/
theorem Db.loggedIn_iff {db : Db} {payload : LoginIn} {user : User} :
    db.loggedIn S payload = some user
      ↔ db.userByEmail payload.email = some user
        ∧ verifyPassword S.bcrypt payload.password user.hashedPassword = true := by
  unfold Db.loggedIn
  rw [Option.filter_eq_some_iff]

/-- The moments at which a token of the moment `issued` is good. -/
def Site.InWindow (S : Site) (issued now : ℚ) : Prop :=
  (truncate issued : ℚ) ≤ now ∧ ∃ exp ∈ S.expiry issued, now < (exp : ℚ)

instance (S : Site) (issued now : ℚ) : Decidable (S.InWindow issued now) :=
  inferInstanceAs (Decidable (_ ∧ _))

/-- The header that carries a token. -/
def TokenOut.header (token : TokenOut) : Option String := some ("Bearer " ++ token.accessToken)

/-- What a token that is handed out is made of. -/
theorem Site.tokenFor_iff {issued : ℚ} {user : User} {token : TokenOut} :
    S.tokenFor issued user = .ok token
      ↔ ∃ subject exp, pyStr user.id = some subject ∧ S.expiry issued = some exp
        ∧ token = { accessToken :=
            S.jwt.encode ⟨subject, user.role.value, truncate issued, exp⟩ } := by
  unfold Site.tokenFor Site.createAccessToken
  cases pyStr user.id with
  | none => simp
  | some subject =>
      cases S.expiry issued with
      | none => simp
      | some exp => simp [eq_comm]

/-- Whom a token names, and when. -/
theorem subject_tokenFor (hS : S.Lawful) {authorization : Option String} {issued : ℚ}
    {user : User} {token : TokenOut} (ht : S.tokenFor issued user = .ok token)
    (hb : S.bearer authorization = some token.accessToken)
    (now : ℚ) : S.subject now authorization
      = if S.InWindow issued now then .ok user.id
        else .error (.http 401 "Could not validate credentials") := by
  obtain ⟨subject, exp, hsub, hexp, htoken⟩ := Site.tokenFor_iff.mp ht
  have hdecode : S.decodeAccessToken now token.accessToken
      = if (truncate issued : ℚ) ≤ now ∧ now < exp then some ⟨some subject⟩ else none := by
    rw [htoken]
    exact hS.jwt.decode_encode now _
  have hwindow : S.InWindow issued now ↔ (truncate issued : ℚ) ≤ now ∧ now < exp := by
    unfold Site.InWindow
    rw [hexp]
    simp
  unfold Site.subject
  simp only [hb, hdecode]
  by_cases hw : S.InWindow issued now
  · rw [if_pos (hwindow.mp hw), if_pos hw, Option.bind_some, Option.bind_some, toInt_pyStr hsub]
  · rw [if_neg (fun h => hw (hwindow.mpr h)), if_neg hw, Option.bind_none]

/-- A user who logs in stays the user of his id. -/
theorem loggedIn_stays {payload : LoginIn} {user : User} {db db' : Db} (hdb : Reachable db)
    (hlogin : db.loggedIn S payload = some user) (hrun : Relation.ReflTransGen Step db db') :
    db'.user user.id = some user := by
  have hmem : user ∈ db.users := lookup_mem (Db.loggedIn_iff.mp hlogin).1
  obtain ⟨rest, hrest⟩ := users_prefix_of_run hrun
  unfold Db.user
  rw [← hrest]
  exact lookup_append_of_some rest (lookup_of_mem hdb.consistent.userIds hmem)

/-- What a request with a good token is answered, and what it leaves. -/
def Server.asCaller (s : Server) (m : Moment) (caller : Id) (route : Route) :
    Except Error Delivered × Server :=
  ((route.run caller m s.db).1, { s with db := (route.run caller m s.db).2 })

theorem serve_authorized_ok {authorization : Option String} {caller : Id}
    (h : S.subject m.wall authorization = .ok caller) (route : Route) :
    s.serve S m (.authorized authorization route) = s.asCaller m caller route := by
  show s.authorized S m authorization route = _
  unfold Server.authorized
  rw [h]
  rfl

theorem serve_authorized_error {authorization : Option String} {e : Error}
    (h : S.subject m.wall authorization = .error e) (route : Route) :
    s.serve S m (.authorized authorization route) = (.error e, s) := by
  show s.authorized S m authorization route = _
  unfold Server.authorized
  rw [h]

end

/-! ## §7. A site, and a login. -/

/-- A library that keeps the payload as it is. -/
def clearJwt : Jwt where
  encode claims := String.ofList (Json.render ⟨true, false⟩
    (.arr [.str claims.sub, .str claims.role, .int claims.iat, .int claims.exp]))
  decode now token :=
    match Json.parse token.toList with
    | some (.arr [.str sub, .str _, .int iat, .int exp]) =>
        if (iat : ℚ) ≤ now ∧ now < exp then some ⟨some sub⟩ else none
    | _ => none

theorem clearJwt_lawful : clearJwt.Lawful where
  decode_encode := by
    intro now claims
    unfold clearJwt
    simp only [String.toList_ofList, Json.parse_render]

/-- The scheme, in any case, and the token behind the first blank. -/
def plainBearer (authorization : Option String) : Option String :=
  match authorization with
  | none => none
  | some text =>
      let behind := text.toList.dropWhile fun c => c ≠ ' '
      if (text.toList.takeWhile fun c => c ≠ ' ').map Char.toLower = "bearer".toList
      then some (String.ofList (behind.drop 1)) else none

def clearSite : Site where
  bcrypt := clearBcrypt
  jwt := clearJwt
  bearer := plainBearer
  settings := {}

-- nineteen thousand years behind 1970 there are no dates
example : ({ clearSite with accessTokenExpireMinutes := 10 ^ 10 } : Site).expiry 0 = none := by
  decide +kernel

theorem clearSite_lawful : clearSite.Lawful where
  bcrypt := clearBcrypt_lawful
  jwt := clearJwt_lawful
  bearer := by
    intro token
    show plainBearer (some ("Bearer " ++ token)) = some token
    have htext : ("Bearer " ++ token).toList
        = 'B' :: 'e' :: 'a' :: 'r' :: 'e' :: 'r' :: ' ' :: token.toList := by
      rw [String.toList_append]
      rfl
    unfold plainBearer
    simp only [htext]
    rw [if_pos (by rfl)]
    exact congrArg some String.ofList_toList

/-- A calm moment of the state `db`, by the wall clock. -/
def momentAt (db : Db) (wall : ℚ) : Moment :=
  ⟨wall, 0, { Env.following db with hashpw := hashPassword clearBcrypt "" }, calm⟩

theorem momentAt_fresh (db : Db) (wall : ℚ) : Fresh (momentAt db wall).env db where
  above := (Env.following_fresh db).above
  increasing := (Env.following_fresh db).increasing

theorem eight_letters : 8 ≤ "password".length := by decide

theorem few_letters : "password".length ≤ 128 := by decide

def ordinaryAccount : RegisterIn := account "password" eight_letters few_letters

/-- The server behind the registration of "client@example.com". -/
def Server.withAccount : Server :=
  (Server.boot.serve clearSite (momentAt Db.empty 0) (.register ordinaryAccount)).2

theorem withAccount_reachable : Reachable Server.withAccount.db :=
  .single ⟨.register ordinaryAccount, _, calm, momentAt_fresh Db.empty 0, rfl⟩

/-- The login of that account. -/
def Server.accountLogin : Except Error Delivered × Server :=
  Server.withAccount.serve clearSite (momentAt Server.withAccount.db 1000)
    (.login ⟨none, none⟩ ⟨"client@example.com", "password"⟩)

def Delivered.asToken : Delivered → Option TokenOut
  | .token out => some out
  | _ => none

theorem accountLogin_ok : ∃ token s₁, Server.accountLogin = (.ok (.token token), s₁) := by
  have hkind : (Server.accountLogin.1.toOption.bind Delivered.asToken).isSome = true := by
    decide +kernel
  rcases hlogin : Server.accountLogin with ⟨reply, s₁⟩
  rw [hlogin] at hkind
  cases reply with
  | error e => exact absurd hkind (by simp [Except.toOption])
  | ok out =>
      cases out with
      | token token => exact ⟨token, s₁, rfl⟩
      | _ => exact absurd hkind (by simp [Except.toOption, Delivered.asToken])

/-! ## §8. The window. -/

/-- **The window of a session.**  In every state in which somebody logs in, and
whatever is served behind it: the password verifies against the stored hash of the user
of that email, inside the window a request with his token is his request, and his row is
still the one of the login; outside of it the request is refused and changes nothing. -/
theorem session_window (S : Site) (hS : S.Lawful) (s s₁ s₂ : Server) (m : Moment)
    (request : LoginRequest) (payload : LoginIn) (token : TokenOut) (hs : Reachable s.db)
    (hlogin : s.serve S m (.login request payload) = (.ok (.token token), s₁))
    (hrun : Relation.ReflTransGen (Serves S) s₁ s₂) :
    ∃ user, s.db.userByEmail payload.email = some user
      ∧ verifyPassword S.bcrypt payload.password user.hashedPassword = true
      ∧ s₂.db.user user.id = some user
      ∧ ∀ route m', s₂.serve S m' (.authorized token.header route)
          = if S.InWindow m.wall m'.wall then s₂.asCaller m' user.id route
            else (.error (.http 401 "Could not validate credentials"), s₂) := by
  obtain ⟨user, hu, ht, hdb⟩ := login_answered hlogin
  obtain ⟨hemail, hverify⟩ := Db.loggedIn_iff.mp hu
  refine ⟨user, hemail, hverify, loggedIn_stays hs hu (hdb ▸ steps_of_serves hrun), ?_⟩
  intro route m'
  have hsubject := subject_tokenFor hS ht (hS.bearer token.accessToken) m'.wall
  by_cases hw : S.InWindow m.wall m'.wall
  · rw [if_pos hw] at hsubject ⊢
    exact serve_authorized_ok hsubject route
  · rw [if_neg hw] at hsubject ⊢
    exact serve_authorized_error hsubject route

/-- A login at the second 1000: `me` answers at 4599, and not at 4600. -/
theorem session_window_hour : ∃ token s₁, Server.accountLogin = (.ok (.token token), s₁)
    ∧ (∃ out, (s₁.serve clearSite (momentAt s₁.db 4599) (.authorized token.header .me)).1
        = .ok (.user out) ∧ out.email = "client@example.com")
    ∧ (s₁.serve clearSite (momentAt s₁.db 4600) (.authorized token.header .me)).1
        = .error (.http 401 "Could not validate credentials") := by
  obtain ⟨token, s₁, hlogin⟩ := accountLogin_ok
  obtain ⟨user, hemail, _, hrow, hall⟩ := session_window clearSite clearSite_lawful
    Server.withAccount s₁ s₁ (momentAt _ 1000) _ _ token withAccount_reachable hlogin .refl
  have hname : user.email = "client@example.com" := lookup_key hemail
  have hin : clearSite.InWindow 1000 4599 := by decide +kernel
  have hout : ¬ clearSite.InWindow 1000 4600 := by decide +kernel
  refine ⟨token, s₁, hlogin, ⟨user.out, ?_, hname⟩, ?_⟩
  · rw [(hall .me (momentAt s₁.db 4599)).trans (if_pos hin)]
    show (engine.request (handleMe user.id) (momentAt s₁.db 4599).env calm s₁.db).1.map
      Delivered.user = _
    rw [handleMe_answers, hrow]
    rfl
  · rw [(hall .me (momentAt s₁.db 4600)).trans (if_neg hout)]

end Procurement
