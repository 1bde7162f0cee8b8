/-
  Procurement.Security.Passwords
  ──────────────────────────────
  **PASSWORDS** (`security.py`, `authenticate_user`).

  A password is hashed as the UTF-8 bytes of its characters.  The schema limits
  it to 128 characters; bcrypt reads 72 bytes and ignores the rest.  The library
  is a parameter: `Bcrypt` has the two functions that the code calls, and
  `Bcrypt.Lawful` is what its documentation says of them.

  A login passes exactly when the first 72 bytes agree (`authenticates_iff`), so
  it accepts the registered password only, exactly when that has less than 72
  bytes (`login_exact_iff`).
-/
import Procurement.Routers.Reads
import Procurement.Runs.Retries

namespace Procurement

open Procurement.Framework
open Procurement.Framework.Program

/-! ## §1. Hashing. -/

/-- `str.encode()` -/
def encode (s : String) : List UInt8 := s.toList.flatMap String.utf8EncodeChar

/-- The functions of the library that the code calls.  A salt is what `gensalt` returned;
hashes are ASCII, and are kept as text.  `checkpw` raises a `ValueError` (`none`) for a
text that is no hash. -/
structure Bcrypt where
  hashpw : List UInt8 → String → String
  checkpw : List UInt8 → String → Option Bool

/-- Both functions use the first 72 bytes of a password, and different ones do not
collide. -/
structure Bcrypt.Lawful (B : Bcrypt) : Prop where
  check : ∀ p q salt, B.checkpw q (B.hashpw p salt) = some (decide (q.take 72 = p.take 72))

/-- `hash_password`, with the salt it draws. -/
def hashPassword (B : Bcrypt) (salt plain : String) : String := B.hashpw (encode plain) salt

def verifyPassword (B : Bcrypt) (plain hashed : String) : Bool :=
  match B.checkpw (encode plain) hashed with
  | some same => same
  | none => false -- `except ValueError`

/-! ## §2. Authentication. -/

def authenticateUser (B : Bcrypt) (email password : String) : Prog (Option User) := do
  let user ← query (.userByEmail email)
  match user with
  | none => return none
  | some user =>
      if verifyPassword B password user.hashedPassword then return some user else return none

theorem returned_authenticateUser {B : Bcrypt} {email password : String} {db : Db}
    {a : Option User} : Returned (authenticateUser B email password) db a
      ↔ a = (db.userByEmail email).filter fun user => verifyPassword B password user.hashedPassword := by
  refine returned_iff fun env => ?_
  unfold authenticateUser
  simp only [send_bind]
  refine .select (r := db.userByEmail email) rfl rfl rfl ?_
  cases db.userByEmail email with
  | none => exact .refl _
  | some user =>
      by_cases hv : verifyPassword B password user.hashedPassword
      · simp only [hv, if_true, Option.filter]
        exact .refl _
      · simp only [hv, Option.filter]
        exact .refl _

/-! ## §3. Encoding. -/

theorem encode_append (s t : String) : encode (s ++ t) = encode s ++ encode t := by
  unfold encode
  rw [String.toList_append, List.flatMap_append]

/-- Different texts have different bytes. -/
theorem encode_injective {s t : String} (h : encode s = encode t) : s = t := by
  have hbytes : s.toList.utf8Encode = t.toList.utf8Encode := congrArg List.toByteArray h
  rw [String.utf8Encode_toList, String.utf8Encode_toList] at hbytes
  exact String.toByteArray_inj.mp hbytes

/-- A password of less than 72 bytes is determined by its first 72 bytes. -/
theorem encode_take {p q : String} (hp : (encode p).length < 72)
    (h : (encode q).take 72 = (encode p).take 72) : q = p := by
  rw [List.take_of_length_le (le_of_lt hp)] at h
  have hlen : (encode q).length < 72 := by
    have hmin := congrArg List.length h
    rw [List.length_take] at hmin
    omega
  rw [List.take_of_length_le (le_of_lt hlen)] at h
  exact encode_injective h

/-! ## §4. Logins. -/

/-- Users stay where they are. -/
theorem Step.users_prefix {db db' : Db} (h : Step db db') : db.users <+: db'.users := by
  cases h.cases with
  | nothing => exact List.prefix_refl _
  | registered env data hf hfree => exact List.prefix_append _ _
  | executed hf hx => exact hx.users ▸ List.prefix_refl _

theorem users_prefix_of_run {db db' : Db} (h : Relation.ReflTransGen Step db db') :
    db.users <+: db'.users := by
  induction h with
  | refl => exact List.prefix_refl _
  | tail _ hstep ih => exact ih.trans hstep.users_prefix

/-- A registration that succeeds found its email free, and has committed its user. -/
theorem register_succeeded {data : RegisterIn} {env : Env} {f : Nat → Bool} {db db' : Db}
    {answer : Answer} (h : (Call.register data).run env f db = (.ok answer, db')) :
    db.userByEmail data.email = none ∧ db' = engine.view (registerWrites env data) db := by
  have hstate : db' = (engine.request (handleRegister data) env f db).2 :=
    (congrArg Prod.snd h).symm
  obtain ⟨out, hout⟩ : ∃ out, (engine.request (handleRegister data) env f db).1 = .ok out := by
    have hanswer : (engine.request (handleRegister data) env f db).1.map Answer.user = .ok answer :=
      congrArg Prod.fst h
    cases ho : (engine.request (handleRegister data) env f db).1 with
    | ok out => exact ⟨out, rfl⟩
    | error e =>
        rw [ho] at hanswer
        exact absurd hanswer (by simp [Except.map])
  have hcalm := engine.request_ok hout
  rw [hcalm] at hout
  cases he : db.userByEmail data.email with
  | some u =>
      rw [request_of_reaches (register_refused (R := AnyRow) (pinned he))] at hout
      exact absurd hout (by simp)
  | none =>
      refine ⟨rfl, ?_⟩
      rw [hstate, hcalm, request_of_reaches (register_reaches (R := AnyRow) trivial (pinned he)),
        Engine.exec_commit_calm]
      exact engine.exec_uses (refresh_uses _) _

section
variable {B : Bcrypt} {data : RegisterIn} {env : Env} {salt : String} {f : Nat → Bool}
variable {db₀ db₁ db : Db} {answer : Answer}

/-- Behind a registration, its email leads to its user, whatever is called next. -/
theorem registered_stays (hreg : (Call.register data).run env f db₀ = (.ok answer, db₁))
    (hrun : Relation.ReflTransGen Step db₁ db) :
    db.userByEmail data.email = some (env.registered data) := by
  obtain ⟨hfree, rfl⟩ := register_succeeded hreg
  obtain ⟨rest, hrest⟩ := users_prefix_of_run hrun
  have hrow : (engine.view (registerWrites env data) db₀).userByEmail data.email
      = some (env.registered data) := by
    have hlookup : lookup User.email db₀.users data.email = none := hfree
    show lookup User.email (db₀.users ++ [env.registered data]) data.email = _
    rw [lookup_append_of_none _ hlookup, lookup_singleton]
    exact if_pos rfl
  unfold Db.userByEmail at hrow ⊢
  rw [← hrest]
  exact lookup_append_of_some rest hrow

/-- **A login passes exactly when the first 72 bytes agree.** -/
theorem authenticates_iff (hB : B.Lawful) (hhash : env.hashpw = hashPassword B salt)
    (hreg : (Call.register data).run env f db₀ = (.ok answer, db₁))
    (hrun : Relation.ReflTransGen Step db₁ db) (q : String) :
    Returned (authenticateUser B data.email q) db (some (env.registered data))
      ↔ (encode q).take 72 = (encode data.password).take 72 := by
  have hverify : verifyPassword B q (env.registered data).hashedPassword
      = decide ((encode q).take 72 = (encode data.password).take 72) := by
    show verifyPassword B q (env.hashpw data.password) = _
    unfold verifyPassword
    rw [hhash, show hashPassword B salt data.password = B.hashpw (encode data.password) salt from rfl,
      hB.check]
  rw [returned_authenticateUser, registered_stays hreg hrun]
  by_cases hsame : (encode q).take 72 = (encode data.password).take 72
  · simp [Option.filter, hverify, hsame]
  · simp [Option.filter, hverify, hsame]

/-- More of the same password passes too, once it fills the 72 bytes. -/
theorem encode_take_append {p : String} (hp : 72 ≤ (encode p).length) (more : String) :
    (encode (p ++ more)).take 72 = (encode p).take 72 := by
  rw [encode_append, List.take_append_of_le_length hp]

end

/-- **Which passwords a login accepts.**  Behind every run that registers a user: the
login with his email returns him for the registered password and for no other, if and
only if that password has less than 72 bytes. -/
theorem login_exact_iff (B : Bcrypt) (hB : B.Lawful) (data : RegisterIn) (env : Env)
    (salt : String) (hhash : env.hashpw = hashPassword B salt) (f : Nat → Bool) (db₀ db₁ db : Db)
    (answer : Answer) (hreg : (Call.register data).run env f db₀ = (.ok answer, db₁))
    (hrun : Relation.ReflTransGen Step db₁ db) :
    (∀ q, Returned (authenticateUser B data.email q) db (some (env.registered data))
        ↔ q = data.password)
      ↔ (encode data.password).length < 72 := by
  constructor
  · intro hall
    by_contra hlong
    have hmore := encode_take_append (not_lt.mp hlong) "b"
    have hsame := (hall (data.password ++ "b")).mp
      ((authenticates_iff hB hhash hreg hrun _).mpr hmore)
    have hlength := congrArg String.length hsame
    rw [String.length_append] at hlength
    exact absurd hlength (by simp)
  · intro hshort q
    rw [authenticates_iff hB hhash hreg hrun]
    constructor
    · exact encode_take hshort
    · intro hq
      rw [hq]

/-! ## §5. Two passwords. -/

/-- A library that keeps the 72 bytes as they are. -/
def clearBcrypt : Bcrypt where
  hashpw p _ := String.ofList ((p.take 72).map Char.ofUInt8)
  checkpw q hashed := some (decide (String.ofList ((q.take 72).map Char.ofUInt8) = hashed))

theorem clearBcrypt_lawful : clearBcrypt.Lawful where
  check := by
    intro p q salt
    have hchar : Function.Injective Char.ofUInt8 :=
      fun a b hab => UInt8.toUInt32_inj.mp (congrArg Char.val hab)
    show some (decide (String.ofList ((q.take 72).map Char.ofUInt8)
      = String.ofList ((p.take 72).map Char.ofUInt8))) = _
    rw [Option.some_inj, decide_eq_decide, String.ofList_inj]
    exact (List.map_injective_iff.mpr hchar).eq_iff

/-- The environment of a first call that hashes with that library. -/
def clearEnv : Env := { Env.following Db.empty with hashpw := hashPassword clearBcrypt "" }

theorem clearEnv_fresh : Fresh clearEnv Db.empty where
  above := (Env.following_fresh Db.empty).above
  increasing := (Env.following_fresh Db.empty).increasing

def account (password : String) (hmin : 8 ≤ password.length) (hmax : password.length ≤ 128) :
    RegisterIn where
  email := "client@example.com"
  password := password
  fullName := "client"
  role := .client
  password_min := hmin
  password_max := hmax
  fullName_min := by decide
  fullName_max := by decide

/-- The first registration succeeds. -/
theorem account_registered (data : RegisterIn) :
    ∃ answer, (Call.register data).run clearEnv calm Db.empty
      = (.ok answer, engine.view (registerWrites clearEnv data) Db.empty) :=
  ⟨_, rfl⟩

theorem clearEnv_hashpw : clearEnv.hashpw = hashPassword clearBcrypt "" := rfl

/-- "password" has eight bytes, and "passwords" does not pass for it. -/
theorem login_exact_password :
    ¬ Returned (authenticateUser clearBcrypt "client@example.com" "passwords")
        (engine.view (registerWrites clearEnv (account "password" (by decide) (by decide))) Db.empty)
        (some (clearEnv.registered (account "password" (by decide) (by decide)))) := by
  obtain ⟨answer, hreg⟩ := account_registered (account "password" (by decide) (by decide))
  have hbytes : (encode (account "password" (by decide) (by decide)).password).length < 72 := by
    decide +kernel
  have hexact := (login_exact_iff clearBcrypt clearBcrypt_lawful _ clearEnv "" clearEnv_hashpw calm
    Db.empty _ _ answer hreg .refl).mpr hbytes
  intro hpasses
  exact absurd ((hexact _).mp hpasses) (by decide +kernel)

theorem length_long : (String.ofList (List.replicate 72 'a')).length = 72 := by
  rw [String.length_ofList, List.length_replicate]

/-- A password of 72 letters, and a login with one letter more. -/
theorem longer_password_accepted :
    ¬ ∀ (B : Bcrypt) (data : RegisterIn) (env : Env) (salt : String) (f : Nat → Bool)
        (db₀ db₁ db : Db) (answer : Answer), B.Lawful → env.hashpw = hashPassword B salt →
        Reachable db₀ → Fresh env db₀ →
        (Call.register data).run env f db₀ = (.ok answer, db₁) → Relation.ReflTransGen Step db₁ db →
        ∀ q, Returned (authenticateUser B data.email q) db (some (env.registered data))
          ↔ q = data.password := by
  intro hall
  have hmin : 8 ≤ (String.ofList (List.replicate 72 'a')).length := by rw [length_long]; omega
  have hmax : (String.ofList (List.replicate 72 'a')).length ≤ 128 := by rw [length_long]; omega
  obtain ⟨answer, hreg⟩ := account_registered (account _ hmin hmax)
  have hexact := hall clearBcrypt (account _ hmin hmax) clearEnv "" calm Db.empty _ _ answer
    clearBcrypt_lawful clearEnv_hashpw .refl clearEnv_fresh hreg .refl
    (String.ofList (List.replicate 72 'a') ++ "b")
  have hbytes : 72 ≤ (encode (String.ofList (List.replicate 72 'a'))).length := by
    unfold encode
    rw [String.toList_ofList]
    decide +kernel
  have hpasses := (authenticates_iff clearBcrypt_lawful clearEnv_hashpw hreg .refl _).mpr
    (encode_take_append hbytes "b")
  have hsame := congrArg String.length (hexact.mp hpasses)
  rw [String.length_append] at hsame
  exact absurd hsame (by simp [account])

end Procurement
