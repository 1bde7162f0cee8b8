/-
  Procurement.Framework.Program
  ─────────────────────────────
  **DATABASE PROGRAMS AS DATA.**

  A request handler is a `Program`: a tree of database commands with a
  continuation for every answer, an early exit (`raise`) and an explicit
  `commit`.  One text of the handler is then read in two ways:

      Engine.exec   — alone, one command after the other (this file)
      World.next    — interleaved with other transactions (`Interleaving`)

  A transaction never writes to the database directly.  It stages a list of
  writes, reads the committed rows with its own staged writes on top (`view`),
  and only `commit` moves the view into the committed state.  Any command and
  the commit itself may fail: the stream `faults` says which ones do.
-/
import Mathlib.Logic.Basic
import Mathlib.Data.List.Basic

namespace Procurement.Framework

/-! ## §1. Programs. -/

/-- A program over the commands `Cmd`, the command `c` being answered by a
`Resp c`; it ends with a value, or with an error. -/
inductive Program (Cmd : Type) (Resp : Cmd → Type) (ε α : Type) : Type where
  /-- Return a value. -/
  | ret (a : α)
  /-- Raise an error. -/
  | raise (e : ε)
  /-- Make every staged write visible, then go on. -/
  | commit (k : Program Cmd Resp ε α)
  /-- Send a command to the database and go on with its answer. -/
  | call (c : Cmd) (k : Resp c → Program Cmd Resp ε α)

variable {Cmd : Type} {Resp : Cmd → Type} {ε Db Write Env : Type}
variable {α β γ : Type}

namespace Program

/-- Sequential composition. -/
def bind : Program Cmd Resp ε α → (α → Program Cmd Resp ε β) → Program Cmd Resp ε β
  | .ret a, f => f a
  | .raise e, _ => .raise e
  | .commit k, f => .commit (k.bind f)
  | .call c k, f => .call c (fun r => (k r).bind f)

instance : Monad (Program Cmd Resp ε) where
  pure := .ret
  bind := bind

/-- The program that sends one command. -/
def send (c : Cmd) : Program Cmd Resp ε (Resp c) := .call c .ret

/-- The program that commits. -/
def commitNow : Program Cmd Resp ε Unit := .commit (.ret ())

@[simp] theorem pure_eq (a : α) : (pure a : Program Cmd Resp ε α) = .ret a := rfl

@[simp] theorem ret_bind (a : α) (f : α → Program Cmd Resp ε β) : (.ret a : Program Cmd Resp ε α) >>= f = f a := rfl

@[simp] theorem raise_bind (e : ε) (f : α → Program Cmd Resp ε β) :
    (.raise e : Program Cmd Resp ε α) >>= f = .raise e := rfl

@[simp] theorem call_bind (c : Cmd) (k : Resp c → Program Cmd Resp ε α)
    (f : α → Program Cmd Resp ε β) :
    (.call c k : Program Cmd Resp ε α) >>= f = .call c (fun r => k r >>= f) := rfl

@[simp] theorem commit_bind (k : Program Cmd Resp ε α) (f : α → Program Cmd Resp ε β) :
    (.commit k : Program Cmd Resp ε α) >>= f = .commit (k >>= f) := rfl

@[simp] theorem send_bind (c : Cmd) (f : Resp c → Program Cmd Resp ε β) :
    (send c : Program Cmd Resp ε (Resp c)) >>= f = .call c f := rfl

@[simp] theorem commitNow_bind (f : Unit → Program Cmd Resp ε β) :
    (commitNow : Program Cmd Resp ε Unit) >>= f = .commit (f ()) := rfl

theorem bind_assoc (p : Program Cmd Resp ε α) (f : α → Program Cmd Resp ε β)
    (g : β → Program Cmd Resp ε γ) : p >>= f >>= g = p >>= fun a => f a >>= g := by
  induction p with
  | ret a => rfl
  | raise e => rfl
  | commit k ih =>
      show Program.commit (k >>= f >>= g) = _
      rw [ih]
      rfl
  | call c k ih =>
      show Program.call c (fun r => k r >>= f >>= g) = _
      simp only [ih]
      rfl

/-- Every command the program can send, whatever the answers, satisfies `P`,
and the program never commits. -/
def Uses (P : Cmd → Prop) : Program Cmd Resp ε α → Prop
  | .ret _ => True
  | .raise _ => True
  | .commit _ => False
  | .call c k => P c ∧ ∀ r, (k r).Uses P

theorem Uses.bind {P : Cmd → Prop} {p : Program Cmd Resp ε α}
    {f : α → Program Cmd Resp ε β} (hp : p.Uses P) (hf : ∀ a, (f a).Uses P) :
    (p >>= f).Uses P := by
  induction p with
  | ret a => exact hf a
  | raise e => trivial
  | commit k _ => exact hp.elim
  | call c k ih => exact ⟨hp.1, fun r => ih r (hp.2 r)⟩

end Program

/-! ## §2. Engines and sessions. -/

/-- What the database does with a command: the answer read off the view (or
the error it raises), the writes it stages, and what it uses up of the
environment (generated ids, the clock).  `fault` is the error of a command
that fails for a reason outside the model. -/
structure Engine (Cmd : Type) (Resp : Cmd → Type) (ε Db Write Env : Type) where
  answer : (c : Cmd) → Env → Db → Except ε (Resp c)
  writes : Cmd → Env → List Write
  next : Cmd → Env → Env
  apply : Write → Db → Db
  fault : ε

/-- One session: the committed state, the writes staged on top of it, what
the environment still hands out, and which of the coming steps fail. -/
structure Session (Db Write Env : Type) where
  committed : Db
  staged : List Write
  env : Env
  faults : Nat → Bool

/-- No step fails. -/
def calm : Nat → Bool := fun _ => false

/-- One step is over: the fault of that step is used up. -/
def Session.tick (s : Session Db Write Env) : Session Db Write Env :=
  { s with faults := fun n => s.faults (n + 1) }

@[simp] theorem Session.tick_committed (s : Session Db Write Env) :
    s.tick.committed = s.committed := rfl

namespace Engine

variable (E : Engine Cmd Resp ε Db Write Env)

/-- A database with staged writes on top. -/
def view (ws : List Write) (db : Db) : Db := ws.foldl (fun db w => E.apply w db) db

@[simp] theorem view_nil (db : Db) : E.view [] db = db := rfl

@[simp] theorem view_cons (w : Write) (ws : List Write) (db : Db) :
    E.view (w :: ws) db = E.view ws (E.apply w db) := rfl

theorem view_append (ws vs : List Write) (db : Db) :
    E.view (ws ++ vs) db = E.view vs (E.view ws db) :=
  List.foldl_append

/-- What a session reads. -/
def look (s : Session Db Write Env) : Db := E.view s.staged s.committed

/-- **Serial execution.**  The committed part of the session changes at
`commit` only; a raised error ends the program where it stands. -/
def exec : Program Cmd Resp ε α → Session Db Write Env → Except ε α × Session Db Write Env
  | .ret a, s => (.ok a, s)
  | .raise e, s => (.error e, s)
  | .commit k, s =>
      if s.faults 0 then (.error E.fault, s.tick)
      else exec k { s.tick with committed := E.look s, staged := [] }
  | .call c k, s =>
      if s.faults 0 then (.error E.fault, s.tick)
      else match E.answer c s.env (E.look s) with
        | .error e => (.error e, s.tick)
        | .ok r => exec (k r)
            { s.tick with staged := s.staged ++ E.writes c s.env, env := E.next c s.env }

/-- What the session commits first: its staged writes, nothing when the
program ends without a commit, or the error raised before the commit takes
effect. -/
def firstCommit : Program Cmd Resp ε α → Session Db Write Env → Except ε (Option (List Write))
  | .ret _, _ => .ok none
  | .raise e, _ => .error e
  | .commit _, s => if s.faults 0 then .error E.fault else .ok (some s.staged)
  | .call c k, s =>
      if s.faults 0 then .error E.fault
      else match E.answer c s.env (E.look s) with
        | .error e => .error e
        | .ok r => firstCommit (k r)
            { s.tick with staged := s.staged ++ E.writes c s.env, env := E.next c s.env }

/-- A request in its own session: what it answers, and the committed state it
leaves.  Whatever is staged when it ends is rolled back. -/
def request (p : Program Cmd Resp ε α) (env : Env) (faults : Nat → Bool) (db : Db) :
    Except ε α × Db :=
  let (o, s) := E.exec p ⟨db, [], env, faults⟩
  (o, s.committed)

end Engine

end Procurement.Framework
