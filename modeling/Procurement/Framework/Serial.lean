/-
  Procurement.Framework.Serial
  ────────────────────────────
  **THE LAWS OF SERIAL EXECUTION.**

  Three groups of laws about `Engine.exec`:

    • how an execution composes (`exec_bind`, `exec_call_ok`, …);
    • what a program without a commit can change (`exec_uses`): nothing that
      is committed;
    • what faults can do.  A successful execution met no fault and is the calm
      one (`exec_calm_of_ok`); a program with at most one commit leaves either
      the state it found or the one its calm execution leaves
      (`exec_committed`).

  The last group is why every theorem about runs may be proved for calm
  requests first.
-/
import Procurement.Framework.Program

namespace Procurement.Framework

variable {Cmd : Type} {Resp : Cmd → Type} {ε Db Write Env : Type}
variable {α β : Type}

namespace Engine

variable (E : Engine Cmd Resp ε Db Write Env)

/-! ## §1. One constructor at a time. -/

@[simp] theorem exec_ret (a : α) (s : Session Db Write Env) :
    E.exec (.ret a : Program Cmd Resp ε α) s = (.ok a, s) := rfl

@[simp] theorem exec_raise (e : ε) (s : Session Db Write Env) :
    E.exec (.raise e : Program Cmd Resp ε α) s = (.error e, s) := rfl

theorem exec_call (c : Cmd) (k : Resp c → Program Cmd Resp ε α) (s : Session Db Write Env) :
    E.exec (.call c k) s
      = if s.faults 0 then (.error E.fault, s.tick)
        else match E.answer c s.env (E.look s) with
          | .error e => (.error e, s.tick)
          | .ok r => E.exec (k r)
              { s.tick with staged := s.staged ++ E.writes c s.env, env := E.next c s.env } := by
  by_cases hf : s.faults 0 = true
  · simp [exec, hf]
  · cases ha : E.answer c s.env (E.look s) <;> simp [exec, hf, ha]

theorem exec_commit (k : Program Cmd Resp ε α) (s : Session Db Write Env) :
    E.exec (.commit k) s
      = if s.faults 0 then (.error E.fault, s.tick)
        else E.exec k { s.tick with committed := E.look s, staged := [] } := rfl

/-- A calm command that is answered. -/
theorem exec_call_calm {c : Cmd} {k : Resp c → Program Cmd Resp ε α} {db : Db}
    {ws : List Write} {env : Env} {r : Resp c}
    (h : E.answer c env (E.view ws db) = .ok r) :
    E.exec (.call c k) ⟨db, ws, env, calm⟩
      = E.exec (k r) ⟨db, ws ++ E.writes c env, E.next c env, calm⟩ := by
  rw [exec_call]
  simp only [calm, Bool.false_eq_true, if_false, look, h]
  rfl

/-- A calm command that is answered with an error. -/
theorem exec_call_failed {c : Cmd} {k : Resp c → Program Cmd Resp ε α} {db : Db}
    {ws : List Write} {env : Env} {e : ε} (h : E.answer c env (E.view ws db) = .error e) :
    E.exec (.call c k) ⟨db, ws, env, calm⟩
      = (.error e, (⟨db, ws, env, calm⟩ : Session Db Write Env).tick) := by
  rw [exec_call]
  simp only [calm, Bool.false_eq_true, if_false, look, h]

/-- A calm commit. -/
theorem exec_commit_calm (k : Program Cmd Resp ε α) (db : Db) (ws : List Write) (env : Env) :
    E.exec (.commit k) ⟨db, ws, env, calm⟩ = E.exec k ⟨E.view ws db, [], env, calm⟩ := by
  rw [exec_commit]
  simp only [calm, Bool.false_eq_true, if_false, look]
  rfl

/-- A command before a successful end was answered, and met no fault. -/
theorem exec_call_ok {c : Cmd} {k : Resp c → Program Cmd Resp ε α}
    {s s' : Session Db Write Env} {a : α} (h : E.exec (.call c k) s = (.ok a, s')) :
    s.faults 0 = false ∧ ∃ r, E.answer c s.env (E.look s) = .ok r ∧
      E.exec (k r) { s.tick with staged := s.staged ++ E.writes c s.env, env := E.next c s.env }
        = (.ok a, s') := by
  rw [exec_call] at h
  by_cases hf : s.faults 0
  · simp [hf] at h
  · simp only [hf, Bool.false_eq_true, if_false] at h
    refine ⟨by simpa using hf, ?_⟩
    cases hr : E.answer c s.env (E.look s) with
    | error e => simp [hr] at h
    | ok r =>
        rw [hr] at h
        exact ⟨r, rfl, h⟩

theorem exec_commit_ok {k : Program Cmd Resp ε α} {s s' : Session Db Write Env} {a : α}
    (h : E.exec (.commit k) s = (.ok a, s')) :
    s.faults 0 = false ∧
      E.exec k { s.tick with committed := E.look s, staged := [] } = (.ok a, s') := by
  rw [exec_commit] at h
  by_cases hf : s.faults 0
  · simp [hf] at h
  · simp only [hf, Bool.false_eq_true, if_false] at h
    exact ⟨by simpa using hf, h⟩

/-! ## §2. Programs without a commit. -/

/-- A program that never commits leaves the committed state alone. -/
theorem exec_uses {P : Cmd → Prop} {p : Program Cmd Resp ε α} (hp : p.Uses P)
    (s : Session Db Write Env) : (E.exec p s).2.committed = s.committed := by
  induction p generalizing s with
  | ret a => rfl
  | raise e => rfl
  | commit k _ => exact hp.elim
  -- a command stages and never publishes, whatever it is answered
  | call c k ih =>
      rw [exec_call]
      by_cases hf : s.faults 0
      · simp [hf]
      · simp only [hf, Bool.false_eq_true, if_false]
        cases E.answer c s.env (E.look s) with
        | error e => rfl
        | ok r => rw [ih r (hp.2 r)]; rfl

end Engine

/-! ## §3. Where a program commits. -/

namespace Program

/-- The commit, where there is one, is the last thing the program does. -/
def CommitsLast : Program Cmd Resp ε α → Prop
  | .ret _ => True
  | .raise _ => True
  | .commit k => ∃ a, k = .ret a
  | .call _ k => ∀ r, (k r).CommitsLast

/-- The program commits at most once. -/
def OneCommit : Program Cmd Resp ε α → Prop
  | .ret _ => True
  | .raise _ => True
  | .commit k => k.Uses fun _ => True
  | .call _ k => ∀ r, (k r).OneCommit

theorem CommitsLast.oneCommit {p : Program Cmd Resp ε α} (hp : p.CommitsLast) : p.OneCommit := by
  induction p with
  | ret a => trivial
  | raise e => trivial
  | commit k _ =>
      obtain ⟨a, rfl⟩ := hp
      trivial
  | call c k ih => exact fun r => ih r (hp r)

theorem CommitsLast.bind {P : Cmd → Prop} {p : Program Cmd Resp ε α}
    {f : α → Program Cmd Resp ε β} (hp : p.Uses P) (hf : ∀ a, (f a).CommitsLast) :
    (p >>= f).CommitsLast := by
  induction p with
  | ret a => exact hf a
  | raise e => trivial
  | commit k _ => exact hp.elim
  | call c k ih => exact fun r => ih r (hp.2 r)

end Program

/-! ## §4. Faults. -/

/-- The same session with no fault ahead. -/
def Session.calmed (s : Session Db Write Env) : Session Db Write Env := { s with faults := calm }

namespace Engine

variable (E : Engine Cmd Resp ε Db Write Env)

/-- **A successful execution met no fault**: it is the calm one. -/
theorem exec_calm_of_ok {p : Program Cmd Resp ε α} {s s' : Session Db Write Env} {a : α}
    (h : E.exec p s = (.ok a, s')) : E.exec p s.calmed = (.ok a, s'.calmed) := by
  induction p generalizing s with
  | ret b =>
      simp only [exec_ret, Prod.mk.injEq] at h ⊢
      exact ⟨h.1, by rw [h.2]⟩
  | raise e => simp at h
  | commit k ih =>
      -- the session met no fault here, so its calm copy takes the same step
      obtain ⟨_, hk⟩ := E.exec_commit_ok h
      have hcalm := ih hk
      rw [exec_commit]
      exact hcalm
  | call c k ih =>
      obtain ⟨_, r, hr, hk⟩ := E.exec_call_ok h
      have hcalm := ih r hk
      rw [exec_call]
      rw [show E.answer c s.calmed.env (E.look s.calmed) = .ok r from hr]
      exact hcalm

/-- **A fault before the only commit leaves the old state, a fault after it
the new one**: nothing in between is ever committed. -/
theorem exec_committed {p : Program Cmd Resp ε α} (hp : p.OneCommit)
    (s : Session Db Write Env) :
    (E.exec p s).2.committed = s.committed
      ∨ (E.exec p s).2.committed = (E.exec p s.calmed).2.committed := by
  induction p generalizing s with
  | ret a => exact Or.inl rfl
  | raise e => exact Or.inl rfl
  | commit k _ =>
      rw [exec_commit]
      by_cases hf : s.faults 0
      -- the fault of the commit itself comes before it takes effect
      · left; simp [hf]
      · right
        simp only [hf, Bool.false_eq_true, if_false]
        -- behind the only commit nothing is published any more, faults or not
        rw [E.exec_uses hp, exec_commit]
        exact (E.exec_uses hp { s.calmed.tick with committed := E.look s, staged := [] }).symm
  | call c k ih =>
      rw [exec_call, exec_call]
      by_cases hf : s.faults 0
      · left; simp [hf]
      · simp only [hf, Bool.false_eq_true, if_false]
        have hc : s.calmed.faults 0 = false := rfl
        rw [show E.answer c s.calmed.env (E.look s.calmed) = E.answer c s.env (E.look s) from rfl]
        simp only [hc, Bool.false_eq_true, if_false]
        cases E.answer c s.env (E.look s) with
        | error e => left; rfl
        -- both go on from the same answer
        | ok r => exact ih r (hp r) _

/-- An error raised by a program that commits last was raised before the
commit. -/
theorem exec_error {p : Program Cmd Resp ε α} (hp : p.CommitsLast)
    {s s' : Session Db Write Env} {e : ε} (h : E.exec p s = (.error e, s')) :
    s'.committed = s.committed := by
  induction p generalizing s with
  | ret a => simp at h
  | raise e => rw [exec_raise, Prod.mk.injEq] at h; rw [← h.2]
  | commit k _ =>
      -- a commit that succeeds is followed by a value, not by an error
      obtain ⟨a, rfl⟩ := hp
      rw [exec_commit] at h
      by_cases hf : s.faults 0
      · simp only [hf, if_true, Prod.mk.injEq] at h
        rw [← h.2]; rfl
      · simp [hf] at h
  | call c k ih =>
      rw [exec_call] at h
      by_cases hf : s.faults 0
      · simp only [hf, if_true, Prod.mk.injEq] at h
        rw [← h.2]; rfl
      · simp only [hf, Bool.false_eq_true, if_false] at h
        cases hr : E.answer c s.env (E.look s) with
        | error e' =>
            simp only [hr, Prod.mk.injEq] at h
            rw [← h.2]; rfl
        | ok r =>
            simp only [hr] at h
            rw [ih r (hp r) h]
            rfl

/-! ## §5. The first commit. -/

theorem firstCommit_call (c : Cmd) (k : Resp c → Program Cmd Resp ε α)
    (s : Session Db Write Env) :
    E.firstCommit (.call c k) s
      = if s.faults 0 then .error E.fault
        else match E.answer c s.env (E.look s) with
          | .error e => .error e
          | .ok r => E.firstCommit (k r)
              { s.tick with staged := s.staged ++ E.writes c s.env, env := E.next c s.env } := by
  by_cases hf : s.faults 0 = true
  · simp [firstCommit, hf]
  · cases ha : E.answer c s.env (E.look s) <;> simp [firstCommit, hf, ha]

/-- An error before the commit ends the program and leaves the committed
state. -/
theorem exec_of_firstCommit_error {p : Program Cmd Resp ε α} {s : Session Db Write Env} {e : ε}
    (h : E.firstCommit p s = .error e) :
    (E.exec p s).1 = .error e ∧ (E.exec p s).2.committed = s.committed := by
  induction p generalizing s with
  | ret a => exact absurd h (by simp [firstCommit])
  | raise e' =>
      obtain rfl : e' = e := by simpa [firstCommit] using h
      exact ⟨rfl, rfl⟩
  | commit k _ =>
      rw [exec_commit]
      unfold firstCommit at h
      by_cases hf : s.faults 0
      · rw [if_pos hf] at h ⊢
        exact ⟨by simpa using h, rfl⟩
      · rw [if_neg hf] at h
        exact absurd h (by simp)
  | call c k ih =>
      rw [firstCommit_call] at h
      rw [exec_call]
      by_cases hf : s.faults 0
      · rw [if_pos hf] at h ⊢
        exact ⟨by simpa using h, rfl⟩
      · rw [if_neg hf] at h ⊢
        cases hr : E.answer c s.env (E.look s) with
        | error e' =>
            rw [hr] at h
            exact ⟨by simpa using h, rfl⟩
        | ok r =>
            rw [hr] at h
            exact ih r h

/-- Without a commit the program ends with a value and leaves the committed
state. -/
theorem exec_of_firstCommit_none {p : Program Cmd Resp ε α} {s : Session Db Write Env}
    (h : E.firstCommit p s = .ok none) :
    (∃ a, (E.exec p s).1 = .ok a) ∧ (E.exec p s).2.committed = s.committed := by
  induction p generalizing s with
  | ret a => exact ⟨⟨a, rfl⟩, rfl⟩
  | raise e => exact absurd h (by simp [firstCommit])
  | commit k _ =>
      unfold firstCommit at h
      split at h <;> simp at h
  | call c k ih =>
      rw [firstCommit_call] at h
      rw [exec_call]
      by_cases hf : s.faults 0
      · rw [if_pos hf] at h
        exact absurd h (by simp)
      · rw [if_neg hf] at h ⊢
        cases hr : E.answer c s.env (E.look s) with
        | error e => rw [hr] at h; exact absurd h (by simp)
        | ok r =>
            rw [hr] at h
            exact ih r h

/-- **With at most one commit, what is committed first is all that is
committed.** -/
theorem exec_of_firstCommit_some {p : Program Cmd Resp ε α} (hp : p.OneCommit)
    {s : Session Db Write Env} {ws : List Write} (h : E.firstCommit p s = .ok (some ws)) :
    (E.exec p s).2.committed = E.view ws s.committed := by
  induction p generalizing s with
  | ret a => exact absurd h (by simp [firstCommit])
  | raise e => exact absurd h (by simp [firstCommit])
  | commit k _ =>
      rw [exec_commit]
      unfold firstCommit at h
      by_cases hf : s.faults 0
      · rw [if_pos hf] at h
        exact absurd h (by simp)
      · rw [if_neg hf] at h ⊢
        -- the program behind the commit publishes nothing more
        obtain rfl : s.staged = ws := by simpa using h
        rw [E.exec_uses hp]
        rfl
  | call c k ih =>
      rw [firstCommit_call] at h
      rw [exec_call]
      by_cases hf : s.faults 0
      · rw [if_pos hf] at h
        exact absurd h (by simp)
      · rw [if_neg hf] at h ⊢
        cases hr : E.answer c s.env (E.look s) with
        | error e => rw [hr] at h; exact absurd h (by simp)
        | ok r =>
            rw [hr] at h
            exact ih r (hp r) h

/-- Without an error before it, the first commit is the calm one. -/
theorem firstCommit_calm_of_ok {p : Program Cmd Resp ε α} {s : Session Db Write Env}
    {o : Option (List Write)} (h : E.firstCommit p s = .ok o) :
    E.firstCommit p s.calmed = .ok o := by
  induction p generalizing s with
  | ret a => exact h
  | raise e => exact absurd h (by simp [firstCommit])
  | commit k _ =>
      unfold firstCommit at h ⊢
      by_cases hf : s.faults 0
      · rw [if_pos hf] at h
        exact absurd h (by simp)
      · rw [if_neg hf] at h
        exact h
  | call c k ih =>
      rw [firstCommit_call] at h ⊢
      by_cases hf : s.faults 0
      · rw [if_pos hf] at h
        exact absurd h (by simp)
      · rw [if_neg hf] at h
        rw [show s.calmed.faults 0 = false from rfl, if_neg (by simp)]
        rw [show E.answer c s.calmed.env (E.look s.calmed) = E.answer c s.env (E.look s) from rfl]
        cases hr : E.answer c s.env (E.look s) with
        | error e => rw [hr] at h; exact absurd h (by simp)
        | ok r =>
            rw [hr] at h
            exact ih r h

/-- **A fault adds no error of its own kind**: an execution that fails has met
the fault, or fails as the calm one does. -/
theorem exec_error_calm {p : Program Cmd Resp ε α} {s : Session Db Write Env} {e : ε}
    (h : (E.exec p s).1 = .error e) : e = E.fault ∨ (E.exec p s.calmed).1 = .error e := by
  induction p generalizing s with
  | ret a => exact absurd h (by simp)
  | raise e' => exact Or.inr h
  | commit k ih =>
      rw [exec_commit] at h
      by_cases hf : s.faults 0
      · rw [if_pos hf] at h
        exact Or.inl (Except.error.inj h).symm
      · rw [if_neg hf] at h
        rcases ih h with hfault | hcalm
        · exact Or.inl hfault
        · right
          rw [exec_commit]
          exact hcalm
  | call c k ih =>
      rw [exec_call] at h
      by_cases hf : s.faults 0
      · rw [if_pos hf] at h
        exact Or.inl (Except.error.inj h).symm
      · rw [if_neg hf] at h
        rw [exec_call]
        rw [show E.answer c s.calmed.env (E.look s.calmed) = E.answer c s.env (E.look s) from rfl]
        cases hr : E.answer c s.env (E.look s) with
        | error e' =>
            rw [hr] at h
            exact Or.inr h
        -- both go on from the same answer
        | ok r =>
            rw [hr] at h
            exact ih r h

/-! ## §6. Requests. -/

/-- A request that succeeds is its calm self. -/
theorem request_ok {p : Program Cmd Resp ε α} {env : Env} {f : Nat → Bool} {db : Db} {a : α}
    (h : (E.request p env f db).1 = .ok a) :
    E.request p env f db = E.request p env calm db := by
  unfold request at h ⊢
  have hx : E.exec p ⟨db, [], env, f⟩ = (.ok a, (E.exec p ⟨db, [], env, f⟩).2) :=
    Prod.ext h rfl
  have hc := E.exec_calm_of_ok hx
  rw [show (⟨db, [], env, f⟩ : Session Db Write Env).calmed = ⟨db, [], env, calm⟩ from rfl] at hc
  rw [hx, hc]
  rfl

/-- A request that fails leaves no trace, when its commit comes last. -/
theorem request_error {p : Program Cmd Resp ε α} (hp : p.CommitsLast) {env : Env}
    {f : Nat → Bool} {db : Db} {e : ε} (h : (E.request p env f db).1 = .error e) :
    (E.request p env f db).2 = db := by
  unfold request at h ⊢
  have hx : E.exec p ⟨db, [], env, f⟩ = (.error e, (E.exec p ⟨db, [], env, f⟩).2) :=
    Prod.ext h rfl
  exact E.exec_error hp hx

theorem request_error_calm {p : Program Cmd Resp ε α} {env : Env} {f : Nat → Bool} {db : Db}
    {e : ε} (h : (E.request p env f db).1 = .error e) :
    e = E.fault ∨ (E.request p env calm db).1 = .error e :=
  E.exec_error_calm h

/-- A request with one commit leaves the old state or the one its calm self
leaves. -/
theorem request_committed {p : Program Cmd Resp ε α} (hp : p.OneCommit) (env : Env)
    (f : Nat → Bool) (db : Db) :
    (E.request p env f db).2 = db
      ∨ (E.request p env f db).2 = (E.request p env calm db).2 :=
  E.exec_committed hp ⟨db, [], env, f⟩

end Engine

end Procurement.Framework
