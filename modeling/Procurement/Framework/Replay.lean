/-
  Procurement.Framework.Replay
  ────────────────────────────
  **WHERE A PROGRAM GETS ON EVERY DATABASE WITH A GIVEN FACT.**

  A point is what is left of a program, with what is left of its environment
  and the writes it has staged.  `Reaches P F a b` says: on every committed
  state that satisfies the fact `F`, the program at `a` gets to `b` by commands
  that satisfy `P`, whatever else that state contains.  An answer may depend on
  the rest of the state as long as the program that continues with it does not.

  A serial execution is the case of one state (`Reaches.exec`).  In an
  interleaving, `F` is what the locks of a transaction protect: as long as it
  holds, the transaction's past can be replayed and its future is fixed
  (`Reaches.advance`).
-/
import Procurement.Framework.Serial

namespace Procurement.Framework

variable {Cmd : Type} {Resp : Cmd → Type} {ε Db Write Env : Type}
variable {α β : Type}

/-- Where a transaction stands. -/
structure Point (Cmd : Type) (Resp : Cmd → Type) (ε Write Env α : Type) where
  prog : Program Cmd Resp ε α
  env : Env
  staged : List Write

namespace Engine

variable (E : Engine Cmd Resp ε Db Write Env)

/-- On every state with the fact `F`, the first point leads to the second, and
the commands on the way satisfy `P`. -/
inductive Reaches (P : Cmd → Prop) (F : Db → Prop) :
    Point Cmd Resp ε Write Env α → Point Cmd Resp ε Write Env α → Prop where
  | refl (a : Point Cmd Resp ε Write Env α) : Reaches P F a a
  | call {c : Cmd} {k : Resp c → Program Cmd Resp ε α} {env : Env} {ws : List Write}
      {p : Program Cmd Resp ε α} {b : Point Cmd Resp ε Write Env α} (hc : P c)
      (h : ∀ db, F db → ∃ r, E.answer c env (E.view ws db) = .ok r ∧ k r = p)
      (rest : Reaches P F ⟨p, E.next c env, ws ++ E.writes c env⟩ b) :
      Reaches P F ⟨.call c k, env, ws⟩ b

variable {E} {P Q : Cmd → Prop} {F G : Db → Prop}

namespace Reaches

/-- A step whose answer is the same on every state with the fact. -/
theorem answer {c : Cmd} {k : Resp c → Program Cmd Resp ε α} {env : Env} {ws : List Write}
    {b : Point Cmd Resp ε Write Env α} {r : Resp c} (hc : P c)
    (h : ∀ db, F db → E.answer c env (E.view ws db) = .ok r)
    (rest : E.Reaches P F ⟨k r, E.next c env, ws ++ E.writes c env⟩ b) :
    E.Reaches P F ⟨.call c k, env, ws⟩ b :=
  .call hc (fun db hdb => ⟨r, h db hdb, rfl⟩) rest

/-- A statement that only reads. -/
theorem read {c : Cmd} {k : Resp c → Program Cmd Resp ε α} {env : Env} {ws : List Write}
    {b : Point Cmd Resp ε Write Env α} {r : Resp c} (hc : P c) (hw : E.writes c env = [])
    (hn : E.next c env = env) (h : ∀ db, F db → E.answer c env (E.view ws db) = .ok r)
    (rest : E.Reaches P F ⟨k r, env, ws⟩ b) : E.Reaches P F ⟨.call c k, env, ws⟩ b := by
  refine .answer hc h ?_
  rw [hw, hn, List.append_nil]
  exact rest

/-- One way behind the other. -/
theorem trans {a b c : Point Cmd Resp ε Write Env α} (hab : E.Reaches P F a b)
    (hbc : E.Reaches P F b c) : E.Reaches P F a c := by
  induction hab with
  | refl a => exact hbc
  | call hc h _ ih => exact .call hc h (ih hbc)

/-- **A serial execution goes through the points it reaches.** -/
theorem exec {a b : Point Cmd Resp ε Write Env α} (h : E.Reaches P F a b) {db : Db} (hdb : F db) :
    E.exec a.prog ⟨db, a.staged, a.env, calm⟩ = E.exec b.prog ⟨db, b.staged, b.env, calm⟩ := by
  induction h with
  | refl a => rfl
  -- on this state the answer is one that leads on
  | call _ h _ ih =>
      obtain ⟨r, hr, rfl⟩ := h db hdb
      rw [exec_call_calm E hr]
      exact ih

/-- So does its first commit. -/
theorem firstCommit {a b : Point Cmd Resp ε Write Env α} (h : E.Reaches P F a b) {db : Db}
    (hdb : F db) :
    E.firstCommit a.prog ⟨db, a.staged, a.env, calm⟩
      = E.firstCommit b.prog ⟨db, b.staged, b.env, calm⟩ := by
  induction h with
  | refl a => rfl
  | call _ h _ ih =>
      obtain ⟨r, hr, rfl⟩ := h db hdb
      rw [firstCommit_call]
      simp only [calm, Bool.false_eq_true, if_false, look, hr]
      exact ih

/-- **One step of a transaction on the way**: a command that is answered `r` on
a state with the fact is allowed, and leaves a point that is still on the way. -/
theorem advance {c : Cmd} {k : Resp c → Program Cmd Resp ε α} {env : Env} {ws : List Write}
    {b : Point Cmd Resp ε Write Env α} (h : E.Reaches P F ⟨.call c k, env, ws⟩ b)
    (hb : b ≠ ⟨.call c k, env, ws⟩) {db : Db} (hdb : F db) :
    P c ∧ ∃ r, E.answer c env (E.view ws db) = .ok r ∧
      E.Reaches P F ⟨k r, E.next c env, ws ++ E.writes c env⟩ b := by
  cases h with
  | refl => exact absurd rfl hb
  | call hc h rest =>
      obtain ⟨r, hr, rfl⟩ := h db hdb
      exact ⟨hc, r, hr, rest⟩

end Reaches

end Engine

end Procurement.Framework
