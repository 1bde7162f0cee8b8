/-
  Procurement.Framework.Alike
  ───────────────────────────
  **TWO PROGRAMS ON TWO DATABASES, STEP BY STEP.**

  `Q` relates the states of two databases.  Two programs are `Alike` when, on
  related states, they send command for command, are answered related answers,
  keep the states related, raise the same errors, and end with related values.
  They meet the same faults and are handed the same generated ids, so a fault
  ends both at the same place.

      ret, raise, commit, call   — one rule for each head of a program
      Alike.bind                 — programs in sequence
      Alike.request              — two requests in their own sessions

  Properties of two runs (what a run does not depend on, what a user cannot
  tell apart) come down to finding `Q`.
-/
import Procurement.Framework.Serial

namespace Procurement.Framework

variable {Cmd : Type} {Resp : Cmd → Type} {ε Db Write Env : Type}
variable {α β γ δ : Type}

/-- The same error, or related values. -/
inductive Similar (V : α → β → Prop) : Except ε α → Except ε β → Prop where
  | error (e : ε) : Similar V (.error e) (.error e)
  | ok {a : α} {b : β} (h : V a b) : Similar V (.ok a) (.ok b)

theorem Similar.mono {V W : α → β → Prop} (hVW : ∀ a b, V a b → W a b) {o : Except ε α}
    {o' : Except ε β} (h : Similar V o o') : Similar W o o' := by
  cases h with
  | error e => exact .error e
  | ok h => exact .ok (hVW _ _ h)

/-- Values related by equality: the same outcome. -/
theorem similar_eq {o o' : Except ε α} : Similar Eq o o' ↔ o = o' := by
  constructor
  · intro h
    cases h with
    | error e => rfl
    | ok h => rw [h]
  · rintro rfl
    cases o with
    | error e => exact .error e
    | ok a => exact .ok rfl

namespace Engine

variable (E : Engine Cmd Resp ε Db Write Env) (Q : Db → Db → Prop)

/-- Two commands with related answers `A`: both are answered or both raise, what
they stage keeps the states related, and they use up the same of the
environment. -/
structure Matched (env : Env) (c c' : Cmd) (A : Resp c → Resp c' → Prop) : Prop where
  answers : ∀ db db', Q db db' → Similar A (E.answer c env db) (E.answer c' env db')
  writes : ∀ db db', Q db db' → Q (E.view (E.writes c env) db) (E.view (E.writes c' env) db')
  next : E.next c env = E.next c' env

/-- The programs take the same way on related states, from the environment `env`
on, and end with values that `V` relates. -/
inductive Alike (V : α → β → Prop) :
    Env → Program Cmd Resp ε α → Program Cmd Resp ε β → Prop where
  | ret {env : Env} {a : α} {b : β} (h : V a b) : Alike V env (.ret a) (.ret b)
  | raise {env : Env} (e : ε) : Alike V env (.raise e) (.raise e)
  | commit {env : Env} {k : Program Cmd Resp ε α} {k' : Program Cmd Resp ε β}
      (h : Alike V env k k') : Alike V env (.commit k) (.commit k')
  | call {env : Env} {c c' : Cmd} {k : Resp c → Program Cmd Resp ε α}
      {k' : Resp c' → Program Cmd Resp ε β} {A : Resp c → Resp c' → Prop}
      (hc : E.Matched Q env c c' A)
      (h : ∀ r r', A r r' → Alike V (E.next c env) (k r) (k' r')) :
      Alike V env (.call c k) (.call c' k')

variable {E Q}

namespace Alike

/-- One after the other. -/
theorem bind {U : α → β → Prop} {V : γ → δ → Prop} {env : Env} {p : Program Cmd Resp ε α}
    {p' : Program Cmd Resp ε β} {f : α → Program Cmd Resp ε γ} {f' : β → Program Cmd Resp ε δ}
    (hp : E.Alike Q U env p p')
    (hf : ∀ env a b, U a b → E.Alike Q V env (f a) (f' b)) :
    E.Alike Q V env (p >>= f) (p' >>= f') := by
  induction hp with
  | ret h => exact hf _ _ _ h
  | raise e => exact .raise e
  | commit _ ih => exact .commit ih
  | call hc _ ih => exact .call hc fun r r' hr => ih r r' hr

theorem mono {V W : α → β → Prop} (hVW : ∀ a b, V a b → W a b) {env : Env}
    {p : Program Cmd Resp ε α} {p' : Program Cmd Resp ε β} (h : E.Alike Q V env p p') :
    E.Alike Q W env p p' := by
  induction h with
  | ret h => exact .ret (hVW _ _ h)
  | raise e => exact .raise e
  | commit _ ih => exact .commit ih
  | call hc _ ih => exact .call hc fun r r' hr => ih r r' hr

/-- **Alike programs in two sessions.**  With the same faults ahead, they end
alike and leave related states. -/
theorem exec {V : α → β → Prop} {env : Env} {p : Program Cmd Resp ε α}
    {p' : Program Cmd Resp ε β} (h : E.Alike Q V env p p') {db db' : Db} {ws ws' : List Write}
    {f : Nat → Bool} (hdb : Q db db') (hlook : Q (E.view ws db) (E.view ws' db')) :
    Similar V (E.exec p ⟨db, ws, env, f⟩).1 (E.exec p' ⟨db', ws', env, f⟩).1
      ∧ Q (E.exec p ⟨db, ws, env, f⟩).2.committed (E.exec p' ⟨db', ws', env, f⟩).2.committed := by
  induction h generalizing db db' ws ws' f with
  | ret h => exact ⟨.ok h, hdb⟩
  | raise e => exact ⟨.error e, hdb⟩
  | commit _ ih =>
      rw [exec_commit, exec_commit]
      by_cases hf : f 0 = true
      · rw [if_pos hf, if_pos hf]
        exact ⟨.error E.fault, hdb⟩
      · rw [if_neg hf, if_neg hf]
        -- what was staged is committed, and nothing is staged
        exact ih hlook hlook
  | @call env c c' k k' A hc _ ih =>
      rw [exec_call, exec_call]
      by_cases hf : f 0 = true
      · rw [if_pos hf, if_pos hf]
        exact ⟨.error E.fault, hdb⟩
      · rw [if_neg hf, if_neg hf]
        have hanswers := hc.answers _ _ hlook
        have hwrites := hc.writes _ _ hlook
        rw [show E.look ⟨db, ws, env, f⟩ = E.view ws db from rfl,
          show E.look ⟨db', ws', env, f⟩ = E.view ws' db' from rfl]
        generalize E.answer c env (E.view ws db) = o at hanswers
        generalize E.answer c' env (E.view ws' db') = o' at hanswers
        cases hanswers with
        | error e => exact ⟨.error e, hdb⟩
        | ok hr =>
            rw [← E.view_append, ← E.view_append] at hwrites
            have hrest := ih _ _ hr hdb hwrites (f := fun n => f (n + 1))
            rw [hc.next] at hrest ⊢
            exact hrest

/-- **Alike requests** answer alike and leave related states. -/
theorem request {V : α → β → Prop} {env : Env} {p : Program Cmd Resp ε α}
    {p' : Program Cmd Resp ε β} (h : E.Alike Q V env p p') {db db' : Db} (hdb : Q db db')
    (f : Nat → Bool) :
    Similar V (E.request p env f db).1 (E.request p' env f db').1
      ∧ Q (E.request p env f db).2 (E.request p' env f db').2 :=
  h.exec hdb hdb

end Alike

end Engine

end Procurement.Framework
