/-
  Procurement.Framework.Refusing
  ──────────────────────────────
  **AN ENGINE THAT DOES NOT TAKE EVERY VALUE.**

  A driver or a column may refuse a statement for its values alone, whatever the
  tables hold: `E.refusing refuses` is the engine `E` that does.

  Such a refusal is a fault at that statement, so what holds of a program under
  every stream of faults holds of it here (`request_refusing`).  A program whose
  statements are all taken does not notice (`request_accepted`).  The tables of
  `Engine.storing` are a case of it (`exec_storing_refusing`).
-/
import Procurement.Framework.Storing

namespace Procurement.Framework

variable {Cmd : Type} {Resp : Cmd → Type} {ε Db Write Env : Type}
variable {α : Type}

namespace Engine

/-- The engine fails at the statements that it refuses. -/
def refusing (E : Engine Cmd Resp ε Db Write Env) (refuses : Cmd → Env → Bool) :
    Engine Cmd Resp ε Db Write Env where
  answer c env db := if refuses c env then .error E.fault else E.answer c env db
  writes := E.writes
  next := E.next
  apply := E.apply
  fault := E.fault

variable (E : Engine Cmd Resp ε Db Write Env)

/-- The statements that a program sends when nothing fails, each with what is left of the
environment. -/
def sent : Program Cmd Resp ε α → List Write → Env → Db → List (Cmd × Env)
  | .ret _, _, _, _ => []
  | .raise _, _, _, _ => []
  | .commit k, ws, env, db => sent k [] env (E.view ws db)
  | .call c k, ws, env, db =>
      (c, env) :: match E.answer c env (E.view ws db) with
        | .error _ => []
        | .ok r => sent (k r) (ws ++ E.writes c env) (E.next c env) db

/-- A stream of faults behind a first step. -/
def firstly (b : Bool) (f : Nat → Bool) : Nat → Bool
  | 0 => b
  | n + 1 => f n

variable {E} {refuses : Cmd → Env → Bool}

/-! ## §1. Refusals are faults. -/

theorem refusing_refused {c : Cmd} {env : Env} (h : refuses c env = true) (db : Db) :
    (E.refusing refuses).answer c env db = .error E.fault :=
  if_pos h

theorem refusing_taken {c : Cmd} {env : Env} (h : refuses c env = false) (db : Db) :
    (E.refusing refuses).answer c env db = E.answer c env db :=
  if_neg (by simp [h])

variable (E refuses)

/-- **A refusal is a fault of its step**, seen from what the program answers and from
what it commits. -/
theorem exec_refusing (p : Program Cmd Resp ε α) (s : Session Db Write Env) :
    ∃ f, ((E.refusing refuses).exec p s).1 = (E.exec p { s with faults := f }).1
      ∧ ((E.refusing refuses).exec p s).2.committed
          = (E.exec p { s with faults := f }).2.committed := by
  induction p generalizing s with
  | ret a => exact ⟨s.faults, rfl, rfl⟩
  | raise e => exact ⟨s.faults, rfl, rfl⟩
  | commit k ih =>
      obtain ⟨f, hanswer, hstate⟩ := ih { s.tick with committed := E.look s, staged := [] }
      refine ⟨firstly (s.faults 0) f, ?_⟩
      rw [exec_commit, exec_commit]
      by_cases hf : s.faults 0
      · simp only [hf, firstly, if_true]
        exact ⟨rfl, rfl⟩
      · simp only [hf, firstly, Bool.false_eq_true, if_false]
        exact ⟨hanswer, hstate⟩
  | call c k ih =>
      have hlook : (E.refusing refuses).look s = E.look s := rfl
      rw [exec_call]
      by_cases hf : s.faults 0
      · refine ⟨s.faults, ?_⟩
        rw [exec_call, if_pos hf, if_pos hf]
        exact ⟨rfl, rfl⟩
      rw [if_neg hf, hlook]
      cases hr : refuses c s.env with
      | true =>
          -- the refused step is the faulty one
          refine ⟨firstly true s.faults, ?_⟩
          rw [exec_call, refusing_refused hr]
          exact ⟨rfl, rfl⟩
      | false =>
          rw [refusing_taken hr]
          cases ha : E.answer c s.env (E.look s) with
          | error e =>
              refine ⟨s.faults, ?_⟩
              have hview : E.look { s with faults := s.faults } = E.look s := rfl
              rw [exec_call, if_neg hf, hview, ha]
              exact ⟨rfl, rfl⟩
          | ok r =>
              obtain ⟨f, hanswer, hstate⟩ := ih r
                { s.tick with staged := s.staged ++ E.writes c s.env, env := E.next c s.env }
              refine ⟨firstly false f, ?_⟩
              have hview : E.look { s with faults := firstly false f } = E.look s := rfl
              rw [exec_call, if_neg (by simp [firstly]), hview, ha]
              exact ⟨hanswer, hstate⟩

/-- **What holds under all faults holds under refusals.** -/
theorem request_refusing (p : Program Cmd Resp ε α) (env : Env) (f : Nat → Bool) (db : Db) :
    ∃ f', (E.refusing refuses).request p env f db = E.request p env f' db := by
  obtain ⟨f', hanswer, hstate⟩ := exec_refusing E refuses p ⟨db, [], env, f⟩
  exact ⟨f', Prod.ext hanswer hstate⟩

variable {E refuses}

/-! ## §2. Statements that are taken. -/

/-- A program whose statements are all taken does what it does. -/
theorem exec_accepted (p : Program Cmd Resp ε α) (db : Db) (ws : List Write) (env : Env)
    (h : ∀ c ∈ E.sent p ws env db, refuses c.1 c.2 = false) :
    (E.refusing refuses).exec p ⟨db, ws, env, calm⟩ = E.exec p ⟨db, ws, env, calm⟩ := by
  induction p generalizing db ws env with
  | ret a => rfl
  | raise e => rfl
  | commit k ih =>
      rw [exec_commit_calm, exec_commit_calm]
      exact ih _ _ _ h
  | call c k ih =>
      unfold sent at h
      have hnow : refuses c env = false := h (c, env) List.mem_cons_self
      cases ha : E.answer c env (E.view ws db) with
      | error e =>
          have htaken : (E.refusing refuses).answer c env ((E.refusing refuses).view ws db)
              = .error e := (refusing_taken hnow _).trans ha
          rw [exec_call_failed _ htaken, exec_call_failed _ ha]
      | ok r =>
          have htaken : (E.refusing refuses).answer c env ((E.refusing refuses).view ws db) = .ok r :=
            (refusing_taken hnow _).trans ha
          rw [exec_call_calm _ htaken, exec_call_calm _ ha]
          refine ih r _ _ _ fun x hx => h x (List.mem_cons_of_mem _ ?_)
          rw [ha]
          exact hx

/-- **A request whose statements are all taken** is what it is on `E`. -/
theorem request_accepted {p : Program Cmd Resp ε α} {env : Env} {db : Db}
    (h : ∀ c ∈ E.sent p [] env db, refuses c.1 c.2 = false) :
    (E.refusing refuses).request p env calm db = E.request p env calm db := by
  unfold request
  rw [exec_accepted p db [] env h]

/-! ## §3. Columns. -/

/-- **Tables that hold a row as it is or not at all** refuse the statements with the
others. -/
theorem exec_storing_refusing {store : Write → Option Write}
    (hstore : ∀ w, store w = some w ∨ store w = none)
    (hrefuses : ∀ c env, refuses c env = true ↔ ∃ w ∈ E.writes c env, store w = none)
    (p : Program Cmd Resp ε α) (s : Session Db Write Env) :
    (E.storing store).exec p s = (E.refusing refuses).exec p s := by
  induction p generalizing s with
  | ret a => rfl
  | raise e => rfl
  | commit k ih =>
      rw [exec_commit, exec_commit]
      have hlook : (E.storing store).look s = (E.refusing refuses).look s := rfl
      rw [hlook, ih]
      rfl
  | call c k ih =>
      rw [exec_call, exec_call]
      by_cases hf : s.faults 0
      · simp only [hf, if_true]
        rfl
      have hlook : (E.storing store).look s = (E.refusing refuses).look s := rfl
      simp only [hf, hlook, Bool.false_eq_true, if_false]
      by_cases hr : refuses c s.env
      · obtain ⟨w, hw, hno⟩ := (hrefuses c s.env).mp hr
        have hanswer : ∀ db, (E.refusing refuses).answer c s.env db = .error E.fault :=
          fun db => if_pos hr
        rw [storing_of_refused hw hno, hanswer]
      · have hheld : Held store (E.writes c s.env) :=
          fun w hw => (hstore w).resolve_right fun hno => hr ((hrefuses c s.env).mpr ⟨w, hw, hno⟩)
        obtain ⟨hwrites, hanswer⟩ := storing_of_held hheld
        have htaken : ∀ db, (E.refusing refuses).answer c s.env db = E.answer c s.env db :=
          fun db => if_neg hr
        rw [hwrites, hanswer, htaken]
        cases E.answer c s.env ((E.refusing refuses).look s) with
        | error e => rfl
        | ok r => exact ih r _

end Engine

end Procurement.Framework
