/-
  Procurement.Framework.Storing
  ─────────────────────────────
  **AN ENGINE WHOSE TABLES HOLD WHAT THEIR COLUMNS CAN.**

  `E.storing store` is the engine `E` with tables that hold `store w` for a write
  `w`, and refuse a write without one; a statement with a refused write fails.

  A program that gets somewhere on `E` by writes that are all held as they are
  gets there on `E.storing store` too (`Reaches.storing`).  When one of them is
  refused, it fails, and nothing is committed (`Reaches.refused`).  Whatever a
  program does, the committed state is made of what the tables hold
  (`exec_storing_invariant`).
-/
import Procurement.Framework.Replay

namespace Procurement.Framework

variable {Cmd : Type} {Resp : Cmd → Type} {ε Db Write Env : Type}
variable {α : Type}

namespace Engine

/-- The tables hold of a write what `store` says. -/
def storing (E : Engine Cmd Resp ε Db Write Env) (store : Write → Option Write) :
    Engine Cmd Resp ε Db Write Env where
  answer c env db :=
    if ∀ w ∈ E.writes c env, (store w).isSome then E.answer c env db else .error E.fault
  writes c env := (E.writes c env).filterMap store
  next := E.next
  apply := E.apply
  fault := E.fault

variable {E : Engine Cmd Resp ε Db Write Env} {store : Write → Option Write}

@[simp] theorem storing_view (ws : List Write) (db : Db) :
    (E.storing store).view ws db = E.view ws db := rfl

/-! ## §1. Writes that are held. -/

/-- Held as it is. -/
def Held (store : Write → Option Write) (ws : List Write) : Prop := ∀ w ∈ ws, store w = some w

theorem Held.filterMap {ws : List Write} (h : Held store ws) : ws.filterMap store = ws := by
  induction ws with
  | nil => rfl
  | cons w ws ih =>
      rw [List.filterMap_cons_some (h w (by simp))]
      rw [ih fun v hv => h v (List.mem_cons_of_mem _ hv)]

/-- A statement whose writes are all held. -/
theorem storing_of_held {c : Cmd} {env : Env} (h : Held store (E.writes c env)) :
    (E.storing store).writes c env = E.writes c env
      ∧ ∀ db, (E.storing store).answer c env db = E.answer c env db := by
  refine ⟨h.filterMap, fun db => ?_⟩
  refine if_pos fun w hw => ?_
  rw [h w hw]
  rfl

/-- A statement with a refused write fails. -/
theorem storing_of_refused {c : Cmd} {env : Env} {w : Write} (hw : w ∈ E.writes c env)
    (hno : store w = none) (db : Db) : (E.storing store).answer c env db = .error E.fault := by
  refine if_neg fun hall => ?_
  have hsome := hall w hw
  rw [hno] at hsome
  exact absurd hsome (by simp)

/-! ## §2. Programs. -/

variable {P : Cmd → Prop} {F : Db → Prop} {a b : Point Cmd Resp ε Write Env α}

/-- What has been staged stays staged. -/
theorem Reaches.staged_subset (h : E.Reaches P F a b) : a.staged ⊆ b.staged := by
  induction h with
  | refl a => exact List.Subset.refl _
  | call _ _ _ ih => exact fun w hw => ih (List.mem_append_left _ hw)

/-- **With held writes a program gets to the same point.** -/
theorem Reaches.storing (h : E.Reaches P F a b) (hheld : Held store b.staged) :
    (E.storing store).Reaches P F a b := by
  induction h with
  | refl a => exact .refl a
  | @call c k env ws q b hc h rest ih =>
      have hnow : Held store (E.writes c env) :=
        fun w hw => hheld w (rest.staged_subset (List.mem_append_right _ hw))
      obtain ⟨hwrites, hanswer⟩ := storing_of_held (E := E) hnow
      refine .call (p := q) hc (fun db hdb => ?_) ?_
      · rw [hanswer]
        exact h db hdb
      · rw [hwrites]
        exact ih hheld

/-- **With a refused write it fails**, and leaves the committed state as it was. -/
theorem Reaches.refused (h : E.Reaches P F a b) {db : Db} (hdb : F db)
    (hstaged : Held store a.staged) (hstore : ∀ w ∈ b.staged, store w = some w ∨ store w = none)
    (hno : ¬ Held store b.staged) :
    ((E.storing store).exec a.prog ⟨db, a.staged, a.env, calm⟩).1 = .error E.fault
      ∧ ((E.storing store).exec a.prog ⟨db, a.staged, a.env, calm⟩).2.committed = db := by
  induction h with
  | refl a => exact absurd hstaged hno
  | @call c k env ws p b hc h rest ih =>
      by_cases hnow : Held store (E.writes c env)
      · -- this statement goes through
        obtain ⟨r, hr, rfl⟩ := h db hdb
        obtain ⟨hwrites, hanswer⟩ := storing_of_held (E := E) hnow
        have hstep : (E.storing store).answer c env ((E.storing store).view ws db) = .ok r := by
          rw [hanswer]
          exact hr
        rw [exec_call_calm _ hstep, hwrites]
        refine ih ?_ hstore hno
        intro w hw
        rcases List.mem_append.mp hw with hw | hw
        · exact hstaged w hw
        · exact hnow w hw
      · -- one of its writes is refused
        unfold Held at hnow
        push Not at hnow
        obtain ⟨w, hw, hne⟩ := hnow
        have hrefused : store w = none :=
          (hstore w (rest.staged_subset (List.mem_append_right _ hw))).resolve_left hne
        have hexec : (E.storing store).exec (.call c k) ⟨db, ws, env, calm⟩
            = (.error E.fault, (⟨db, ws, env, calm⟩ : Session Db Write Env).tick) :=
          exec_call_failed _ (storing_of_refused hw hrefused _)
        exact ⟨congrArg Prod.fst hexec, congrArg (fun r => r.2.committed) hexec⟩

/-- A program that only reads does not notice. -/
theorem exec_storing_reads {p : Program Cmd Resp ε α}
    (hp : p.Uses fun c => ∀ env, E.writes c env = []) (s : Session Db Write Env) :
    (E.storing store).exec p s = E.exec p s := by
  induction p generalizing s with
  | ret a => rfl
  | raise e => rfl
  | commit k _ => exact hp.elim
  | call c k ih =>
      have hnow : Held store (E.writes c s.env) := by
        rw [hp.1 s.env]
        exact fun w hw => absurd hw List.not_mem_nil
      obtain ⟨hwrites, hanswer⟩ := storing_of_held (E := E) hnow
      rw [exec_call, exec_call]
      by_cases hf : s.faults 0
      · simp only [hf, if_true]
        rfl
      · have hlook : (E.storing store).look s = E.look s := rfl
        simp only [hf, Bool.false_eq_true, if_false, hlook, hanswer, hwrites]
        cases E.answer c s.env (E.look s) with
        | error e => rfl
        | ok r => exact ih r (hp.2 r) _

/-- Behind a commit, reads are all the same. -/
theorem exec_storing_commit {k : Program Cmd Resp ε α}
    (hk : k.Uses fun c => ∀ env, E.writes c env = []) (db : Db) (ws : List Write) (env : Env) :
    (E.storing store).exec (.commit k) ⟨db, ws, env, calm⟩
      = E.exec (.commit k) ⟨db, ws, env, calm⟩ := by
  rw [exec_commit_calm, exec_commit_calm]
  exact exec_storing_reads hk _

/-! ## §3. Requests. -/

section
variable {p q : Program Cmd Resp ε α} {env env' : Env} {ws : List Write} {db : Db}

/-- **A request whose writes are all held** is what it is on `E`. -/
theorem request_storing (h : E.Reaches P (· = db) ⟨p, env, []⟩ ⟨q, env', ws⟩)
    (hheld : Held store ws)
    (hq : (E.storing store).exec q ⟨db, ws, env', calm⟩ = E.exec q ⟨db, ws, env', calm⟩) :
    (E.storing store).request p env calm db = E.request p env calm db := by
  have hstored : (E.storing store).exec p ⟨db, [], env, calm⟩
      = (E.storing store).exec q ⟨db, ws, env', calm⟩ := (h.storing hheld).exec rfl
  have hplain : E.exec p ⟨db, [], env, calm⟩ = E.exec q ⟨db, ws, env', calm⟩ := h.exec rfl
  unfold request
  rw [hstored, hq, hplain]

/-- **A request with a refused write** fails and leaves no trace. -/
theorem request_refused (h : E.Reaches P (· = db) ⟨p, env, []⟩ ⟨q, env', ws⟩)
    (hstore : ∀ w ∈ ws, store w = some w ∨ store w = none) (hno : ¬ Held store ws) :
    (E.storing store).request p env calm db = (.error E.fault, db) := by
  have hnil : Held store ([] : List Write) := fun w hw => absurd hw List.not_mem_nil
  obtain ⟨hanswer, hstate⟩ := h.refused rfl hnil hstore hno
  exact Prod.ext hanswer hstate

end

/-! ## §4. The committed state. -/

section
variable {I : Db → Prop}

theorem view_invariant (hI : ∀ w v db, store w = some v → I db → I (E.apply v db)) {ws : List Write}
    (hws : ∀ v ∈ ws, ∃ w, store w = some v) {db : Db} (hdb : I db) : I (E.view ws db) := by
  induction ws generalizing db with
  | nil => exact hdb
  | cons v ws ih =>
      obtain ⟨w, hw⟩ := hws v (by simp)
      exact ih (fun u hu => hws u (List.mem_cons_of_mem _ hu)) (hI w v db hw hdb)

/-- **What held writes keep, every program keeps.** -/
theorem exec_storing_invariant (hI : ∀ w v db, store w = some v → I db → I (E.apply v db))
    (p : Program Cmd Resp ε α) (s : Session Db Write Env) (hs : I s.committed)
    (hstaged : ∀ v ∈ s.staged, ∃ w, store w = some v) :
    I ((E.storing store).exec p s).2.committed := by
  induction p generalizing s with
  | ret a => exact hs
  | raise e => exact hs
  | commit k ih =>
      rw [exec_commit]
      by_cases hf : s.faults 0
      · simp only [hf, if_true]
        exact hs
      · simp only [hf, Bool.false_eq_true, if_false]
        refine ih _ ?_ fun v hv => absurd hv List.not_mem_nil
        exact view_invariant hI hstaged hs
  | call c k ih =>
      rw [exec_call]
      by_cases hf : s.faults 0
      · simp only [hf, if_true]
        exact hs
      · simp only [hf, Bool.false_eq_true, if_false]
        cases (E.storing store).answer c s.env ((E.storing store).look s) with
        | error e => exact hs
        | ok r =>
            refine ih r _ hs ?_
            -- what the statement stages is what the tables hold
            intro v hv
            rcases List.mem_append.mp hv with hv | hv
            · exact hstaged v hv
            · obtain ⟨w, _, hw⟩ := List.mem_filterMap.mp hv
              exact ⟨w, hw⟩

end

end Engine

end Procurement.Framework
