/-
  Procurement.Runs.Step
  ─────────────────────
  **SERIAL RUNS.**

  A step is one call, failed or not, by any caller on any ids, with the ids
  that the sequences of the database generate.  `Step.cases` says what a step
  can do to the committed state: nothing, add a user, or commit the writes of
  one operation and its key.  Every invariant of runs is proved from it.
-/
import Mathlib.Logic.Relation
import Mathlib.Tactic.Linarith
import Procurement.Routers.Atomicity

namespace Procurement

open Procurement.Framework

/-! ## §1. Steps and runs. -/

/-- The ids a sequence still hands out come after every id of its table. -/
structure Fresh (env : Env) (db : Db) : Prop where
  above : ∀ t k, ∀ i ∈ db.ids t, i < (env.supply t k).id
  increasing : ∀ t j k, j < k → (env.supply t j).id < (env.supply t k).id

/-- One call. -/
def Step (db db' : Db) : Prop :=
  ∃ (call : Call) (env : Env) (f : Nat → Bool), Fresh env db ∧ db' = (call.run env f db).2

/-- The states that serial runs from the empty database reach. -/
def Reachable : Db → Prop := Relation.ReflTransGen Step Db.empty

/-- What holds at the start and is kept by every step holds in every reachable
state. -/
theorem Reachable.invariant {P : Db → Prop} (h0 : P Db.empty)
    (hstep : ∀ db db', Reachable db → P db → Step db db' → P db') {db : Db} (h : Reachable db) :
    P db := by
  induction h with
  | refl => exact h0
  | tail hr hs ih => exact hstep _ _ hr ih hs

/-- An environment that numbers on behind the rows of `db`. -/
def Env.following (db : Db) : Env where
  supply t k := ⟨(db.ids t).foldr max 0 + k + 1, k⟩
  requestId := "-"
  hashpw plain := plain
  order l := l
  order_perm _ := .refl _

theorem le_foldr_max {i : Id} {l : List Id} (h : i ∈ l) : i ≤ l.foldr max 0 := by
  induction l with
  | nil => exact absurd h (by simp)
  | cons j l ih =>
      rcases List.mem_cons.mp h with rfl | h
      · exact le_max_left _ _
      · exact le_trans (ih h) (le_max_right _ _)

/-- There is always a next id. -/
theorem Env.following_fresh (db : Db) : Fresh (.following db) db where
  above := by
    intro t k i hi
    have hle := le_foldr_max hi
    show i < (db.ids t).foldr max 0 + k + 1
    have hk : (0 : Int) ≤ k := Int.natCast_nonneg k
    exact lt_of_le_of_lt hle (by linarith)
  increasing := by
    intro t j k hjk
    show (db.ids t).foldr max 0 + (j : Int) + 1 < (db.ids t).foldr max 0 + (k : Int) + 1
    have hjk' : (j : Int) < k := Int.ofNat_lt.mpr hjk
    linarith

/-- The state behind a calm call. -/
def Db.after (db : Db) (call : Call) : Db := (call.run (.following db) calm db).2

theorem Reachable.after {db : Db} (h : Reachable db) (call : Call) : Reachable (db.after call) :=
  h.tail ⟨call, .following db, calm, Env.following_fresh db, rfl⟩

/-! ## §2. What a step does. -/

/-- A step changes nothing, adds a user, or commits one operation. -/
inductive Effect (db : Db) : Db → Prop where
  | nothing : Effect db db
  | registered (env : Env) (data : RegisterIn) (hf : Fresh env db)
      (hfree : db.userByEmail data.email = none) :
      Effect db (engine.view (registerWrites env data) db)
  | executed {req : HttpRequest} {user : User} {env : Env} {o : Produced} (hf : Fresh env db)
      (h : Executes req user env o db) :
      Effect db (engine.view (committedWrites req user o) db)

theorem Step.cases {db db' : Db} (h : Step db db') : Effect db db' := by
  obtain ⟨call, env, f, hf, rfl⟩ := h
  cases call with
  | register data =>
      show Effect db (engine.request (handleRegister data) env f db).2
      rcases register_outcome data env f db with h | ⟨hfree, h⟩
      · rw [h]
        exact .nothing
      · rw [h]
        exact .registered env data hf hfree
  | post req =>
      show Effect db (engine.request (handle req) env f db).2
      rcases handle_cases req env f db with ⟨e, hrun⟩ | ⟨user, record, _, hrun⟩ | ⟨user, o, hx, hrun⟩
      · rw [hrun]
        exact .nothing
      · rw [hrun]
        exact .nothing
      · rw [hrun]
        exact .executed hf hx

/-! ## §3. Generated ids. -/

/-- The ids among staged writes are those the environment hands out. -/
theorem stamp_of_reaches {α : Type} {P : Cmd → Prop} {F : Db → Prop} {a b : At α}
    (h : engine.Reaches P F a b) {wr : Write} (hwr : wr ∈ b.staged) {t : Table} {i : Id}
    (hs : wr.stamp = some (t, i)) : wr ∈ a.staged ∨ ∃ k, i = (a.env.supply t k).id := by
  induction h with
  | refl a => exact Or.inl hwr
  | @call c k env ws p b _ _ _ ih =>
      rcases ih hwr with h | ⟨n, hn⟩
      · rcases List.mem_append.mp h with h | h
        · exact Or.inl h
        · -- staged by this statement
          exact Or.inr ⟨0, ((Cmd.mem_writes h).2 t i hs).2.symm⟩
      · right
        have hsupply : ∃ m, (c.next env).supply t n = env.supply t m := by
          unfold Cmd.next
          cases c.table with
          | none => exact ⟨n, rfl⟩
          | some u =>
              by_cases hu : t = u
              · exact ⟨n + 1, if_pos hu⟩
              · exact ⟨n, if_neg hu⟩
        obtain ⟨m, hm⟩ := hsupply
        exact ⟨m, hn.trans (congrArg Stamp.id hm)⟩

/-- The ids of an operation's new rows are generated ones. -/
theorem Produces.stamp {db : Db} {user : User} {env : Env} {op : Op} {o : Produced}
    (h : Produces db user env op o) {wr : Write} (hwr : wr ∈ o.writes) {t : Table} {i : Id}
    (hs : wr.stamp = some (t, i)) : ∃ k, i = (env.supply t k).id := by
  have hr := h.reaches (k := fun body => .ret body) (.refl _)
  rcases stamp_of_reaches hr hwr hs with hnil | hk
  · exact absurd hnil List.not_mem_nil
  · exact hk

/-! ## §4. The states that commits leave. -/

/-- The row of the key changes the table of the keys only. -/
theorem view_committed (req : HttpRequest) (user : User) (o : Produced) (db : Db) :
    engine.view (committedWrites req user o) db
      = { engine.view o.writes db with
          idempotencyKeys := (engine.view o.writes db).idempotencyKeys
            ++ insertedKeys (keyWrites req user o.body) } := by
  unfold committedWrites
  rw [Engine.view_append]
  unfold keyWrites
  cases req.usedKey with
  | none => exact (by simp [insertedKeys])
  | some k => rfl

/-- A row of a request whose acceptance has been committed. -/
def decided (winnerId : Id) (amount : Amount) (losers : List Id) (n : Negotiation) : Negotiation :=
  if n.id = winnerId then (Decision.accepted amount).on n
  else if n.id ∈ losers then Decision.rejected.on n
  else n

@[simp] theorem decided_id (w : Id) (a : Amount) (ls : List Id) (n : Negotiation) :
    (decided w a ls n).id = n.id := by
  unfold decided
  split
  · rfl
  · split <;> rfl

@[simp] theorem decided_requestId (w : Id) (a : Amount) (ls : List Id) (n : Negotiation) :
    (decided w a ls n).requestId = n.requestId := by
  unfold decided
  split
  · rfl
  · split <;> rfl

@[simp] theorem decided_supplierId (w : Id) (a : Amount) (ls : List Id) (n : Negotiation) :
    (decided w a ls n).supplierId = n.supplierId := by
  unfold decided
  split
  · rfl
  · split <;> rfl

/-- The entries of the superseding loop. -/
def supersedeEntries (winnerId : Id) : Env → List Negotiation → List AuditLog
  | _, [] => []
  | env, sib :: siblings =>
      env.entry .negotiationSuperseded .negotiation (some sib.id) none (.winner winnerId) ::
        supersedeEntries winnerId (env.pop .auditLog) siblings

/-- The superseding loop rejects its siblings, and adds an entry for each. -/
theorem view_supersede (w : Id) (siblings : List Negotiation) :
    ∀ (env : Env) (db : Db), engine.view (supersedeWrites w env siblings) db
      = { db with
          negotiations := db.negotiations.map fun n =>
            if n.id ∈ siblings.map Negotiation.id then Decision.rejected.on n else n
          auditLog := db.auditLog ++ supersedeEntries w env siblings } := by
  induction siblings with
  | nil =>
      intro env db
      simp [supersedeWrites, supersedeEntries]
  | cons sib siblings ih =>
      intro env db
      show engine.view (supersedeWrites w (env.pop .auditLog) siblings) _ = _
      rw [ih]
      simp only [engine_apply, Write.apply, supersedeEntries, List.append_assoc,
        List.singleton_append]
      congr 1
      unfold update
      rw [List.map_map]
      refine List.map_congr_left fun n _ => ?_
      by_cases hn : n.id = sib.id
      · -- rejected here, and rejecting it once more changes nothing
        simp only [Function.comp, hn, if_true, List.map_cons, List.mem_cons, true_or]
        split <;> rfl
      · simp only [Function.comp, hn, if_false, List.map_cons, List.mem_cons, false_or]

/-- **The state behind an acceptance.** -/
theorem view_accept (env : Env) (user : User) (neg : Negotiation) (last : Proposal)
    (req : ProductRequest) (siblings : List Negotiation) (db : Db)
    (hw : neg.id ∉ siblings.map Negotiation.id) :
    engine.view (acceptWrites env user neg last req siblings) db
      = { db with
          requests := update ProductRequest.id db.requests req.id fun r =>
            { r with status := .closed }
          negotiations := db.negotiations.map
            (decided neg.id last.amount (siblings.map Negotiation.id))
          auditLog := db.auditLog ++ supersedeEntries neg.id env siblings
            ++ [(env.afterSupersede siblings).entry .negotiationAccepted .negotiation
              (some neg.id) (some user.id) (.agreed last.amount)] } := by
  show engine.view (supersedeWrites neg.id env siblings ++ [.insertAudit _]) _ = _
  rw [Engine.view_append, view_supersede]
  simp only [engine_apply, Write.apply, Engine.view_cons, Engine.view_nil]
  congr 1
  unfold update
  rw [List.map_map]
  refine List.map_congr_left fun n _ => ?_
  unfold decided
  by_cases hn : n.id = neg.id
  -- the winner is no sibling, so the loop leaves its row as the decision wrote it
  · have hon : ((Decision.accepted last.amount).on n).id = neg.id := hn
    simp only [Function.comp, hn, if_true, hon, hw, if_false]
  · simp only [Function.comp, hn, if_false]

/-- The ids of the siblings are not the winner's. -/
theorem winner_not_sibling {db : Db} {env : Env} {rid w : Id} :
    w ∉ (env.order (db.activeSiblings rid w)).map Negotiation.id := by
  intro h
  obtain ⟨n, hn, hid⟩ := List.mem_map.mp h
  have hmem : n ∈ db.activeSiblings rid w := (env.order_perm _).mem_iff.mp hn
  unfold Db.activeSiblings at hmem
  rw [List.mem_filter] at hmem
  have hne := hmem.2
  simp at hne
  exact hne.2.2 hid

end Procurement
