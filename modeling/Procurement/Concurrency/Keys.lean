/-
  Procurement.Concurrency.Keys
  ────────────────────────────
  **ONE EFFECT FOR EACH KEY.**

  The lookup of a key reads committed rows only, so any number of requests with
  one key may pass it and stage their effects.  What decides is the row of the
  key, which is staged last and committed with the effect: a request that has
  staged it owns the key, and nobody has committed the key before
  (`KeyPhase.filed`).

  Nothing here depends on what the operations do, or on the state they start
  from; they commit nothing themselves and leave the keys alone (`Service`).
-/
import Procurement.Concurrency.Serializability
import Procurement.Runs.Reuse

namespace Procurement

open Procurement.Framework
open Procurement.Framework.Program

/-! ## §1. The phases of a request. -/

/-- The response that a record stores. -/
def IdempotencyKey.response (record : IdempotencyKey) : Response :=
  { status := record.responseStatus, body := record.responseBody }

/-- The answer to the request is stored under its key, if it has one. -/
def HttpRequest.Stored (req : HttpRequest) (r : Response) (db : Db) : Prop :=
  ∀ k, req.usedKey = some k →
    ∃ record, db.idempotencyKey k = some record ∧ record.userId = req.caller
      ∧ record.response = r

/-- How far a request has come with its key. -/
inductive KeyPhase (own : Row → Prop) (db : Db) (req : HttpRequest) : At Response → Prop where
  | start (env : Env) : KeyPhase own db req ⟨handle req, env, []⟩
  | lookup {user : User} {k : String} (hu : user.id = req.caller) (hk : req.usedKey = some k)
      (env : Env) : KeyPhase own db req ⟨.call (.getKey k) (lookedUp req user), env, []⟩
  /-- Inside `produce`, or just behind it. -/
  | working {user : User} {q : Prog Body} {ws : List Write} (hu : user.id = req.caller)
      (hq : Service q) (hws : insertedKeys ws = []) (env : Env) :
      KeyPhase own db req ⟨q >>= finish req user, env, ws⟩
  /-- The row of the key is staged. -/
  | filed {user : User} {body : Body} {ws : List Write} (hu : user.id = req.caller)
      (hws : insertedKeys ws = [])
      (hk : ∀ k, req.usedKey = some k → own (.key k) ∧ db.idempotencyKey k = none) (env : Env) :
      KeyPhase own db req
        ⟨.commit (.ret ⟨req.op.statusCode, body⟩), env, ws ++ keyWrites req user body⟩
  | answered {r : Response} (h : req.Stored r db) (env : Env) :
      KeyPhase own db req ⟨.ret r, env, []⟩
  | raise (e : Error) (env : Env) (ws : List Write) : KeyPhase own db req ⟨.raise e, env, ws⟩

section
variable {own own' : Row → Prop} {db db' : Db} {req : HttpRequest} {env : Env} {p : At Response}
  {c : Cmd} {k : c.Resp → Prog Response} {ws : List Write} {r : c.Resp}

/-- Keys are added only. -/
theorem idempotencyKey_view {ws : List Write} {k : String} {record : IdempotencyKey}
    (h : db.idempotencyKey k = some record) :
    (engine.view ws db).idempotencyKey k = some record := by
  unfold Db.idempotencyKey at h ⊢
  rw [idempotencyKeys_view]
  exact lookup_append_of_some _ h

theorem HttpRequest.Stored.view {r : Response} (h : req.Stored r db) (ws : List Write) :
    req.Stored r (engine.view ws db) := by
  intro k hk
  obtain ⟨record, hrec, hu, hr⟩ := h k hk
  exact ⟨record, idempotencyKey_view hrec, hu, hr⟩

/-- Others may add keys that the request does not own. -/
theorem KeyPhase.rely (h : KeyPhase own db req p) {ws : List Write}
    (hws : ∀ record ∈ insertedKeys ws, ¬ own (.key record.key)) :
    KeyPhase own (engine.view ws db) req p := by
  cases h with
  | start env => exact .start env
  | lookup hu hk env => exact .lookup hu hk env
  | working hu hq hvs env => exact .working hu hq hvs env
  | filed hu hvs hk env =>
      refine .filed hu hvs (fun k hkk => ?_) env
      obtain ⟨hown, hnone⟩ := hk k hkk
      refine ⟨hown, ?_⟩
      unfold Db.idempotencyKey at hnone ⊢
      rw [idempotencyKeys_view, lookup_append_of_none _ hnone, lookup_eq_none]
      intro record hrec he
      exact hws record hrec (by rw [he]; exact hown)
  | answered h env => exact .answered (h.view ws) env
  | raise e env ws => exact .raise e env ws

/-- Behind the answer about the caller. -/
theorem KeyPhase.admitted {user : User} (hu : user.id = req.caller) :
    KeyPhase own db req ⟨requireRole req.op.role user >>= fun user =>
      idempotent ⟨user, req.key⟩ req.path (req.op.produce user) req.op.statusCode, env, []⟩ := by
  by_cases hp : req.Permits user
  · rw [requireRole_of_permits hp, ret_bind, idempotent_eq]
    cases hk : req.usedKey with
    | none => exact .working hu (produce_service user req.op) rfl env
    | some k => exact .lookup hu hk env
  · obtain ⟨e, he⟩ := requireRole_of_not_permits hp
    rw [he, raise_bind]
    exact .raise _ _ _

/-- Behind the answer about the key. -/
theorem KeyPhase.looked {user : User} {key : String} (hu : user.id = req.caller)
    (hk : req.usedKey = some key) {record : Option IdempotencyKey}
    (hr : db.idempotencyKey key = record) :
    KeyPhase own db req ⟨lookedUp req user record, env, []⟩ := by
  cases record with
  | none => exact .working hu (produce_service user req.op) rfl env
  | some record =>
      by_cases howner : record.userId = user.id
      · rw [lookedUp_own howner]
        refine .answered (fun key' hkk => ?_) env
        obtain rfl : key = key' := Option.some.inj (hk.symm.trans hkk)
        exact ⟨record, hr, howner.trans hu, rfl⟩
      · rw [lookedUp_other howner]
        exact .raise _ _ _

/-- The INSERT of the key: it goes through on a key that nobody has committed. -/
theorem KeyPhase.save {user : User} {body : Body} {key : String} (hu : user.id = req.caller)
    (hws : insertedKeys ws = []) (hk : req.usedKey = some key) (hown : own' (.key key)) {r : Unit}
    (ha : engine.answer (.insertKey (req.record key user body)) env (engine.view ws db) = .ok r) :
    KeyPhase own' db req ⟨.commit (.ret ⟨req.op.statusCode, body⟩), env,
      ws ++ (Cmd.insertKey (req.record key user body)).writes env⟩ := by
  have hwrites : (Cmd.insertKey (req.record key user body)).writes env
      = keyWrites req user body := by
    unfold keyWrites
    rw [hk]
    rfl
  rw [hwrites]
  refine .filed hu hws (fun key' hkk => ?_) env
  obtain rfl : key = key' := Option.some.inj (hk.symm.trans hkk)
  refine ⟨hown, ?_⟩
  have hnone := answer_insertKey.mp ha
  cases hrec : db.idempotencyKey key with
  | none => rfl
  | some record => exact absurd (hnone.symm.trans (idempotencyKey_view hrec)) (by simp)

/-- A statement of a service. -/
theorem insertedKeys_writes (hc : c.touchesKeys = false) (env : Env) :
    insertedKeys (c.writes env) = [] := by
  cases c with
  | insertKey row => exact absurd hc (by simp [Cmd.touchesKeys])
  | _ => rfl

/-- **One statement of one request.** -/
theorem KeyPhase.step (h : KeyPhase own db req ⟨.call c k, env, ws⟩)
    (hown : ∀ row, own' row ↔ own row ∨ c.locks (engine.view ws db) = some row)
    (ha : engine.answer c env (engine.view ws db) = .ok r) :
    KeyPhase own' db req ⟨k r, c.next env, ws ++ c.writes env⟩ := by
  generalize hp : (⟨.call c k, env, ws⟩ : At Response) = p at h
  cases h with
  | raise e env' ws' => exact absurd (congrArg Point.prog hp) (by simp)
  | answered h env' => exact absurd (congrArg Point.prog hp) (by simp)
  | filed hu hws hk env' => exact absurd (congrArg Point.prog hp) (by simp)
  | start env' =>
      obtain ⟨hprog, rfl, rfl⟩ := Point.mk.inj hp
      have hcall : Program.call c k = .call (.getUser req.caller) _ := hprog
      obtain ⟨rfl, hk⟩ := Program.call.inj hcall
      obtain rfl := eq_of_heq hk
      have hr : db.user req.caller = r := Except.ok.inj ha
      cases hu : db.user req.caller with
      | none =>
          rw [← hr, hu]
          exact .raise _ _ _
      | some user =>
          rw [← hr, hu]
          exact .admitted (lookup_key hu)
  | lookup hu hk env' =>
      obtain ⟨hprog, rfl, rfl⟩ := Point.mk.inj hp
      obtain ⟨rfl, hk'⟩ := Program.call.inj hprog
      obtain rfl := eq_of_heq hk'
      exact .looked hu hk (Except.ok.inj ha)
  | @working user q ws' hu hq hws env' =>
      obtain ⟨hprog, rfl, rfl⟩ := Point.mk.inj hp
      cases q with
      | raise e => exact absurd hprog (by simp)
      | commit q => exact hq.elim
      | call c' k' =>
          -- a statement of the operation
          obtain ⟨rfl, hk⟩ := Program.call.inj hprog
          obtain rfl := eq_of_heq hk
          refine .working hu (hq.2 r) ?_ _
          unfold insertedKeys at hws ⊢
          rw [List.filterMap_append, hws]
          exact insertedKeys_writes hq.1 env
      | ret body =>
          -- behind the operation: a commit, or the INSERT of the key
          rw [ret_bind] at hprog
          cases hk : req.usedKey with
          | none =>
              rw [finish_of_none hk] at hprog
              exact absurd hprog (by simp)
          | some key =>
              rw [finish_of_some hk] at hprog
              obtain ⟨rfl, hk'⟩ := Program.call.inj hprog
              obtain rfl := eq_of_heq hk'
              exact .save hu hws hk ((hown _).mpr (Or.inr rfl)) ha

/-- **A request at its commit**: the row of its key is staged with its effect,
the key is its own, and nobody has committed the key. -/
theorem KeyPhase.committing {q : Prog Response} (h : KeyPhase own db req ⟨.commit q, env, ws⟩) :
    ∃ user body, user.id = req.caller ∧ q = .ret ⟨req.op.statusCode, body⟩
      ∧ insertedKeys ws = insertedKeys (keyWrites req user body)
      ∧ ∀ k, req.usedKey = some k → own (.key k) ∧ db.idempotencyKey k = none := by
  generalize hp : (⟨.commit q, env, ws⟩ : At Response) = p at h
  cases h with
  | raise e env' ws' => exact absurd (congrArg Point.prog hp) (by simp)
  | answered h env' => exact absurd (congrArg Point.prog hp) (by simp)
  | lookup hu hk env' => exact absurd (congrArg Point.prog hp) (by simp)
  | start env' =>
      have hcall : Program.commit q = .call (.getUser req.caller) _ := congrArg Point.prog hp
      exact absurd hcall (by simp)
  | @filed user body ws' hu hws hk env' =>
      obtain ⟨hprog, _, rfl⟩ := Point.mk.inj hp
      refine ⟨user, body, hu, Program.commit.inj hprog, ?_, hk⟩
      unfold insertedKeys at hws ⊢
      rw [List.filterMap_append, hws]
      rfl
  | @working user q' ws' hu hq hws env' =>
      obtain ⟨hprog, _, rfl⟩ := Point.mk.inj hp
      cases q' with
      | raise e => exact absurd hprog (by simp)
      | commit q' => exact hq.elim
      | call c' k' => exact absurd hprog (by simp)
      | ret body =>
          -- a request without a key
          rw [ret_bind] at hprog
          cases hk : req.usedKey with
          | none =>
              rw [finish_of_none hk] at hprog
              refine ⟨user, body, hu, Program.commit.inj hprog, ?_, fun k hkk => absurd hkk (by simp)⟩
              unfold keyWrites
              rw [hws, hk]
              rfl
          | some key =>
              rw [finish_of_some hk] at hprog
              exact absurd hprog (by simp)

/-- **A request that returns** has its answer stored. -/
theorem KeyPhase.returning {r : Response} (h : KeyPhase own db req ⟨.ret r, env, ws⟩) :
    req.Stored r db := by
  generalize hp : (⟨.ret r, env, ws⟩ : At Response) = p at h
  cases h with
  | raise e env' ws' => exact absurd (congrArg Point.prog hp) (by simp)
  | filed hu hws hk env' => exact absurd (congrArg Point.prog hp) (by simp)
  | lookup hu hk env' => exact absurd (congrArg Point.prog hp) (by simp)
  | start env' =>
      have hcall : Program.ret r = .call (Cmd.getUser req.caller) _ := congrArg Point.prog hp
      exact absurd hcall (by simp)
  | answered h env' =>
      obtain rfl := Program.ret.inj (congrArg Point.prog hp)
      exact h
  | @working user q ws' hu hq hws env' =>
      have hprog : Program.ret r = q >>= finish req user := congrArg Point.prog hp
      cases q with
      | raise e => exact absurd hprog (by simp)
      | commit q => exact hq.elim
      | call c k => exact absurd hprog (by simp)
      | ret body =>
          -- behind the operation comes a commit, or the INSERT of the key
          rw [ret_bind] at hprog
          cases hk : req.usedKey with
          | none =>
              rw [finish_of_none hk] at hprog
              exact absurd hprog (by simp)
          | some key =>
              rw [finish_of_some hk] at hprog
              exact absurd hprog (by simp)

end

/-! ## §2. All requests. -/

/-- Every request is in a phase, every answer is the stored one, and every
logged request has filed its record. -/
structure Keyed (db : Db) (calls : Nat → HttpRequest) (w : Concurrent) : Prop where
  phases : ∀ i p, w.txs i = .running p → KeyPhase (Owns w i) w.committed (calls i) p
  answers : ∀ i r, w.txs i = .done (.ok r) → (calls i).Stored r w.committed
  logged : ∀ i ws k, (i, ws) ∈ w.log → (calls i).usedKey = some k →
    ∃ user body, user.id = (calls i).caller
      ∧ w.committed.idempotencyKey k = some ((calls i).record k user body)
      ∧ World.Replied engine.fault ⟨(calls i).op.statusCode, body⟩ (w.txs i)
  once : ∀ k, (w.log.filter fun entry => (calls entry.1).usedKey = some k).length ≤ 1
  committed : w.committed = engine.view (w.log.flatMap Prod.snd) db

variable {db : Db} {calls : Nat → HttpRequest} {w w' : Concurrent} {i : Nat}

theorem Keyed.opened (envs : Nat → Env) : Keyed db calls (db.opened calls envs) where
  phases := by
    intro i p hp
    obtain rfl := Tx.running.inj hp
    exact .start (envs i)
  answers := fun i r hr => absurd hr (by simp [Db.opened, World.start])
  logged := fun i ws k hl => absurd hl List.not_mem_nil
  once := fun k => Nat.zero_le 1
  committed := rfl

/-- An event that ends request `i` without a commit. -/
theorem Keyed.ended (h : Keyed db calls w) {e : Event} (hm : Moves w e w')
    {o : Except Error Response} (ho : ∀ r, o = .ok r → (calls i).Stored r w.committed)
    (hown : w'.owner = release i w.owner) (htxs : w'.txs = Function.update w.txs i (.done o))
    (hsame : w'.committed = w.committed) (hlog : w'.log = w.log) : Keyed db calls w' where
  phases := by
    intro j p hp
    rw [htxs] at hp
    obtain ⟨hji, hp⟩ := World.running_of_ended hp
    rw [owns_release hji hown, hsame]
    exact h.phases j p hp
  answers := by
    intro j r hr
    rw [htxs] at hr
    rw [hsame]
    by_cases hji : j = i
    · subst hji
      rw [Function.update_self] at hr
      exact ho r (Tx.done.inj hr)
    · rw [Function.update_of_ne hji] at hr
      exact h.answers j r hr
  logged := by
    intro j ws k hl hk
    rw [hlog] at hl
    obtain ⟨user, body, hu, hrec, hreplied⟩ := h.logged j ws k hl hk
    rw [hsame]
    exact ⟨user, body, hu, hrec, hreplied.move hm⟩
  once := by
    rw [hlog]
    exact h.once
  committed := by
    rw [hsame, hlog]
    exact h.committed

/-- Nobody has committed the key of a request that is going to commit. -/
theorem Keyed.unlogged (h : Keyed db calls w) {k : String}
    (hnone : w.committed.idempotencyKey k = none) :
    (w.log.filter fun entry => (calls entry.1).usedKey = some k) = [] := by
  rw [List.filter_eq_nil_iff]
  rintro ⟨j, ws⟩ hentry hk
  obtain ⟨user, body, _, hrec, _⟩ := h.logged j ws k hentry (by simpa using hk)
  rw [hnone] at hrec
  exact absurd hrec (by simp)

/-- **A commit files the record of the key**, and it is the first with this
key. -/
theorem Keyed.commit (h : Keyed db calls w) {q : Prog Response} {env : Env} {ws : List Write}
    (ht : w.txs i = .running ⟨.commit q, env, ws⟩) (hm : Moves w (.step i) w')
    (hown : w'.owner = release i w.owner)
    (htxs : w'.txs = Function.update w.txs i (.running ⟨q, env, []⟩))
    (hcommitted : w'.committed = engine.view ws w.committed) (hlog : w'.log = w.log ++ [(i, ws)]) :
    Keyed db calls w' := by
  obtain ⟨user, body, hu, hq, hkeys, hfiled⟩ := (h.phases i _ ht).committing
  have htx : w'.txs i = .running ⟨q, env, []⟩ := by
    rw [htxs]
    exact Function.update_self ..
  -- the record of this request
  have hrec : ∀ k, (calls i).usedKey = some k →
      w'.committed.idempotencyKey k = some ((calls i).record k user body) := by
    intro k hk
    have hnone := (hfiled k hk).2
    unfold Db.idempotencyKey at hnone ⊢
    rw [hcommitted, idempotencyKeys_view, lookup_append_of_none _ hnone, hkeys,
      insertedKeys_keyWrites hk, lookup_singleton]
    exact if_pos rfl
  have hothers : ∀ record ∈ insertedKeys ws, Owns w i (.key record.key) := by
    intro record hr
    rw [hkeys] at hr
    cases hk : (calls i).usedKey with
    | none =>
        unfold keyWrites at hr
        rw [hk] at hr
        exact absurd hr List.not_mem_nil
    | some k =>
        rw [insertedKeys_keyWrites hk] at hr
        obtain rfl := List.mem_singleton.mp hr
        exact (hfiled k hk).1
  refine ⟨?_, ?_, ?_, ?_, ?_⟩
  · intro j p hp
    rw [htxs] at hp
    rcases World.running_of_moved hp with ⟨rfl, rfl⟩ | ⟨hji, hp⟩
    · rw [hq]
      exact .answered (fun k hk => ⟨_, hrec k hk, hu, rfl⟩) env
    · rw [owns_release hji hown, hcommitted]
      exact (h.phases j p hp).rely fun record hr ho => hji (ho.unique (hothers record hr))
  · intro j r hr
    rw [htxs] at hr
    rw [hcommitted]
    exact (h.answers j r (World.done_of_moved hr)).view ws
  · intro j vs k hentry hk
    rw [hlog] at hentry
    rcases List.mem_append.mp hentry with hentry | hentry
    · obtain ⟨user', body', hu', hrec', hreplied⟩ := h.logged j vs k hentry hk
      rw [hcommitted]
      exact ⟨user', body', hu', idempotencyKey_view hrec', hreplied.move hm⟩
    · obtain ⟨rfl, rfl⟩ : j = i ∧ vs = ws := by simpa using hentry
      refine ⟨user, body, hu, hrec k hk, ?_⟩
      rw [htx]
      exact hq
  · intro k
    rw [hlog, List.filter_append, List.length_append]
    -- a commit with this key is the first: the key was unused until now
    by_cases hk : (calls i).usedKey = some k
    · rw [h.unlogged (hfiled k hk).2]
      rw [List.length_nil, Nat.zero_add]
      exact List.length_filter_le _ _
    · have hnil : ([(i, ws)].filter fun entry => (calls entry.1).usedKey = some k) = [] := by
        simp [hk]
      rw [hnil]
      exact h.once k
  · exact World.committed_eq h.committed hm

/-- **Every event keeps it.** -/
theorem Keyed.move (h : Keyed db calls w) {e : Event} (hm : Moves w e w') : Keyed db calls w' := by
  have hm' := hm
  cases hm with
  | aborted i p ht => exact h.ended hm' (fun r hr => absurd hr (by simp)) rfl rfl rfl rfl
  | raised i e env ws ht => exact h.ended hm' (fun r hr => absurd hr (by simp)) rfl rfl rfl rfl
  | refused i c k env ws last e ht hl ha =>
      exact h.ended hm' (fun r hr => absurd hr (by simp)) rfl rfl rfl rfl
  | returned i a env ws ht =>
      refine h.ended hm' (fun r hr => ?_) rfl rfl rfl rfl
      obtain rfl := Except.ok.inj hr
      exact (h.phases i _ ht).returning
  | committed i k env ws ht => exact h.commit ht hm' rfl rfl rfl rfl
  | answered i c k env ws last r ht hf hl ha =>
      refine ⟨?_, ?_, ?_, h.once, h.committed⟩
      · intro j p hp
        rcases World.running_of_moved hp with ⟨rfl, rfl⟩ | ⟨hji, hp⟩
        · exact (h.phases j _ ht).step (owns_grant_self hf rfl) ha
        · rw [owns_grant_other hf rfl hji]
          exact h.phases j p hp
      · exact fun j s hs => h.answers j s (World.done_of_moved hs)
      · intro j vs key hentry hk
        obtain ⟨user, body, hu, hrec, hreplied⟩ := h.logged j vs key hentry hk
        exact ⟨user, body, hu, hrec, hreplied.move hm'⟩

/-- A committed record is never changed. -/
theorem idempotencyKey_move {k : String} {record : IdempotencyKey} {e : Event}
    (h : w.committed.idempotencyKey k = some record) (hm : Moves w e w') :
    w'.committed.idempotencyKey k = some record := by
  cases hm with
  | committed i q env ws ht => exact idempotencyKey_view h
  | _ => exact h

/-! ## §3. One effect. -/

/-- **At most one effect for each key.**  Whatever the interleaving of any number
of requests, from any committed state, and whatever users, operations and paths
the requests with the key `k` have: at most one of them is committed.  Its
record is then the one under `k`, with its own user, status and body.  Every
request with this key that is answered, is answered with the response stored
under `k`, of its own user.  The committed state is that of the committed
requests alone, so the others have left no row; and the record under `k` stays
as it is, in all that follows. -/
theorem one_effect (db : Db) (calls : Nat → HttpRequest) (envs : Nat → Env) {w : Concurrent}
    (hrun : World.Run engine rowLocks World.anyStep (db.opened calls envs) w) (k : String) :
    (w.log.filter fun entry => (calls entry.1).usedKey = some k).length ≤ 1
      ∧ w.committed = engine.view (w.log.flatMap Prod.snd) db
      ∧ (∀ i ws, (i, ws) ∈ w.log → (calls i).usedKey = some k →
          ∃ user body, user.id = (calls i).caller
            ∧ w.committed.idempotencyKey k = some ((calls i).record k user body)
            ∧ World.Replied engine.fault ⟨(calls i).op.statusCode, body⟩ (w.txs i))
      ∧ (∀ i r, (calls i).usedKey = some k → w.txs i = .done (.ok r) →
          ∃ record, w.committed.idempotencyKey k = some record
            ∧ record.userId = (calls i).caller ∧ record.response = r)
      ∧ ∀ w' record, World.Run engine rowLocks World.anyStep w w' →
          w.committed.idempotencyKey k = some record →
          w'.committed.idempotencyKey k = some record := by
  have hinv : Keyed db calls w :=
    World.Run.invariant (P := Keyed db calls) engine rowLocks (fun _ _ _ hw _ hm => hw.move hm)
      hrun (.opened envs)
  refine ⟨hinv.once k, hinv.committed, fun i ws hl hk => hinv.logged i ws k hl hk,
    fun i r hk hr => hinv.answers i r hr k hk, ?_⟩
  intro w' record hrun' hrec
  exact World.Run.invariant (P := fun w => w.committed.idempotencyKey k = some record)
    engine rowLocks (fun _ _ _ hw _ hm => idempotencyKey_move hw hm) hrun' hrec

/-- Three requests with the key "k": a creation and two acceptances. -/
def sameKey : Nat → HttpRequest
  | 0 => creation
  | _ => acceptance

def sameKeyEnvs : Nat → Env
  | 0 => market.numbering 0
  | _ => market.numbering 10

/-- The creation stages its request, the first acceptance stages everything and
commits, the creation comes to its key, the second acceptance looks it up. -/
def keyRace : List Event := eventsOf 0 6 ++ eventsOf 1 20 ++ eventsOf 0 1 ++ eventsOf 2 3

/-- The first acceptance is the one effect; the creation fails, and the second
acceptance is answered with what is stored. -/
theorem one_effect_market :
    ∃ w, World.Run engine rowLocks World.anyStep (market.opened sameKey sameKeyEnvs) w
      ∧ w.log.map Prod.fst = [1]
      ∧ w.committed.requests.length = 1
      ∧ (w.log.filter fun entry => (sameKey entry.1).usedKey = some "k").length ≤ 1
      ∧ ∃ r record, w.txs 2 = .done (.ok r) ∧ w.committed.idempotencyKey "k" = some record
        ∧ record.response = r := by
  have hrun : ((market.opened sameKey sameKeyEnvs).runs engine rowLocks World.anyStep keyRace).map
      (fun w => (w.log.map Prod.fst, w.committed.requests.length,
        match w.txs 2 with | .done (.ok _) => true | _ => false)) = some ([1], 1, true) := by
    decide +kernel
  obtain ⟨w, hw, hfacts⟩ := Option.map_eq_some_iff.mp hrun
  obtain ⟨hlog, hfacts⟩ := Prod.mk.inj hfacts
  obtain ⟨hrequests, hdone⟩ := Prod.mk.inj hfacts
  have hreach := World.Run.of_runs engine rowLocks hw
  obtain ⟨honce, _, _, hanswers, _⟩ := one_effect market sameKey sameKeyEnvs hreach "k"
  refine ⟨w, hreach, hlog, hrequests, honce, ?_⟩
  match ht : w.txs 2, hdone with
  | .done (.ok r), _ =>
      obtain ⟨record, hrec, _, hr⟩ := hanswers 2 r rfl ht
      exact ⟨r, record, rfl, hrec, hr⟩

end Procurement
