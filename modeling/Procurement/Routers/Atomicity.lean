/-
  Procurement.Routers.Atomicity
  ─────────────────────────────
  **ALL OR NOTHING.**

  A call that raises before its commit takes effect, wherever that is, leaves
  the committed state as it was, records of keys included.  A call that gets
  through and is no replay commits once, and that commit is complete: every
  domain write, an audit entry for each of them, and the record of the key.
-/
import Procurement.Routers.Outcome

namespace Procurement

open Procurement.Framework
open Procurement.Framework.Program

/-! ## §1. Complete commits. -/

/-- A write to one of the four business tables. -/
def Write.isDomain : Write → Bool
  | .insertAudit _ | .insertKey _ => false
  | _ => true

/-- The audit entry is the record of the write.  The closing of a request is
recorded by the acceptance that closes it. -/
def AuditLog.Records (e : AuditLog) : Write → Prop
  | .insertUser u => e.action = .userRegistered ∧ e.entityType = .user ∧ e.entityId = some u.id
  | .insertRequest r =>
      e.action = .requestCreated ∧ e.entityType = .productRequest ∧ e.entityId = some r.id
  | .insertNegotiation n =>
      e.action = .offerCreated ∧ e.entityType = .negotiation ∧ e.entityId = some n.id
  | .insertProposal p =>
      e.action = (match p.kind with
        | .offer => AuditAction.offerCreated
        | .counter => .negotiationCountered)
        ∧ e.entityType = .negotiation ∧ e.entityId = some p.negotiationId
        ∧ e.actorId = some p.actorId ∧ e.details = .price p.amount p.currency
  | .decide n (.accepted a) =>
      e.action = .negotiationAccepted ∧ e.entityType = .negotiation ∧ e.entityId = some n
        ∧ e.details = .agreed a
  | .decide n .rejected =>
      (e.action = .negotiationRejected ∨ e.action = .negotiationSuperseded)
        ∧ e.entityType = .negotiation ∧ e.entityId = some n
  | .closeRequest _ => e.action = .negotiationAccepted ∧ e.entityType = .negotiation
  | .insertAudit _ | .insertKey _ => False

/-- Every domain write of a commit has its audit entry in the same commit. -/
def Audited (ws : List Write) : Prop :=
  ∀ w ∈ ws, w.isDomain = true → ∃ e, .insertAudit e ∈ ws ∧ e.Records w

/-- An unwritten key among the writes is harmless. -/
theorem Audited.append_keys {ws : List Write} (h : Audited ws) {ks : List Write}
    (hk : ∀ w ∈ ks, w.isDomain = false) : Audited (ws ++ ks) := by
  intro w hw hd
  rcases List.mem_append.mp hw with hw | hw
  · obtain ⟨e, he, hr⟩ := h w hw hd
    exact ⟨e, List.mem_append_left _ he, hr⟩
  · rw [hk w hw] at hd
    exact absurd hd (by simp)

theorem keyWrites_not_domain (req : HttpRequest) (user : User) (body : Body) :
    ∀ w ∈ keyWrites req user body, w.isDomain = false := by
  intro w hw
  unfold keyWrites at hw
  cases hk : req.usedKey with
  | none =>
      rw [hk] at hw
      exact absurd hw (by simp)
  | some k =>
      rw [hk] at hw
      obtain rfl : w = _ := by simpa using hw
      rfl

/-- The writes of the superseding loop come in pairs. -/
theorem supersedeWrites_audited (winnerId : Id) (env : Env) (siblings : List Negotiation) :
    Audited (supersedeWrites winnerId env siblings) := by
  induction siblings generalizing env with
  | nil => exact fun w hw => absurd hw (by simp [supersedeWrites])
  | cons sib siblings ih =>
      intro w hw hd
      -- the UPDATE of the first sibling, its entry, and the pairs of the rest
      rcases List.mem_cons.mp hw with rfl | hw
      · exact ⟨env.entry .negotiationSuperseded .negotiation (some sib.id) none (.winner winnerId),
          List.mem_cons_of_mem _ (List.mem_cons_self ..), Or.inr rfl, rfl, rfl⟩
      rcases List.mem_cons.mp hw with rfl | hw
      · exact absurd hd (by simp [Write.isDomain])
      obtain ⟨e, he, hr⟩ := ih (env.pop .auditLog) w hw hd
      exact ⟨e, List.mem_cons_of_mem _ (List.mem_cons_of_mem _ he), hr⟩

theorem acceptWrites_audited (env : Env) (user : User) (neg : Negotiation) (last : Proposal)
    (req : ProductRequest) (siblings : List Negotiation) :
    Audited (acceptWrites env user neg last req siblings) := by
  have hentry : Write.insertAudit ((env.afterSupersede siblings).entry .negotiationAccepted
      .negotiation (some neg.id) (some user.id) (.agreed last.amount))
        ∈ acceptWrites env user neg last req siblings := by
    simp [acceptWrites, supersedingWrites]
  -- in the order they are staged: the decision, the request, the loop, the entry
  intro w hw hd
  rcases List.mem_cons.mp hw with rfl | hw
  · exact ⟨_, hentry, rfl, rfl, rfl, rfl⟩
  rcases List.mem_cons.mp hw with rfl | hw
  · exact ⟨_, hentry, rfl, rfl⟩
  rcases List.mem_append.mp hw with hw | hw
  · obtain ⟨e, he, hr⟩ := supersedeWrites_audited neg.id env siblings w hw hd
    refine ⟨e, ?_, hr⟩
    exact List.mem_cons_of_mem _ (List.mem_cons_of_mem _ (List.mem_append_left _ he))
  · obtain rfl : w = _ := by simpa using hw
    exact absurd hd (by simp [Write.isDomain])

/-- **Every operation records what it does.** -/
theorem Produces.audited {db : Db} {user : User} {env : Env} {op : Op} {o : Produced}
    (h : Produces db user env op o) : Audited o.writes := by
  cases h with
  | createRequest data =>
      intro w hw hd
      rcases List.mem_pair.mp hw with rfl | rfl
      · exact ⟨_, List.mem_cons_of_mem _ (List.mem_cons_self ..), rfl, rfl, rfl⟩
      · exact absurd hd (by simp [Write.isDomain])
  | makeOffer data h ho =>
      -- the negotiation and its opening offer share one entry
      have hentry : ∀ (e : AuditLog) (a b : Write), Write.insertAudit e ∈ [a, b, .insertAudit e] := by
        intro e a b
        simp
      intro w hw hd
      rcases List.mem_cons.mp hw with rfl | hw
      · exact ⟨_, hentry _ _ _, rfl, rfl, rfl⟩
      rcases List.mem_pair.mp hw with rfl | rfl
      · exact ⟨_, hentry _ _ _, rfl, rfl, rfl, rfl, rfl⟩
      · exact absurd hd (by simp [Write.isDomain])
  | accept h hm hreq => exact acceptWrites_audited _ _ _ _ _ _
  | reject h hm =>
      intro w hw hd
      rcases List.mem_pair.mp hw with rfl | rfl
      · exact ⟨_, List.mem_cons_of_mem _ (List.mem_cons_self ..), Or.inl rfl, rfl, rfl⟩
      · exact absurd hd (by simp [Write.isDomain])
  | counter data h hm =>
      intro w hw hd
      rcases List.mem_pair.mp hw with rfl | rfl
      · exact ⟨_, List.mem_cons_of_mem _ (List.mem_cons_self ..), rfl, rfl, rfl, rfl, rfl⟩
      · exact absurd hd (by simp [Write.isDomain])

theorem registerWrites_audited (env : Env) (data : RegisterIn) :
    Audited (registerWrites env data) := by
  intro w hw hd
  rcases List.mem_pair.mp hw with rfl | rfl
  · exact ⟨_, List.mem_cons_of_mem _ (List.mem_cons_self ..), rfl, rfl, rfl⟩
  · exact absurd hd (by simp [Write.isDomain])

/-! ## §2. All or nothing. -/

namespace Call

/-- The key under which a call is filed. -/
def usedKey : Call → Option String
  | .register _ => none
  | .post req => req.usedKey

/-- The call is answered from a stored record. -/
def Replayed (call : Call) (db : Db) : Prop :=
  match call with
  | .register _ => False
  | .post req => ∃ user record, Replays req user record db

/-- The commit `ws` of a call contains everything the call does: all writes of
its operation, each with its audit entry, and the record of the key when there
is one. -/
structure Complete (call : Call) (env : Env) (db : Db) (ws : List Write) : Prop where
  writes : match call with
    | .register data => db.userByEmail data.email = none ∧ ws = registerWrites env data
    | .post req => ∃ user o, Executes req user env o db ∧ ws = committedWrites req user o
  audited : Audited ws
  filed : ∀ k, call.usedKey = some k → ∃ record, insertedKeys ws = [record] ∧ record.key = k

end Call

theorem insertedKeys_committed {req : HttpRequest} {user : User} {env : Env} {o : Produced}
    {db : Db} (h : Executes req user env o db) {k : String} (hk : req.usedKey = some k) :
    insertedKeys (committedWrites req user o) = [req.record k user o.body] := by
  have hnone := h.produces.insertedKeys
  unfold insertedKeys at hnone
  unfold insertedKeys committedWrites keyWrites
  rw [List.filterMap_append, hnone, hk]
  rfl

/-- What the session of a wrapped request commits. -/
theorem post_commits (req : HttpRequest) (env : Env) (f : Nat → Bool) (db : Db)
    {o : Option (List Write)} (h : engine.firstCommit (handle req) ⟨db, [], env, f⟩ = .ok o) :
    (o = none ∧ (Call.post req).Replayed db)
      ∨ ∃ ws, o = some ws ∧ (Call.post req).Complete env db ws := by
  have hcalm := engine.firstCommit_calm_of_ok h
  rw [show (⟨db, [], env, f⟩ : Session Db Write Env).calmed = ⟨db, [], env, calm⟩ from rfl]
    at hcalm
  by_cases hr : ∃ user record, Replays req user record db
  · left
    obtain ⟨user, record, hrep⟩ := hr
    obtain ⟨k, hk, hrec⟩ := hrep.stored
    rw [(replay_reaches (R := AnyRow) (pinned hrep.caller) hrep.permits hk (pinned hrec) hrep.owner).firstCommit
      rfl] at hcalm
    obtain rfl : none = o := Except.ok.inj hcalm
    exact ⟨rfl, user, record, hrep⟩
  · by_cases hx : ∃ user o, Executes req user env o db
    · right
      obtain ⟨user, p, hexec⟩ := hx
      rw [hexec.reaches.firstCommit rfl] at hcalm
      obtain rfl : some (committedWrites req user p) = o := Except.ok.inj hcalm
      refine ⟨_, rfl, ⟨user, p, hexec, rfl⟩, ?_, ?_⟩
      · exact hexec.produces.audited.append_keys (keyWrites_not_domain req user p.body)
      · intro k hk
        exact ⟨_, insertedKeys_committed hexec hk, rfl⟩
    · -- refused: an error, not a commit
      push Not at hr hx
      obtain ⟨e, he⟩ := refused_reaches hr hx
      rw [he.firstCommit rfl] at hcalm
      exact absurd hcalm (by simp [Engine.firstCommit])

/-- What the session of a registration commits. -/
theorem register_commits (data : RegisterIn) (env : Env) (f : Nat → Bool) (db : Db)
    {o : Option (List Write)}
    (h : engine.firstCommit (handleRegister data) ⟨db, [], env, f⟩ = .ok o) :
    ∃ ws, o = some ws ∧ (Call.register data).Complete env db ws := by
  have hcalm := engine.firstCommit_calm_of_ok h
  rw [show (⟨db, [], env, f⟩ : Session Db Write Env).calmed = ⟨db, [], env, calm⟩ from rfl]
    at hcalm
  cases he : db.userByEmail data.email with
  | some u =>
      rw [(register_refused (R := AnyRow) (pinned he)).firstCommit rfl] at hcalm
      exact absurd hcalm (by simp [Engine.firstCommit])
  | none =>
      rw [(register_reaches (R := AnyRow) trivial (pinned he)).firstCommit rfl] at hcalm
      obtain rfl : some (registerWrites env data) = o := Except.ok.inj hcalm
      refine ⟨_, rfl, ⟨he, rfl⟩, registerWrites_audited env data, ?_⟩
      intro k hk
      exact absurd hk (by simp [Call.usedKey])

/-- What a registration that commits has committed. -/
theorem register_committed {data : RegisterIn} {env : Env} {f : Nat → Bool} {db : Db}
    {ws : List Write} (h : (Call.register data).commits env f db = .ok (some ws)) :
    db.userByEmail data.email = none ∧ ws = registerWrites env data := by
  obtain ⟨ws', hws, hcomplete⟩ := register_commits data env f db h
  obtain rfl : ws = ws' := Option.some.inj hws
  exact hcomplete.writes

/-- What a wrapped request that commits has committed. -/
theorem post_committed {req : HttpRequest} {env : Env} {f : Nat → Bool} {db : Db}
    {ws : List Write} (h : (Call.post req).commits env f db = .ok (some ws)) :
    ∃ user o, Executes req user env o db ∧ ws = committedWrites req user o := by
  rcases post_commits req env f db h with ⟨hnone, _⟩ | ⟨ws', hws, hcomplete⟩
  · exact absurd hnone (by simp)
  · obtain rfl : ws = ws' := Option.some.inj hws
    exact hcomplete.writes

/-- **All or nothing**, for every call, state and pattern of faults.

An error before the commit takes effect is the answer, the committed state is
the one before, and a retry finds no record that was not there: it executes
afresh.  Without one the call is a replay that commits nothing, or its one
commit is complete. -/
theorem all_or_nothing (call : Call) (env : Env) (f : Nat → Bool) (db : Db) :
    match call.commits env f db with
    | .error e =>
        call.run env f db = (.error e, db)
          ∧ ∀ k, call.usedKey = some k → db.idempotencyKey k = none →
              (call.run env f db).2.idempotencyKey k = none
                ∧ ¬ call.Replayed (call.run env f db).2
    | .ok none => (call.run env f db).2 = db ∧ call.Replayed db
    | .ok (some ws) =>
        (call.run env f db).2 = engine.view ws db ∧ call.Complete env db ws := by
  -- a replay needs a record of the key
  have hafresh : ∀ k, call.usedKey = some k → db.idempotencyKey k = none → ¬ call.Replayed db := by
    intro k hk hnone hrep
    cases call with
    | register data => exact hrep
    | post req =>
        obtain ⟨user, record, h⟩ := hrep
        obtain ⟨k', hk', hrec⟩ := h.stored
        obtain rfl : k = k' := Option.some.inj (hk.symm.trans hk')
        rw [hnone] at hrec
        exact absurd hrec (by simp)
  cases call with
  | register data =>
      show match engine.firstCommit (handleRegister data) ⟨db, [], env, f⟩ with
        | .error e => _ | .ok none => _ | .ok (some ws) => _
      cases hc : engine.firstCommit (handleRegister data) ⟨db, [], env, f⟩ with
      | error e =>
          obtain ⟨ho, hs⟩ := engine.exec_of_firstCommit_error hc
          have hrun : (Call.register data).run env f db = (.error e, db) := by
            simp only [Call.run, Engine.request, ho, hs, Except.map]
          refine ⟨hrun, ?_⟩
          rw [hrun]
          exact fun k hk hnone => ⟨hnone, hafresh k hk hnone⟩
      | ok o =>
          -- a registration has no replay, so it has committed
          obtain ⟨ws, rfl, hcomplete⟩ := register_commits data env f db hc
          exact ⟨engine.exec_of_firstCommit_some (handleRegister_oneCommit data) hc, hcomplete⟩
  | post req =>
      show match engine.firstCommit (handle req) ⟨db, [], env, f⟩ with
        | .error e => _ | .ok none => _ | .ok (some ws) => _
      cases hc : engine.firstCommit (handle req) ⟨db, [], env, f⟩ with
      | error e =>
          obtain ⟨ho, hs⟩ := engine.exec_of_firstCommit_error hc
          have hrun : (Call.post req).run env f db = (.error e, db) := by
            simp only [Call.run, Engine.request, ho, hs, Except.map]
          refine ⟨hrun, ?_⟩
          rw [hrun]
          exact fun k hk hnone => ⟨hnone, hafresh k hk hnone⟩
      | ok o =>
          rcases post_commits req env f db hc with ⟨rfl, hrep⟩ | ⟨ws, rfl, hcomplete⟩
          · exact ⟨(engine.exec_of_firstCommit_none hc).2, hrep⟩
          · exact ⟨engine.exec_of_firstCommit_some (handle_commitsLast req).oneCommit hc, hcomplete⟩

end Procurement
