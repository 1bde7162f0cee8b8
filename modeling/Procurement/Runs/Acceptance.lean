/-
  Procurement.Runs.Acceptance
  ───────────────────────────
  **THE EXACT EFFECT OF AN ACCEPTANCE.**

  `accept` writes its winner, its request and every active sibling, and one
  audit entry for each of the siblings before its own.  `AcceptEffect` states
  the whole state behind it, table by table, so that everything not written is
  seen to be unchanged.
-/
import Procurement.Runs.History

namespace Procurement

open Procurement.Framework

/-! ## §1. The effect. -/

/-- The winner, its losers, and everybody else. -/
def settledRow (winnerId requestId : Id) (amount : Amount) (m : Negotiation) : Negotiation :=
  if m.id = winnerId then { m with status := .accepted, agreedAmount := some amount }
  else if m.requestId = requestId ∧ m.status = .active then { m with status := .rejected }
  else m

/-- What the acceptance of `n`, on the request `r`, for `amount`, by `user`
leaves of the state `db`. -/
structure AcceptEffect (db db' : Db) (user : User) (n : Negotiation) (r : ProductRequest)
    (amount : Amount) : Prop where
  users : db'.users = db.users
  proposals : db'.proposals = db.proposals
  requests : db'.requests
    = db.requests.map fun q => if q.id = r.id then { q with status := .closed } else q
  negotiations : db'.negotiations = db.negotiations.map (settledRow n.id r.id amount)
  /-- One entry for each active sibling, in some order, then the acceptance. -/
  auditLog : ∃ superseded accepted, db'.auditLog = db.auditLog ++ superseded ++ [accepted]
    ∧ (superseded.map AuditLog.entityId).Perm
        ((db.negotiations.filter fun m => m.requestId = r.id ∧ m.status = .active ∧ m.id ≠ n.id).map
          fun m => some m.id)
    ∧ (∀ e ∈ superseded, e.action = .negotiationSuperseded ∧ e.entityType = .negotiation
        ∧ e.actorId = none ∧ e.details = .winner n.id)
    ∧ accepted.action = .negotiationAccepted ∧ accepted.entityType = .negotiation
    ∧ accepted.entityId = some n.id ∧ accepted.actorId = some user.id
    ∧ accepted.details = .agreed amount

/-! ## §2. The superseding entries. -/

theorem supersedeEntries_entityId (w : Id) (siblings : List Negotiation) :
    ∀ env : Env, (supersedeEntries w env siblings).map AuditLog.entityId
      = siblings.map fun m => some m.id := by
  induction siblings with
  | nil => exact fun _ => rfl
  | cons sib siblings ih =>
      intro env
      show some sib.id :: (supersedeEntries w (env.pop .auditLog) siblings).map _ = _
      rw [ih]
      rfl

theorem supersedeEntries_shape (w : Id) (siblings : List Negotiation) :
    ∀ env : Env, ∀ e ∈ supersedeEntries w env siblings,
      e.action = .negotiationSuperseded ∧ e.entityType = .negotiation ∧ e.actorId = none
        ∧ e.details = .winner w := by
  induction siblings with
  | nil =>
      intro env e he
      exact absurd he List.not_mem_nil
  | cons sib siblings ih =>
      intro env e he
      rcases List.mem_cons.mp he with rfl | he
      · exact ⟨rfl, rfl, rfl, rfl⟩
      · exact ih (env.pop .auditLog) e he

/-! ## §3. The acceptance. -/

section
variable {db : Db} {env : Env} {user : User} {neg : Negotiation} {client : Id}
  {ps : List Proposal} {last : Proposal} {req : ProductRequest}

/-- On the rows of a consistent state, the losers the code has selected are the
active negotiations beside the winner. -/
theorem decided_eq_settledRow (h : Consistent db) {m : Negotiation} (hm : m ∈ db.negotiations) :
    decided neg.id last.amount
        ((env.order (db.activeSiblings req.id neg.id)).map Negotiation.id) m
      = settledRow neg.id req.id last.amount m := by
  unfold decided settledRow
  by_cases hw : m.id = neg.id
  · rw [if_pos hw, if_pos hw]
    rfl
  · rw [if_neg hw, if_neg hw]
    have hloser : m.id ∈ (env.order (db.activeSiblings req.id neg.id)).map Negotiation.id
        ↔ m.requestId = req.id ∧ m.status = .active := by
      rw [h.mem_sibling_ids hm]
      exact ⟨fun hl => ⟨hl.1, hl.2.1⟩, fun hl => ⟨hl.1, hl.2, hw⟩⟩
    by_cases hl : m.requestId = req.id ∧ m.status = .active
    · rw [if_pos hl, if_pos (hloser.mpr hl)]
      rfl
    · rw [if_neg hl, if_neg fun hmem => hl (hloser.mp hmem)]

/-- The writes of `accept` have this effect. -/
theorem acceptWrites_effect (h : Consistent db) :
    AcceptEffect db (engine.view (acceptWrites env user neg last req
      (env.order (db.activeSiblings req.id neg.id))) db) user neg req last.amount := by
  rw [view_accept _ _ _ _ _ _ _ winner_not_sibling]
  exact
    { users := rfl
      proposals := rfl
      requests := rfl
      negotiations := List.map_congr_left fun m hm => decided_eq_settledRow h hm
      auditLog := by
        refine ⟨_, _, rfl, ?_, supersedeEntries_shape _ _ _, rfl, rfl, rfl, rfl, rfl⟩
        rw [supersedeEntries_entityId]
        exact (env.order_perm _).map _ }

end

theorem insertedKeys_record (req : HttpRequest) (user : User) (body : Body) :
    insertedKeys (keyWrites req user body)
      = (req.usedKey.map fun k => req.record k user body).toList := by
  unfold keyWrites
  cases req.usedKey with
  | none => rfl
  | some k => rfl

/-- **The exact effect of `accept`.**  An acceptance that succeeds, and is not the
replay of a stored response, is of a negotiation `n` with its request and its
last proposal, and leaves exactly `AcceptEffect`; beside it, only the record
of its own Idempotency-Key is added. -/
theorem accept_effect {db : Db} (h : Reachable db) {req : HttpRequest} {i : Id} {env : Env}
    {f : Nat → Bool} {a : Answer} (hop : req.op = .accept i)
    (hnew : ¬ (Call.post req).Replayed db) (hok : ((Call.post req).run env f db).1 = .ok a) :
    ∃ (user : User) (n : Negotiation) (r : ProductRequest) (last : Proposal),
      db.user req.caller = some user ∧ db.negotiation i = some n
      ∧ db.request n.requestId = some r ∧ (db.chain i).getLast? = some last
      ∧ AcceptEffect db ((Call.post req).run env f db).2 user n r last.amount
      ∧ ∃ body, ((Call.post req).run env f db).2.idempotencyKeys
          = db.idempotencyKeys ++ (req.usedKey.map fun k => req.record k user body).toList := by
  have hc := h.consistent
  change (engine.request (handle req) env f db).1.map Answer.response = .ok a at hok
  show ∃ (user : User) (n : Negotiation) (r : ProductRequest) (last : Proposal), _ ∧ _ ∧ _ ∧ _
    ∧ AcceptEffect db (engine.request (handle req) env f db).2 user n r last.amount
    ∧ ∃ body, (engine.request (handle req) env f db).2.idempotencyKeys = _
  rcases handle_cases req env f db with ⟨e, hrun⟩ | ⟨user, record, hr, _⟩ | ⟨user, o, hx, hrun⟩
  · rw [hrun] at hok
    exact absurd hok (by simp [Except.map])
  · exact absurd ⟨_, _, hr⟩ hnew
  · rw [hrun]
    have hp := hx.produces
    rw [hop] at hp
    cases hp with
    | @accept neg client ps last r hread hm hrow =>
        have hl : (db.chain neg.id).getLast? = some last := by
          rw [hc.chain_eq, hread.proposals]
          exact hc.reading_last hread hm
        have heffect : AcceptEffect db (engine.view (acceptWrites env user neg last r
            (env.order (db.activeSiblings r.id neg.id))) db) user neg r last.amount :=
          acceptWrites_effect hc
        refine ⟨user, neg, r, last, hx.caller, hread.row, hrow, hl, ?_, ?_⟩
        · -- the key is filed in a table that the effect does not speak of
          rw [view_committed]
          exact ⟨heffect.users, heffect.proposals, heffect.requests, heffect.negotiations,
            heffect.auditLog⟩
        · rw [view_committed]
          show ∃ body, (engine.view (acceptWrites env user neg last r _) db).idempotencyKeys
            ++ insertedKeys _ = _
          rw [view_accept _ _ _ _ _ _ _ winner_not_sibling]
          exact ⟨_, congrArg _ (insertedKeys_record _ _ _)⟩

/-- The client accepts the first bid of the market: its negotiation is accepted
at 100, the other one rejected. -/
theorem accept_effect_market :
    (market.after (.post (plain 1 (.accept 1)))).negotiations
      = market.negotiations.map (settledRow 1 1 100) := by
  have haccepted : ∀ db, Reachable db →
      ((Call.post (plain 1 (.accept 1))).run (.following db) calm db).1.isOk →
      ((db.negotiation 1).map Negotiation.id = some 1
        ∧ (db.negotiation 1).map Negotiation.requestId = some 1
        ∧ (db.chain 1).getLast?.map Proposal.amount = some 100) →
      (db.after (.post (plain 1 (.accept 1)))).negotiations
        = db.negotiations.map (settledRow 1 1 100) := by
    rintro db hdb hok ⟨hid, hreq, hlast⟩
    obtain ⟨a, ha⟩ : ∃ a, ((Call.post (plain 1 (.accept 1))).run (.following db) calm db).1
        = .ok a := by
      cases ho : ((Call.post (plain 1 (.accept 1))).run (.following db) calm db).1 with
      | error e =>
          rw [ho] at hok
          exact absurd hok (by simp [Except.isOk, Except.toBool])
      | ok a => exact ⟨a, rfl⟩
    have hnew : ¬ (Call.post (plain 1 (.accept 1))).Replayed db := by
      rintro ⟨user, record, hrep⟩
      obtain ⟨k, hk, _⟩ := hrep.stored
      exact absurd hk (by simp [HttpRequest.usedKey, plain])
    obtain ⟨user, n, r, last, _, hn, hr, hl, heffect, _⟩ := accept_effect hdb rfl hnew ha
    rw [hn] at hid hreq
    rw [hl] at hlast
    have hn1 : n.id = 1 := Option.some.inj hid
    have hr1 : r.id = 1 := (lookup_key hr).trans (Option.some.inj hreq)
    have hl1 : last.amount = 100 := Option.some.inj hlast
    have hrows := heffect.negotiations
    rw [hn1, hr1, hl1] at hrows
    exact hrows
  exact haccepted market market_reachable (by decide +kernel) (by decide +kernel)

end Procurement
