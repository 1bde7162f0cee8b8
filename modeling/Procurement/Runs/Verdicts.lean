/-
  Procurement.Runs.Verdicts
  ─────────────────────────
  **WHICH ERROR A CALL ENDS WITH.**

  The verdict on a call is computed from the committed state alone: the guards
  in the order in which the code comes to them, the first one that refuses.

      401 no such user → 403 role → 409 key of another user
        → a stored response, or the guards of the operation

  A call none of whose statements fails ends with exactly its verdict.  A
  statement fails for a fault, or for a value that the driver or a column
  refuses: an id that no INTEGER is, a row that does not fit.  A call with such
  a statement ends with its verdict or with the failure.  Two of the branches
  are there for states that no run reaches: a negotiation without its request,
  and one without proposals.
-/
import Procurement.Framework.Refusing
import Procurement.Runs.Listings
import Procurement.Runs.Metadata
import Procurement.Runs.Storage

namespace Procurement

open Procurement.Framework
open Procurement.Framework.Program

/-! ## §1. Verdicts. -/

/-- The first guard of `_load_active_for_response` that refuses. -/
def Db.decisionRefusal (db : Db) (user : User) (negotiationId : Id) : Option Error :=
  match db.negotiation negotiationId with
  | none => some (.notFound "Negotiation not found")
  | some neg =>
      match db.request neg.requestId with
      | none => some .server
      | some req =>
          if user.id ≠ req.clientId ∧ user.id ≠ neg.supplierId then
            some (.permissionDenied "You are not a participant in this negotiation")
          else if neg.status ≠ .active then
            some (.conflict ("Negotiation is already " ++ neg.status.value))
          else
            match db.lastProposal neg.id with
            | none => some (.conflict "Negotiation has no proposals")
            | some last =>
                if last.actorId = user.id then
                  some (.conflict "Waiting for the counterparty to respond to your proposal")
                else none

/-- The three decisions share their guards. -/
def Op.refusal (db : Db) (user : User) : Op → Option Error
  | .createRequest _ => none
  | .makeOffer requestId _ => db.offerRefusal user requestId
  | .accept negotiationId => db.decisionRefusal user negotiationId
  | .reject negotiationId => db.decisionRefusal user negotiationId
  | .counter negotiationId _ => db.decisionRefusal user negotiationId

/-- `require_role`. -/
def HttpRequest.roleRefusal (req : HttpRequest) (user : User) : Option Error :=
  match req.op.role with
  | none => none
  | some role =>
      if user.role ≠ role then some (.http 403 ("Requires role '" ++ role.value ++ "'")) else none

/-- A stored response is replayed, whatever the guards of the operation say. -/
def HttpRequest.keyedRefusal (db : Db) (req : HttpRequest) (user : User) : Option Error :=
  match req.usedKey.bind db.idempotencyKey with
  | none => req.op.refusal db user
  | some record =>
      if record.userId ≠ user.id then
        some (.http 409 "Idempotency-Key already used by another user")
      else none

def HttpRequest.verdict (db : Db) (req : HttpRequest) : Option Error :=
  match db.user req.caller with
  | none => some (.http 401 "Could not validate credentials")
  | some user =>
      match req.roleRefusal user with
      | some e => some e
      | none => req.keyedRefusal db user

/-- The error that the state `db` has for the call, if it has one. -/
def Call.verdict (db : Db) : Call → Option Error
  | .register data => (db.userByEmail data.email).map fun _ => .conflict "Email already registered"
  | .post req => req.verdict db

/-! ## §2. The guards, one by one. -/

section
variable {α : Type} {db : Db} {env : Env} {user : User} {e : Error}

theorem load_refused {i : Id} (h : db.decisionRefusal user i = some e) (k : Negotiation → Prog α) :
    Gets db env (loadActiveForResponse user i >>= k) (.raise e) := by
  unfold Db.decisionRefusal at h
  simp only [loadActiveForResponse, send_bind, call_bind]
  refine .read (r := db.negotiation i) (fun _ _ _ => trivial) rfl rfl (pinned rfl) ?_
  cases hneg : db.negotiation i with
  | none =>
      rw [hneg] at h
      obtain rfl := Option.some.inj h
      exact .refl _
  | some neg =>
      simp only [hneg] at h
      simp only [ensureParticipant, send_bind, call_bind]
      refine Gets.select (r := db.request neg.requestId) rfl rfl rfl ?_
      cases hreq : db.request neg.requestId with
      | none =>
          rw [hreq] at h
          obtain rfl := Option.some.inj h
          exact .refl _
      | some req =>
          simp only [hreq] at h
          by_cases hp : user.id ≠ req.clientId ∧ user.id ≠ neg.supplierId
          · rw [if_pos hp] at h
            obtain rfl := Option.some.inj h
            simp only [if_pos hp]
            exact .refl _
          rw [if_neg hp] at h
          by_cases ha : neg.status ≠ .active
          · rw [if_pos ha] at h
            obtain rfl := Option.some.inj h
            simp only [if_neg hp, if_pos ha, pure_eq, ret_bind]
            exact .refl _
          rw [if_neg ha] at h
          simp only [if_neg hp, if_neg ha, pure_eq, ret_bind, lastProposal, send_bind, call_bind]
          refine Gets.select (r := db.lastProposal neg.id) rfl rfl rfl ?_
          cases hlast : db.lastProposal neg.id with
          | none =>
              rw [hlast] at h
              obtain rfl := Option.some.inj h
              exact .refl _
          | some last =>
              simp only [hlast] at h
              by_cases ht : last.actorId = user.id
              · rw [if_pos ht] at h
                obtain rfl := Option.some.inj h
                simp only [if_pos ht, ret_bind]
                exact .refl _
              · rw [if_neg ht] at h
                exact absurd h (by simp)

/-- A decision that no guard refuses. -/
theorem responds_of_not_refused {i : Id} (h : db.decisionRefusal user i = none) :
    ∃ neg client ps last, neg.id = i ∧ Reading neg client ps db
      ∧ MayRespond user neg client ps last := by
  unfold Db.decisionRefusal at h
  cases hneg : db.negotiation i with
  | none =>
      rw [hneg] at h
      exact absurd h (by simp)
  | some neg =>
      obtain rfl : neg.id = i := lookup_key hneg
      simp only [hneg] at h
      cases hreq : db.request neg.requestId with
      | none =>
          rw [hreq] at h
          exact absurd h (by simp)
      | some req =>
          simp only [hreq] at h
          by_cases hp : user.id ≠ req.clientId ∧ user.id ≠ neg.supplierId
          · rw [if_pos hp] at h
            exact absurd h (by simp)
          rw [if_neg hp] at h
          by_cases ha : neg.status ≠ .active
          · rw [if_pos ha] at h
            exact absurd h (by simp)
          rw [if_neg ha] at h
          cases hlast : db.lastProposal neg.id with
          | none =>
              rw [hlast] at h
              exact absurd h (by simp)
          | some last =>
              simp only [hlast] at h
              by_cases ht : last.actorId = user.id
              · rw [if_pos ht] at h
                exact absurd h (by simp)
              · exact ⟨neg, req.clientId, db.proposalsOf neg.id, last, rfl,
                  ⟨hneg, ⟨req, hreq, rfl⟩, rfl⟩, by tauto, not_not.mp ha, hlast, ht⟩

/-- An operation that is refused raises that error. -/
theorem produce_refused {op : Op} (h : op.refusal db user = some e) (k : Body → Prog α) :
    Gets db env (op.produce user >>= k) (.raise e) := by
  cases op with
  | createRequest data => exact absurd h (by simp [Op.refusal])
  | makeOffer i data =>
      simp only [Op.produce, Program.bind_assoc]
      exact makeOffer_refused h _
  | accept i =>
      simp only [Op.produce, accept, Program.bind_assoc]
      exact load_refused h _
  | reject i =>
      simp only [Op.produce, reject, Program.bind_assoc]
      exact load_refused h _
  | counter i data =>
      simp only [Op.produce, counter, Program.bind_assoc]
      exact load_refused h _

/-- An operation that is not refused goes through. -/
theorem produces_of_not_refused (env : Env) {op : Op} (h : op.refusal db user = none) :
    ∃ o, Produces db user env op o := by
  cases op with
  | createRequest data => exact ⟨_, .createRequest data⟩
  | makeOffer i data =>
      have hoffer : db.offerRefusal user i = none := h
      unfold Db.offerRefusal at hoffer
      cases hreq : db.request i with
      | none =>
          rw [hreq] at hoffer
          exact absurd hoffer (by simp)
      | some r =>
          obtain rfl : r.id = i := lookup_key hreq
          simp only [hreq] at hoffer
          by_cases ho : r.status ≠ .opened
          · rw [if_pos ho] at hoffer
            exact absurd hoffer (by simp)
          rw [if_neg ho] at hoffer
          cases hthread : db.thread r.id user.id with
          | some n =>
              rw [hthread] at hoffer
              exact absurd hoffer (by simp)
          | none => exact ⟨_, .makeOffer data ⟨hreq, by rw [hthread]; rfl⟩ (not_not.mp ho)⟩
  | accept i => exact produces_accept_iff.mpr (responds_of_not_refused h)
  | reject i => exact produces_reject_iff.mpr (responds_of_not_refused h)
  | counter i data => exact produces_counter_iff.mpr (responds_of_not_refused h)

/-! ## §3. The verdict on a call. -/

theorem permits_of_not_refused {req : HttpRequest} (h : req.roleRefusal user = none) :
    req.Permits user := by
  intro role hrole
  unfold HttpRequest.roleRefusal at h
  simp only [hrole] at h
  by_contra hne
  rw [if_pos hne] at h
  exact absurd h (by simp)

theorem handle_refused {req : HttpRequest} (h : req.verdict db = some e) :
    Gets db env (handle req) (.raise e) := by
  unfold HttpRequest.verdict at h
  cases hu : db.user req.caller with
  | none =>
      rw [hu] at h
      obtain rfl := Option.some.inj h
      simp only [handle, getCurrentUser, send_bind, call_bind]
      exact Gets.select (r := none) rfl rfl (congrArg Except.ok hu) (.refl _)
  | some user =>
      simp only [hu] at h
      refine caller_reaches (pinned hu) ?_
      cases hrefused : req.roleRefusal user with
      | some e' =>
          rw [hrefused] at h
          obtain rfl := Option.some.inj h
          unfold HttpRequest.roleRefusal at hrefused
          unfold requireRole
          cases hr : req.op.role with
          | none =>
              rw [hr] at hrefused
              exact absurd hrefused (by simp)
          | some role =>
              simp only [hr] at hrefused ⊢
              by_cases hne : user.role ≠ role
              · rw [if_pos hne] at hrefused ⊢
                obtain rfl := Option.some.inj hrefused
                exact .refl _
              · rw [if_neg hne] at hrefused
                exact absurd hrefused (by simp)
      | none =>
          simp only [hrefused] at h
          rw [requireRole_of_permits (permits_of_not_refused hrefused), ret_bind, idempotent_eq]
          unfold HttpRequest.keyedRefusal at h
          cases hk : req.usedKey with
          | none =>
              rw [hk] at h
              exact produce_refused h _
          | some k =>
              rw [hk, Option.bind_some] at h
              refine Gets.select (r := db.idempotencyKey k) rfl rfl rfl ?_
              cases hrec : db.idempotencyKey k with
              | none =>
                  rw [hrec] at h
                  exact produce_refused h _
              | some record =>
                  simp only [hrec] at h
                  by_cases howner : record.userId ≠ user.id
                  · rw [if_pos howner] at h
                    obtain rfl := Option.some.inj h
                    rw [lookedUp_other howner]
                    exact .refl _
                  · rw [if_neg howner] at h
                    exact absurd h (by simp)

/-- Without a verdict the request is replayed or executed. -/
theorem handle_not_refused {req : HttpRequest} (env : Env) (h : req.verdict db = none) :
    ∃ r, (engine.request (handle req) env calm db).1 = .ok r := by
  unfold HttpRequest.verdict at h
  cases hu : db.user req.caller with
  | none =>
      rw [hu] at h
      exact absurd h (by simp)
  | some user =>
      simp only [hu] at h
      cases hrefused : req.roleRefusal user with
      | some e' =>
          rw [hrefused] at h
          exact absurd h (by simp)
      | none =>
          simp only [hrefused] at h
          have hpermits := permits_of_not_refused hrefused
          unfold HttpRequest.keyedRefusal at h
          cases hstored : req.usedKey.bind db.idempotencyKey with
          | none =>
              simp only [hstored] at h
              obtain ⟨o, ho⟩ := produces_of_not_refused env h
              have hunused : ∀ k, req.usedKey = some k → db.idempotencyKey k = none := by
                intro k hk
                rwa [hk, Option.bind_some] at hstored
              rw [executes_calm ⟨hu, hpermits, hunused, ho⟩]
              exact ⟨_, rfl⟩
          | some record =>
              simp only [hstored] at h
              by_cases howner : record.userId ≠ user.id
              · rw [if_pos howner] at h
                exact absurd h (by simp)
              · have hrep : Replays req user record db :=
                  ⟨hu, hpermits, Option.bind_eq_some_iff.mp hstored, not_not.mp howner⟩
                rw [replays_calm hrep]
                exact ⟨_, rfl⟩

/-- A registration reads back the row that it has inserted, or an older one with
its id. -/
theorem register_not_refused {data : RegisterIn} (env : Env)
    (h : db.userByEmail data.email = none) :
    ∃ out, (engine.request (handleRegister data) env calm db).1 = .ok out := by
  rw [request_of_reaches (register_reaches (R := AnyRow) trivial (pinned h)),
    Engine.exec_commit_calm]
  show ∃ out, (engine.exec _ _).1 = _
  rw [exec_refresh]
  have hfound : (lookup User.id (db.users ++ [env.registered data]) (env.registered data).id).isSome :=
    lookup_isSome.mpr ⟨_, List.mem_append_right _ (List.mem_singleton_self _), rfl⟩
  obtain ⟨row, hrow⟩ := Option.isSome_iff_exists.mp hfound
  have huser : (engine.view (registerWrites env data) db).user (env.registered data).id = some row :=
    hrow
  rw [huser]
  exact ⟨_, rfl⟩

variable {call : Call}

theorem call_refused (h : call.verdict db = some e) : (call.run env calm db).1 = .error e := by
  cases call with
  | register data =>
      cases hu : db.userByEmail data.email with
      | none =>
          simp only [Call.verdict, hu, Option.map_none] at h
          exact absurd h (by simp)
      | some u =>
          simp only [Call.verdict, hu, Option.map_some] at h
          obtain rfl := Option.some.inj h
          show (engine.request (handleRegister data) env calm db).1.map _ = _
          rw [request_of_reaches (register_refused (R := AnyRow) (pinned hu))]
          rfl
  | post req =>
      show (engine.request (handle req) env calm db).1.map _ = _
      rw [request_of_reaches (handle_refused h)]
      rfl

theorem call_not_refused (env : Env) (h : call.verdict db = none) :
    ∃ a, (call.run env calm db).1 = .ok a := by
  cases call with
  | register data =>
      obtain ⟨out, hout⟩ := register_not_refused env (Option.map_eq_none_iff.mp h)
      refine ⟨.user out, ?_⟩
      show (engine.request (handleRegister data) env calm db).1.map _ = _
      rw [hout]
      rfl
  | post req =>
      obtain ⟨r, hr⟩ := handle_not_refused env h
      refine ⟨.response r, ?_⟩
      show (engine.request (handle req) env calm db).1.map _ = _
      rw [hr]
      rfl

/-- Without faults, a call fails exactly with its verdict. -/
theorem call_error_iff (call : Call) (env : Env) (db : Db) (e : Error) :
    (call.run env calm db).1 = .error e ↔ call.verdict db = some e := by
  constructor
  · intro h
    cases hv : call.verdict db with
    | none =>
        obtain ⟨a, ha⟩ := call_not_refused env hv
        rw [ha] at h
        exact absurd h (by simp)
    | some e' =>
        rw [call_refused hv] at h
        rw [Except.error.inj h]
  · exact call_refused

/-- What a call with faults ends with, its calm self does too, or the fault is
what it ends with. -/
theorem call_faulty {f : Nat → Bool} :
    (∀ a, (call.run env f db).1 = .ok a → (call.run env calm db).1 = .ok a)
      ∧ ∀ e, (call.run env f db).1 = .error e → e = .server ∨ (call.run env calm db).1 = .error e := by
  have hgeneral : ∀ {β : Type} (p : Prog β) (g : β → Answer),
      (∀ a, (engine.request p env f db).1.map g = .ok a → (engine.request p env calm db).1.map g = .ok a)
        ∧ ∀ e, (engine.request p env f db).1.map g = .error e →
          e = .server ∨ (engine.request p env calm db).1.map g = .error e := by
    intro β p g
    cases ho : (engine.request p env f db).1 with
    | ok b =>
        rw [← engine.request_ok ho, ho]
        exact ⟨fun a h => h, fun e h => absurd h (by simp [Except.map])⟩
    | error e' =>
        refine ⟨fun a h => absurd h (by simp [Except.map]), fun e h => ?_⟩
        obtain rfl : e' = e := Except.error.inj h
        rcases engine.request_error_calm ho with hfault | hcalm
        · exact Or.inl hfault
        · rw [hcalm]
          exact Or.inr rfl
  cases call with
  | register data => exact hgeneral (handleRegister data) .user
  | post req => exact hgeneral (handle req) .response

end

/-! ## §4. Values that are refused. -/

/-- `Call.run` on a database that refuses some statements for their values. -/
def Call.runRefusing (refuses : Cmd → Env → Bool) (call : Call) (env : Env) (faults : Nat → Bool)
    (db : Db) : Except Error Answer × Db :=
  match call with
  | .register data =>
      let (o, db') := (engine.refusing refuses).request (handleRegister data) env faults db
      (o.map .user, db')
  | .post req =>
      let (o, db') := (engine.refusing refuses).request (handle req) env faults db
      (o.map .response, db')

/-- The statements that a call sends when nothing fails. -/
def Call.sent (call : Call) (env : Env) (db : Db) : List (Cmd × Env) :=
  match call with
  | .register data => engine.sent (handleRegister data) [] env db
  | .post req => engine.sent (handle req) [] env db

/-- The numbers among the parameters of a statement. -/
def Cmd.numbers : Cmd → List Int
  | .getUser i | .getRequest i | .getRequestForUpdate i | .getNegotiation i
  | .getNegotiationForUpdate i | .lastProposal i | .proposals i | .decide i _ | .closeRequest i => [i]
  | .thread i j | .activeSiblings i j => [i, j]
  | .requestsOfClient i limit offset | .negotiationsOfSupplier i limit offset
  | .negotiationsOfClient i limit offset => [i, limit, offset]
  | .openRequests limit offset => [limit, offset]
  | _ => []

/-- A row that does not fit its columns. -/
def columnsRefuse (c : Cmd) (env : Env) : Bool := (c.writes env).any fun w => w.stored.isNone

/-- PostgreSQL, whose parameters for INTEGER columns are cast to INTEGER. -/
def postgresRefuses (c : Cmd) (env : Env) : Bool :=
  (c.numbers.any fun i => !decide (IsInteger i)) || columnsRefuse c env

section
variable {call : Call} {env : Env} {db : Db} {refuses : Cmd → Env → Bool}

/-- **A refusal is one of the faults.** -/
theorem runRefusing_faulty (refuses : Cmd → Env → Bool) (call : Call) (env : Env) (f : Nat → Bool)
    (db : Db) : ∃ f', call.runRefusing refuses env f db = call.run env f' db := by
  cases call with
  | register data =>
      obtain ⟨f', h⟩ := engine.request_refusing refuses (handleRegister data) env f db
      exact ⟨f', by simp only [Call.runRefusing, Call.run, h]⟩
  | post req =>
      obtain ⟨f', h⟩ := engine.request_refusing refuses (handle req) env f db
      exact ⟨f', by simp only [Call.runRefusing, Call.run, h]⟩

/-- A call whose statements are all taken does not notice. -/
theorem runRefusing_accepted (h : ∀ c ∈ call.sent env db, refuses c.1 c.2 = false) :
    call.runRefusing refuses env calm db = call.run env calm db := by
  cases call with
  | register data => simp only [Call.runRefusing, Call.run, Engine.request_accepted h]
  | post req => simp only [Call.runRefusing, Call.run, Engine.request_accepted h]

/-- **The columns of PostgreSQL** refuse the statements whose rows do not fit. -/
theorem runPostgres_refusing (call : Call) (env : Env) (f : Nat → Bool) (db : Db) :
    call.runPostgres env f db = call.runRefusing columnsRefuse env f db := by
  have hrefuses : ∀ c env, columnsRefuse c env = true
      ↔ ∃ w ∈ engine.writes c env, Write.stored w = none := by
    intro c env
    unfold columnsRefuse
    rw [List.any_eq_true]
    simp only [Option.isNone_iff_eq_none]
    rfl
  have hexec : ∀ {α : Type} (p : Prog α),
      postgres.request p env f db = (engine.refusing columnsRefuse).request p env f db := by
    intro α p
    unfold Engine.request postgres
    rw [Engine.exec_storing_refusing (fun w => w.stored_or) hrefuses]
  cases call with
  | register data => simp only [Call.runPostgres, Call.runRefusing, hexec]
  | post req => simp only [Call.runPostgres, Call.runRefusing, hexec]

/-- **Where a statement fails**, by a fault or by its values, a call ends with its verdict or
with that failure. -/
theorem runRefusing_verdict (refuses : Cmd → Env → Bool) (call : Call) (env : Env) (f : Nat → Bool)
    (db : Db) :
    (∀ a, (call.runRefusing refuses env f db).1 = .ok a → call.verdict db = none)
      ∧ ∀ e, (call.runRefusing refuses env f db).1 = .error e →
        e = .server ∨ call.verdict db = some e := by
  obtain ⟨f', hrun⟩ := runRefusing_faulty refuses call env f db
  rw [hrun]
  refine ⟨fun a ha => ?_, fun e he => ?_⟩
  · have hcalm := call_faulty.1 a ha
    cases hv : call.verdict db with
    | none => rfl
    | some e =>
        rw [call_refused hv] at hcalm
        exact absurd hcalm (by simp)
  · rcases call_faulty.2 e he with hfault | hcalm
    · exact Or.inl hfault
    · exact Or.inr ((call_error_iff call env db e).mp hcalm)

/-- So it is on PostgreSQL. -/
theorem runPostgres_verdict (call : Call) (env : Env) (f : Nat → Bool) (db : Db) :
    (∀ a, (call.runPostgres env f db).1 = .ok a → call.verdict db = none)
      ∧ ∀ e, (call.runPostgres env f db).1 = .error e → e = .server ∨ call.verdict db = some e := by
  rw [runPostgres_refusing]
  exact runRefusing_verdict columnsRefuse call env f db

end

/-! ## §5. Reachable states. -/

/-- The errors of a call, by their status. -/
def Error.Expected (e : Error) : Prop :=
  e.statusCode ∈ [401, 403, 404, 409] ∧ e ≠ .conflict "Negotiation has no proposals"

theorem offerRefusal_expected {db : Db} {user : User} {i : Id} {e : Error}
    (h : db.offerRefusal user i = some e) : e.Expected := by
  unfold Db.offerRefusal at h
  unfold Error.Expected
  cases hreq : db.request i with
  | none =>
      rw [hreq] at h
      obtain rfl := Option.some.inj h
      exact ⟨by decide, by simp⟩
  | some req =>
      simp only [hreq] at h
      split at h
      · obtain rfl := Option.some.inj h
        exact ⟨by decide, by decide⟩
      · split at h
        · obtain rfl := Option.some.inj h
          exact ⟨by decide, by decide⟩
        · exact absurd h (by simp)

/-- A negotiation has its request, and a proposal. -/
theorem Consistent.decisionRefusal_expected {db : Db} (hc : Consistent db) {user : User} {i : Id}
    {e : Error} (h : db.decisionRefusal user i = some e) : e.Expected := by
  unfold Db.decisionRefusal at h
  unfold Error.Expected
  cases hneg : db.negotiation i with
  | none =>
      rw [hneg] at h
      obtain rfl := Option.some.inj h
      exact ⟨by decide, by simp⟩
  | some neg =>
      obtain ⟨r, _, hreq, hchain⟩ := hc.client (lookup_mem hneg)
      have hlast : db.lastProposal neg.id ≠ none := by
        unfold Db.lastProposal
        rw [hchain.argmax]
        exact fun hnone => hchain.nonempty (List.getLast?_eq_none_iff.mp hnone)
      simp only [hneg, hreq] at h
      split at h
      · obtain rfl := Option.some.inj h
        exact ⟨by decide, by simp⟩
      split at h
      · obtain rfl := Option.some.inj h
        refine ⟨by simp [Error.statusCode], ?_⟩
        cases neg.status <;> decide
      split at h
      · next hnone => exact absurd hnone hlast
      · split at h
        · obtain rfl := Option.some.inj h
          exact ⟨by decide, by decide⟩
        · exact absurd h (by simp)

theorem Consistent.verdict_expected {db : Db} (hc : Consistent db) {call : Call} {e : Error}
    (h : call.verdict db = some e) : e.Expected := by
  cases call with
  | register data =>
      obtain ⟨u, _, rfl⟩ := Option.map_eq_some_iff.mp h
      exact ⟨by decide, by decide⟩
  | post req =>
      have hpost : req.verdict db = some e := h
      unfold HttpRequest.verdict at hpost
      cases hu : db.user req.caller with
      | none =>
          rw [hu] at hpost
          obtain rfl := Option.some.inj hpost
          exact ⟨by decide, by simp⟩
      | some user =>
          simp only [hu] at hpost
          cases hrole : req.roleRefusal user with
          | some e' =>
              rw [hrole] at hpost
              obtain rfl := Option.some.inj hpost
              unfold HttpRequest.roleRefusal at hrole
              split at hrole
              · exact absurd hrole (by simp)
              · split at hrole
                · obtain rfl := Option.some.inj hrole
                  exact ⟨by simp [Error.statusCode], by simp⟩
                · exact absurd hrole (by simp)
          | none =>
              simp only [hrole] at hpost
              unfold HttpRequest.keyedRefusal at hpost
              split at hpost
              · cases hop : req.op with
                | createRequest data =>
                    rw [hop] at hpost
                    exact absurd hpost (by simp [Op.refusal])
                | makeOffer i data =>
                    rw [hop] at hpost
                    exact offerRefusal_expected hpost
                | accept i | reject i | counter i data =>
                    rw [hop] at hpost
                    exact hc.decisionRefusal_expected hpost
              · split at hpost
                · obtain rfl := Option.some.inj hpost
                  exact ⟨by decide, by simp⟩
                · exact absurd hpost (by simp)

/-- A read is refused for the user, for the id or for the participant. -/
theorem Consistent.read_expected {db : Db} (hc : Consistent db) {read : ReadRequest} {e : Error}
    (h : read.answer db = .error e) : e.statusCode ∈ [401, 403, 404] := by
  unfold ReadRequest.answer at h
  cases hu : db.user read.caller with
  | none =>
      rw [hu] at h
      obtain rfl := Except.error.inj h
      decide
  | some user =>
      simp only [hu] at h
      cases hop : read.op with
      | listRequests p | listNegotiations p =>
          rw [hop] at h
          exact absurd h (by simp [ReadOp.answer])
      | getRequest i =>
          have hfor : db.requestFor user i = .error e := by
            rw [hop] at h
            cases hr : db.requestFor user i with
            | error e' =>
                simp only [ReadOp.answer, hr] at h
                rw [Except.error.inj h]
            | ok r =>
                simp only [ReadOp.answer, hr] at h
                exact absurd h (by simp [Except.map])
          unfold Db.requestFor at hfor
          split at hfor
          · obtain rfl := Except.error.inj hfor
            simp [Error.statusCode]
          · split at hfor
            · obtain rfl := Except.error.inj hfor
              decide
            · exact absurd hfor (by simp)
      | getNegotiation i =>
          have hfor : db.negotiationFor user i = .error e := by
            rw [hop] at h
            cases hn : db.negotiationFor user i with
            | error e' =>
                simp only [ReadOp.answer, hn] at h
                rw [Except.error.inj h]
            | ok n =>
                simp only [ReadOp.answer, hn] at h
                exact absurd h (by simp [Except.map])
          unfold Db.negotiationFor at hfor
          cases hneg : db.negotiation i with
          | none =>
              rw [hneg] at hfor
              obtain rfl := Except.error.inj hfor
              simp [Error.statusCode]
          | some n =>
              -- its request is there
              obtain ⟨r, _, hreq, _⟩ := hc.client (lookup_mem hneg)
              simp only [hneg, hreq] at hfor
              split at hfor
              · obtain rfl := Except.error.inj hfor
                decide
              · exact absurd hfor (by simp)

/-- **The verdict is what a call ends with.**  In a reachable state, whatever values the
database refuses: a call none of whose statements fails, by a fault or for its values, fails
exactly with its verdict; any other succeeds only without a verdict and fails only with the
verdict or with the failure.  No verdict is an internal error, and no read none of whose
statements fails ends with one. -/
theorem verdict_exact {db : Db} (hdb : Reachable db) (refuses : Cmd → Env → Bool) (call : Call)
    (env : Env) (f : Nat → Bool) :
    ((∀ c ∈ call.sent env db, refuses c.1 c.2 = false) →
        ∀ e, (call.runRefusing refuses env calm db).1 = .error e ↔ call.verdict db = some e)
      ∧ (∀ a, (call.runRefusing refuses env f db).1 = .ok a → call.verdict db = none)
      ∧ (∀ e, (call.runRefusing refuses env f db).1 = .error e →
          e = .server ∨ call.verdict db = some e)
      ∧ (∀ e, call.verdict db = some e → e.Expected)
      ∧ ∀ (read : ReadRequest) (e : Error),
          (∀ c ∈ engine.sent (handleRead read) [] env db, refuses c.1 c.2 = false) →
            ((engine.refusing refuses).request (handleRead read) env calm db).1 = .error e →
              e.statusCode ∈ [401, 403, 404] := by
  have hc := hdb.consistent
  obtain ⟨hok, herror⟩ := runRefusing_verdict refuses call env f db
  refine ⟨fun hsent e => ?_, hok, herror, fun e he => hc.verdict_expected he,
    fun read e hsent he => ?_⟩
  · rw [runRefusing_accepted hsent]
    exact call_error_iff call env db e
  · rw [Engine.request_accepted hsent, handleRead_answers] at he
    exact hc.read_expected he

/-- On PostgreSQL a supplier answers the other supplier's bid.  His id 2 ^ 31 is refused by
the database, not by the verdict on it. -/
theorem verdict_exact_market :
    ((Call.post (plain 3 (.reject 1))).runRefusing postgresRefuses (.following market) calm market).1
        = .error (.permissionDenied "You are not a participant in this negotiation")
      ∧ ((Call.post (plain 3 (.reject (2 ^ 31)))).runRefusing postgresRefuses (.following market)
          calm market).1 = .error .server
      ∧ (Call.post (plain 3 (.reject (2 ^ 31)))).verdict market
        = some (.notFound "Negotiation not found") :=
  ⟨((verdict_exact market_reachable postgresRefuses (.post (plain 3 (.reject 1)))
      (.following market) calm).1 (by decide +kernel) _).mpr (by decide +kernel),
    by decide +kernel, by decide +kernel⟩

end Procurement
