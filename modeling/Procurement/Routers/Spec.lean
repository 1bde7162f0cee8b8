/-
  Procurement.Routers.Spec
  ────────────────────────
  **WHAT A REQUEST DOES, FROM THE TOKEN TO THE COMMIT.**

  `Produces` lists, operation by operation, when the `produce` of a request
  goes through and what it stages.  Around it, the wrapper is followed once for
  all five operations: the caller and the role, the lookup of the key, and
  behind `produce` the key's row and the commit.

  The result is `handle_outcome`: a request is refused and leaves no trace, or
  is answered from a stored record and leaves no trace, or commits exactly the
  writes of its operation and the record of its key.
-/
import Procurement.Services.Spec

namespace Procurement

open Procurement.Framework
open Procurement.Framework.Program

variable {R : Row → Prop} {F : Db → Prop} {α : Type}

/-! ## §1. Rendering. -/

def renderedRequest (req : ProductRequest) : Body :=
  .productRequest
    { id := req.id, clientId := req.clientId, productName := req.productName,
      description := req.description, quantity := req.quantity, status := req.status,
      createdAt := req.createdAt }

/-- The response for a negotiation whose proposals are `ps`. -/
def renderedNegotiation (neg : Negotiation) (ps : List Proposal) : Body :=
  .negotiation
    { id := neg.id, requestId := neg.requestId, supplierId := neg.supplierId,
      status := neg.status, agreedAmount := neg.agreedAmount,
      lastActorId := (orderById ps).getLast?.map (·.actorId), createdAt := neg.createdAt }

/-- The dump of a request asks for nothing. -/
theorem productRequestOut_reaches {req : ProductRequest} {k : Body → Prog α} {env : Env}
    {ws : List Write} {b : At α}
    (rest : engine.Reaches (Within R) F ⟨k (renderedRequest req), env, ws⟩ b) :
    engine.Reaches (Within R) F ⟨productRequestOut req >>= k, env, ws⟩ b := by
  simp only [productRequestOut, send_bind, call_bind, pure_eq, ret_bind]
  exact .read (r := ()) quiet rfl rfl (fun _ _ => rfl) rest

/-- The dump of a negotiation sees the proposals that are staged. -/
theorem negotiationOut_reaches {neg : Negotiation} {ps : List Proposal} {k : Body → Prog α}
    {env : Env} {ws : List Write} {b : At α} (hF : ∀ db, F db → db.proposalsOf neg.id = ps)
    (rest : engine.Reaches (Within R) F
      ⟨k (renderedNegotiation neg (ps ++ insertedProposals neg.id ws)), env, ws⟩ b) :
    engine.Reaches (Within R) F ⟨negotiationOut neg >>= k, env, ws⟩ b := by
  simp only [negotiationOut, send_bind, call_bind, pure_eq, ret_bind]
  refine .read (r := orderById (ps ++ insertedProposals neg.id ws)) quiet rfl rfl
    (fun db hdb => ?_) ?_
  · show Except.ok (orderById ((engine.view ws db).proposalsOf neg.id)) = _
    rw [proposalsOf_view, hF db hdb]
  · exact .read (r := ()) quiet rfl rfl (fun _ _ => rfl) rest

/-! ## §2. The operations. -/

/-- What an operation that goes through leaves: its body, its environment and
the writes it has staged. -/
structure Produced where
  body : Body
  env : Env
  writes : List Write

section
variable {user : User} {neg : Negotiation} {client : Id} {ps : List Proposal} {last : Proposal}
  {req : ProductRequest} {env : Env} {b : At α} {k : Body → Prog α}

def createProduced (user : User) (env : Env) (data : ProductRequestIn) : Produced where
  body := renderedRequest (env.createdRequest user data)
  env := (env.pop .requests).pop .auditLog
  writes := createWrites env user data

/-- A request is produced whatever the database has. -/
theorem produce_createRequest {data : ProductRequestIn}
    (rest : engine.Reaches (Within R) F ⟨k (createProduced user env data).body,
      (createProduced user env data).env, (createProduced user env data).writes⟩ b) :
    engine.Reaches (Within R) F ⟨(Op.createRequest data).produce user >>= k, env, []⟩ b := by
  simp only [Op.produce, Program.bind_assoc]
  exact createRequest_reaches (productRequestOut_reaches rest)

/-- `ps` are the proposals that already carry the id of the new negotiation:
none, as ids are fresh. -/
def offerProduced (user : User) (env : Env) (requestId : Id) (data : OfferIn)
    (ps : List Proposal) : Produced where
  body := renderedNegotiation (env.offered user requestId)
    (ps ++ [env.opening user requestId data])
  env := env.afterOffer
  writes := offerWrites env user requestId data

/-- An offer is produced on an open request without a thread of the supplier's. -/
theorem produce_makeOffer {data : OfferIn} (hr : R (.request req.id))
    (ht : R (.thread req.id user.id))
    (hF : ∀ db, F db → OfferReading req user.id false db ∧
      db.proposalsOf (env.offered user req.id).id = ps)
    (ho : req.status = .opened)
    (rest : engine.Reaches (Within R) F ⟨k (offerProduced user env req.id data ps).body,
      (offerProduced user env req.id data ps).env,
      (offerProduced user env req.id data ps).writes⟩ b) :
    engine.Reaches (Within R) F ⟨(Op.makeOffer req.id data).produce user >>= k, env, []⟩ b := by
  simp only [Op.produce, Program.bind_assoc]
  refine makeOffer_reaches hr ht (fun db hdb => (hF db hdb).1) ho ?_
  refine negotiationOut_reaches (fun db hdb => (hF db hdb).2) ?_
  have hins : insertedProposals (env.offered user req.id).id (offerWrites env user req.id data)
      = [env.opening user req.id data] := by
    simp [offerWrites, insertedProposals, Env.opening, Env.proposalOf, Env.newProposal]
  rw [hins]
  exact rest

def rejectProduced (user : User) (env : Env) (neg : Negotiation) (ps : List Proposal) :
    Produced where
  body := renderedNegotiation (Decision.rejected.on neg) ps
  env := env.pop .auditLog
  writes := rejectWrites env user neg

/-- A rejection is produced when it is the user's turn. -/
theorem produce_reject (hn : R (.negotiation neg.id)) (hF : ∀ db, F db → Reading neg client ps db)
    (h : MayRespond user neg client ps last)
    (rest : engine.Reaches (Within R) F ⟨k (rejectProduced user env neg ps).body,
      (rejectProduced user env neg ps).env, (rejectProduced user env neg ps).writes⟩ b) :
    engine.Reaches (Within R) F ⟨(Op.reject neg.id).produce user >>= k, env, []⟩ b := by
  simp only [Op.produce, Program.bind_assoc]
  refine reject_reaches hn hF h ?_
  refine negotiationOut_reaches (fun db hdb => (hF db hdb).proposals) ?_
  show engine.Reaches (Within R) F ⟨k (renderedNegotiation _ (ps ++ [])), _, _⟩ b
  rw [List.append_nil]
  exact rest

def counterProduced (user : User) (env : Env) (neg : Negotiation) (ps : List Proposal)
    (last : Proposal) (data : CounterIn) : Produced where
  body := renderedNegotiation neg (ps ++ [env.countered user neg last data])
  env := (env.pop .proposals).pop .auditLog
  writes := counterWrites env user neg last data

/-- `counter` behind its guards, up to the rendered response. -/
theorem produce_countering {data : CounterIn} (hF : ∀ db, F db → db.proposalsOf neg.id = ps)
    (rest : engine.Reaches (Within R) F ⟨k (counterProduced user env neg ps last data).body,
      (counterProduced user env neg ps last data).env,
      (counterProduced user env neg ps last data).writes⟩ b) :
    engine.Reaches (Within R) F ⟨counterProposing user neg last data >>= fun n =>
      negotiationOut n >>= k, env, []⟩ b := by
  refine counterProposing_reaches ?_
  refine negotiationOut_reaches hF ?_
  have hins : insertedProposals neg.id (counterWrites env user neg last data)
      = [env.countered user neg last data] := by
    simp [counterWrites, insertedProposals, Env.countered, Env.proposalOf, Env.newProposal]
  rw [hins]
  exact rest

/-- A counter is produced when it is the user's turn. -/
theorem produce_counter {data : CounterIn} (hn : R (.negotiation neg.id))
    (hF : ∀ db, F db → Reading neg client ps db)
    (h : MayRespond user neg client ps last)
    (rest : engine.Reaches (Within R) F ⟨k (counterProduced user env neg ps last data).body,
      (counterProduced user env neg ps last data).env,
      (counterProduced user env neg ps last data).writes⟩ b) :
    engine.Reaches (Within R) F ⟨(Op.counter neg.id data).produce user >>= k, env, []⟩ b := by
  simp only [Op.produce, Program.bind_assoc]
  refine counter_reaches_insert hn hF h ?_
  exact produce_countering (fun db hdb => (hF db hdb).proposals) rest

def acceptProduced (user : User) (env : Env) (neg : Negotiation) (ps : List Proposal)
    (last : Proposal) (req : ProductRequest) (siblings : List Negotiation) : Produced where
  body := renderedNegotiation ((Decision.accepted last.amount).on neg) ps
  env := (env.afterSupersede siblings).pop .auditLog
  writes := acceptWrites env user neg last req siblings

theorem insertedProposals_supersede (n w : Id) (env : Env) (siblings : List Negotiation) :
    insertedProposals n (supersedeWrites w env siblings) = [] := by
  induction siblings generalizing env with
  | nil => rfl
  | cons sib siblings ih => exact ih (env.pop .auditLog)

theorem insertedProposals_accept (n : Id) (env : Env) (siblings : List Negotiation) :
    insertedProposals n (acceptWrites env user neg last req siblings) = [] := by
  show List.filterMap _ (supersedeWrites neg.id env siblings ++ _) = []
  rw [List.filterMap_append, List.append_eq_nil_iff]
  exact ⟨insertedProposals_supersede n neg.id env siblings, rfl⟩

/-- `accept` behind the SELECT of the siblings, up to the rendered response. -/
theorem produce_superseding {siblings : List Negotiation} (hr : R (.request req.id))
    (hs : ∀ s ∈ siblings, R (.negotiation s.id))
    (hF : ∀ db, F db → db.proposalsOf neg.id = ps)
    (rest : engine.Reaches (Within R) F ⟨k (acceptProduced user env neg ps last req siblings).body,
      (acceptProduced user env neg ps last req siblings).env,
      (acceptProduced user env neg ps last req siblings).writes⟩ b) :
    engine.Reaches (Within R) F ⟨acceptSuperseding user neg last req siblings >>= fun n =>
      negotiationOut n >>= k, env, [.decide neg.id (.accepted last.amount)]⟩ b := by
  refine acceptSuperseding_reaches hr hs ?_
  refine negotiationOut_reaches hF ?_
  show engine.Reaches (Within R) F ⟨k (renderedNegotiation _
    (ps ++ insertedProposals neg.id (acceptWrites env user neg last req siblings))), _, _⟩ b
  rw [insertedProposals_accept, List.append_nil]
  exact rest

end

/-! ## §3. When an operation goes through. -/

/-- `op`, called by `user` on the state `db`, passes all its guards and leaves
`o`. -/
inductive Produces (db : Db) (user : User) (env : Env) : Op → Produced → Prop where
  | createRequest (data : ProductRequestIn) :
      Produces db user env (.createRequest data) (createProduced user env data)
  | makeOffer {req : ProductRequest} (data : OfferIn)
      (h : OfferReading req user.id false db) (ho : req.status = .opened) :
      Produces db user env (.makeOffer req.id data)
        (offerProduced user env req.id data (db.proposalsOf (env.offered user req.id).id))
  | accept {neg : Negotiation} {client : Id} {ps : List Proposal} {last : Proposal}
      {req : ProductRequest} (h : Reading neg client ps db)
      (hm : MayRespond user neg client ps last) (hreq : db.request neg.requestId = some req) :
      Produces db user env (.accept neg.id)
        (acceptProduced user env neg ps last req (env.order (db.activeSiblings req.id neg.id)))
  | reject {neg : Negotiation} {client : Id} {ps : List Proposal} {last : Proposal}
      (h : Reading neg client ps db) (hm : MayRespond user neg client ps last) :
      Produces db user env (.reject neg.id) (rejectProduced user env neg ps)
  | counter {neg : Negotiation} {client : Id} {ps : List Proposal} {last : Proposal}
      (data : CounterIn) (h : Reading neg client ps db)
      (hm : MayRespond user neg client ps last) :
      Produces db user env (.counter neg.id data) (counterProduced user env neg ps last data)

/-- A fact about one state, as a fact about every state equal to it. -/
theorem pinned {P : Db → Prop} {db : Db} (h : P db) : ∀ db', db' = db → P db' :=
  fun _ e => e ▸ h

/-- An operation that passes its guards leaves what `Produces` says. -/
theorem Produces.reaches {db : Db} {user : User} {env : Env} {op : Op} {o : Produced}
    (h : Produces db user env op o) {k : Body → Prog α} {b : At α}
    (rest : engine.Reaches (Within AnyRow) (· = db) ⟨k o.body, o.env, o.writes⟩ b) :
    engine.Reaches (Within AnyRow) (· = db) ⟨op.produce user >>= k, env, []⟩ b := by
  cases h with
  | createRequest data => exact produce_createRequest rest
  | makeOffer data h ho =>
      exact produce_makeOffer trivial trivial (pinned ⟨h, rfl⟩) ho rest
  | reject h hm => exact produce_reject trivial (pinned h) hm rest
  | counter data h hm => exact produce_counter trivial (pinned h) hm rest
  | @accept neg client ps last req h hm hreq =>
      simp only [Op.produce, Program.bind_assoc]
      refine accept_reaches_lock trivial (pinned h) hm ?_
      refine .read (r := some req) (locking_request trivial) rfl rfl
        (pinned (congrArg Except.ok hreq)) ?_
      simp only [acceptLocked, call_bind]
      refine .read (r := env.order (db.activeSiblings req.id neg.id)) quiet rfl rfl ?_ ?_
      · intro db' hdb
        subst hdb
        -- the winner's own decision is staged already
        show Except.ok (env.order (((Write.decide neg.id _).apply _).activeSiblings req.id neg.id))
          = _
        rw [activeSiblings_decide]
      · exact produce_superseding trivial (fun _ _ => trivial) (pinned h.proposals) rest

section
variable {db : Db} {user : User} {env : Env} {n : Id}

/-- The three decisions have the same guards, whatever they decide. -/
theorem produces_accept_iff : (∃ o, Produces db user env (.accept n) o)
    ↔ ∃ neg client ps last, neg.id = n ∧ Reading neg client ps db
      ∧ MayRespond user neg client ps last := by
  constructor
  · rintro ⟨o, ho⟩
    cases ho with
    | accept hread hm hreq => exact ⟨_, _, _, _, rfl, hread, hm⟩
  · rintro ⟨neg, client, ps, last, rfl, hread, hm⟩
    obtain ⟨r, hr, _⟩ := hread.owner
    exact ⟨_, .accept hread hm hr⟩

theorem produces_reject_iff : (∃ o, Produces db user env (.reject n) o)
    ↔ ∃ neg client ps last, neg.id = n ∧ Reading neg client ps db
      ∧ MayRespond user neg client ps last := by
  constructor
  · rintro ⟨o, ho⟩
    cases ho with
    | reject hread hm => exact ⟨_, _, _, _, rfl, hread, hm⟩
  · rintro ⟨neg, client, ps, last, rfl, hread, hm⟩
    exact ⟨_, .reject hread hm⟩

theorem produces_counter_iff {data : CounterIn} :
    (∃ o, Produces db user env (.counter n data) o)
      ↔ ∃ neg client ps last, neg.id = n ∧ Reading neg client ps db
        ∧ MayRespond user neg client ps last := by
  constructor
  · rintro ⟨o, ho⟩
    cases ho with
    | counter data hread hm => exact ⟨_, _, _, _, rfl, hread, hm⟩
  · rintro ⟨neg, client, ps, last, rfl, hread, hm⟩
    exact ⟨_, .counter data hread hm⟩

end

/-- The guards that the three decisions share: without them the load raises. -/
theorem decision_fails {db : Db} {user : User} {env : Env} {n : Id} (k : Negotiation → Prog α)
    (hno : ∀ neg client ps last, n = neg.id → Reading neg client ps db →
      ¬ MayRespond user neg client ps last) :
    ∃ e, engine.Reaches (Within AnyRow) (· = db)
      (⟨loadActiveForResponse user n >>= k, env, []⟩ : At α) ⟨.raise e, env, []⟩ := by
  cases hneg : db.negotiation n with
  | none =>
      refine ⟨.notFound "Negotiation not found", ?_⟩
      simp only [loadActiveForResponse, send_bind, call_bind]
      exact .read (r := none) (locking_negotiation trivial) rfl rfl
        (pinned (congrArg Except.ok hneg)) (.refl _)
  | some neg =>
      obtain rfl : neg.id = n := lookup_key hneg
      cases hreq : db.request neg.requestId with
      | none =>
          -- `request.client_id` of no request
          refine ⟨.server, ?_⟩
          simp only [loadActiveForResponse, send_bind, call_bind]
          refine .read (r := some neg) (locking_negotiation trivial) rfl rfl
            (pinned (congrArg Except.ok hneg)) ?_
          simp only [ensureParticipant, send_bind, call_bind]
          exact .read (r := none) quiet rfl rfl
            (pinned (congrArg Except.ok hreq)) (.refl _)
      | some req =>
          have hread : Reading neg req.clientId (db.proposalsOf neg.id) db :=
            ⟨hneg, ⟨req, hreq, rfl⟩, rfl⟩
          exact load_fails trivial (pinned hread) (fun last => hno neg _ _ last rfl hread) k

/-- An operation that does not pass its guards raises. -/
theorem produce_fails {db : Db} {user : User} {env : Env} {op : Op}
    (hno : ∀ o, ¬ Produces db user env op o) (k : Body → Prog α) :
    ∃ e, engine.Reaches (Within AnyRow) (· = db) (⟨op.produce user >>= k, env, []⟩ : At α)
      ⟨.raise e, env, []⟩ := by
  cases op with
  | createRequest data => exact absurd (.createRequest data) (hno _)
  | makeOffer rid data =>
      simp only [Op.produce, Program.bind_assoc]
      cases hreq : db.request rid with
      | none =>
          refine ⟨.notFound "Request not found", ?_⟩
          simp only [makeOffer, send_bind, call_bind]
          exact .read (r := none) (locking_request trivial) rfl rfl
            (pinned (congrArg Except.ok hreq)) (.refl _)
      | some req =>
          obtain rfl : req.id = rid := lookup_key hreq
          have hread : OfferReading req user.id (db.thread req.id user.id).isSome db :=
            ⟨hreq, rfl⟩
          refine makeOffer_fails trivial (pinned hread) ?_
          intro hgo
          exact hno _ (.makeOffer data ⟨hreq, hgo.2⟩ hgo.1)
  | accept n =>
      simp only [Op.produce, accept, Program.bind_assoc]
      refine decision_fails _ fun neg client ps last hn hread hm => ?_
      subst hn
      obtain ⟨req, hreq, _⟩ := hread.owner
      exact hno _ (.accept hread hm hreq)
  | reject n =>
      simp only [Op.produce, reject, Program.bind_assoc]
      refine decision_fails _ fun neg client ps last hn hread hm => ?_
      subst hn
      exact hno _ (.reject hread hm)
  | counter n data =>
      simp only [Op.produce, counter, Program.bind_assoc]
      refine decision_fails _ fun neg client ps last hn hread hm => ?_
      subst hn
      exact hno _ (.counter data hread hm)

end Procurement
