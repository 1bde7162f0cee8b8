/-
  Procurement.Services.Spec
  ─────────────────────────
  **ONE SPECIFICATION FOR EACH SERVICE FUNCTION.**

  Every function is followed, statement by statement, from its start to its
  end, on every state with the facts its guards ask for (`Reading`, `MayRespond`).
  The result is the list of writes it stages and the environment it leaves.
  Callers cite these lemmas and never unfold a service again.

  `accept` is cut in three, at its two statements whose answers no lock it
  holds protects yet: the locked read of the request, and the SELECT of the
  siblings.  `counter` is cut at its INSERT, which draws an id.
-/
import Procurement.Framework.Replay
import Procurement.Routers.Endpoints

namespace Procurement

open Procurement.Framework
open Procurement.Framework.Program

variable {R : Row → Prop} {F : Db → Prop} {α : Type}

/-- A point of a program against the database. -/
abbrev At (α : Type) := Point Cmd Cmd.Resp Error Write Env α

/-- The statement locks nothing outside `R`. -/
def Within (R : Row → Prop) (c : Cmd) : Prop := ∀ db row, c.locks db = some row → R row

/-- Alone, a session may lock every row. -/
def AnyRow : Row → Prop := fun _ => True

/-- A statement without a lock. -/
theorem quiet {c : Cmd} (h : ∀ db, c.locks db = none := by intro db; rfl) : Within R c := by
  intro db row hrow
  rw [h db] at hrow
  exact absurd hrow (by simp)

/-- A statement with the lock `row`, when it has one. -/
theorem locking {c : Cmd} {row : Row} (h : R row)
    (hc : ∀ db, c.locks db = none ∨ c.locks db = some row) : Within R c := by
  intro db row' hrow
  rcases hc db with hn | hs
  · rw [hn] at hrow
    exact absurd hrow (by simp)
  · obtain rfl : row = row' := Option.some.inj (hs.symm.trans hrow)
    exact h

/-- A request may be locked where its row is allowed. -/
theorem locking_request {i : Id} (h : R (.request i)) : Within R (.getRequestForUpdate i) := by
  refine locking h fun db => ?_
  show (db.request i).map _ = none ∨ (db.request i).map _ = some _
  cases db.request i <;> simp

/-- A negotiation may be locked where its row is allowed. -/
theorem locking_negotiation {i : Id} (h : R (.negotiation i)) :
    Within R (.getNegotiationForUpdate i) := by
  refine locking h fun db => ?_
  show (db.negotiation i).map _ = none ∨ (db.negotiation i).map _ = some _
  cases db.negotiation i <;> simp

/-- An UPDATE needs the row that it changes. -/
theorem locking_decide {i : Id} {d : Decision} (h : R (.negotiation i)) :
    Within R (.decide i d) :=
  locking h fun _ => Or.inr rfl

/-! ## §1. Reading through staged writes. -/

@[simp] theorem engine_apply (w : Write) (db : Db) : engine.apply w db = w.apply db := rfl

/-- The proposals of a negotiation among staged writes. -/
def insertedProposals (negotiationId : Id) (ws : List Write) : List Proposal :=
  ws.filterMap fun w => match w with
    | .insertProposal p => if p.negotiationId = negotiationId then some p else none
    | _ => none

/-- A write adds the proposals that it inserts, and takes none away. -/
theorem proposalsOf_apply (w : Write) (db : Db) (n : Id) :
    (w.apply db).proposalsOf n = db.proposalsOf n ++ insertedProposals n [w] := by
  cases w with
  -- the only write to the table
  | insertProposal p =>
      show (db.proposals ++ [p]).filter _ = _
      rw [List.filter_append]
      by_cases h : p.negotiationId = n <;> simp [Db.proposalsOf, insertedProposals, h]
  | _ => exact (List.append_nil _).symm

/-- So do all staged writes. -/
theorem proposalsOf_view (ws : List Write) (db : Db) (n : Id) :
    (engine.view ws db).proposalsOf n = db.proposalsOf n ++ insertedProposals n ws := by
  induction ws generalizing db with
  | nil => exact (List.append_nil _).symm
  | cons w ws ih =>
      rw [Engine.view_cons, ih, engine_apply, proposalsOf_apply, List.append_assoc]
      show _ = _ ++ List.filterMap _ ([w] ++ ws)
      rw [List.filterMap_append]
      rfl

/-- A decision about the winner is no news for its siblings. -/
theorem activeSiblings_decide (n : Id) (d : Decision) (db : Db) (rid : Id) :
    ((Write.decide n d).apply db).activeSiblings rid n = db.activeSiblings rid n := by
  show (update Negotiation.id db.negotiations n d.on).filter _ = db.negotiations.filter _
  unfold update
  induction db.negotiations with
  | nil => rfl
  | cons m ms ih =>
      rw [List.map_cons, List.filter_cons, List.filter_cons, ih]
      -- the rewritten row is the winner's, and the SELECT leaves it out before and after
      by_cases hm : m.id = n
      · simp [hm]
      · simp [hm]

/-! ## §2. What the guards read. -/

/-- What `loadActiveForResponse` reads about the negotiation `neg`: its row,
the owner of its request and its proposals. -/
structure Reading (neg : Negotiation) (client : Id) (ps : List Proposal) (db : Db) : Prop where
  row : db.negotiation neg.id = some neg
  owner : ∃ req, db.request neg.requestId = some req ∧ req.clientId = client
  proposals : db.proposalsOf neg.id = ps

/-- The four guards of `loadActiveForResponse`: `user` takes part in `neg`,
which is active and whose last proposal was made by the other party. -/
structure MayRespond (user : User) (neg : Negotiation) (client : Id) (ps : List Proposal)
    (last : Proposal) : Prop where
  participant : user.id = client ∨ user.id = neg.supplierId
  active : neg.status = .active
  isLast : ps.argmax Proposal.id = some last
  counterparty : last.actorId ≠ user.id

/-- What `makeOffer` reads: the row of the request, and whether the supplier
already has a negotiation on it. -/
structure OfferReading (req : ProductRequest) (supplierId : Id) (taken : Bool) (db : Db) :
    Prop where
  row : db.request req.id = some req
  thread : (db.thread req.id supplierId).isSome = taken

/-- The last proposal is looked up by the greatest id. -/
theorem Reading.lastProposal {neg client ps} {db : Db} (h : Reading neg client ps db) :
    db.lastProposal neg.id = ps.argmax Proposal.id := by
  unfold Db.lastProposal
  rw [h.proposals]

/-! ## §3. The audit trail and new rows. -/

/-- The entry `record` appends. -/
def Env.entry (env : Env) (action : AuditAction) (entityType : EntityType)
    (entityId actorId : Option Id) (details : Details) : AuditLog :=
  env.newAudit env.requestId actorId action entityType entityId details

@[simp] theorem Env.entry_action (env : Env) (action : AuditAction) (ety : EntityType)
    (eid aid : Option Id) (details : Details) :
    (env.entry action ety eid aid details).action = action := rfl

/-- **An entry** is staged with the number and the context of the environment. -/
theorem record_reaches {action : AuditAction} {ety : EntityType} {eid aid : Option Id}
    {details : Details} {k : Unit → Prog α} {env : Env} {ws : List Write} {b : At α}
    (rest : engine.Reaches (Within R) F ⟨k (), env.pop .auditLog,
      ws ++ [.insertAudit (env.entry action ety eid aid details)]⟩ b) :
    engine.Reaches (Within R) F ⟨record action ety eid aid details >>= k, env, ws⟩ b := by
  simp only [record, send_bind, call_bind]
  refine .read (r := env.requestId) quiet rfl rfl (fun _ _ => rfl) ?_
  exact .answer (r := ()) quiet (fun _ _ => rfl) rest

/-- The row `createRequest` inserts. -/
def Env.createdRequest (env : Env) (client : User) (data : ProductRequestIn) : ProductRequest :=
  env.newRequest client.id data.productName data.description data.quantity .opened

def createWrites (env : Env) (client : User) (data : ProductRequestIn) : List Write :=
  let req := env.createdRequest client data
  [.insertRequest req,
   .insertAudit ((env.pop .requests).entry .requestCreated .productRequest (some req.id)
     (some client.id) (.product req.productName req.quantity))]

/-- **A request** is staged with its entry, whatever the database has. -/
theorem createRequest_reaches {client : User} {data : ProductRequestIn}
    {k : ProductRequest → Prog α} {env : Env} {b : At α}
    (rest : engine.Reaches (Within R) F ⟨k (env.createdRequest client data),
      (env.pop .requests).pop .auditLog, createWrites env client data⟩ b) :
    engine.Reaches (Within R) F ⟨createRequest client data >>= k, env, []⟩ b := by
  simp only [createRequest, send_bind, call_bind, Program.bind_assoc, pure_eq, ret_bind]
  refine .answer (r := env.createdRequest client data) quiet (fun _ _ => rfl) ?_
  exact record_reaches rest

/-- The proposal `addProposal` inserts. -/
def Env.proposalOf (env : Env) (neg : Negotiation) (actor : User) (kind : ProposalKind)
    (amount : Amount) (currency : String) (message : Option String) : Proposal :=
  env.newProposal neg.id actor.id actor.role kind amount currency message

/-! ## §4. Offers. -/

/-- The row `makeOffer` inserts. -/
def Env.offered (env : Env) (supplier : User) (requestId : Id) : Negotiation :=
  env.newNegotiation requestId supplier.id .active

/-- The opening proposal of that negotiation. -/
def Env.opening (env : Env) (supplier : User) (requestId : Id) (data : OfferIn) : Proposal :=
  (env.pop .negotiations).proposalOf (env.offered supplier requestId) supplier .offer
    data.amount data.currency data.message

def offerWrites (env : Env) (supplier : User) (requestId : Id) (data : OfferIn) : List Write :=
  let neg := env.offered supplier requestId
  [.insertNegotiation neg, .insertProposal (env.opening supplier requestId data),
   .insertAudit (((env.pop .negotiations).pop .proposals).entry .offerCreated .negotiation
     (some neg.id) (some supplier.id) (.price data.amount data.currency))]

def Env.afterOffer (env : Env) : Env := ((env.pop .negotiations).pop .proposals).pop .auditLog

/-- **An offer** on an open request without a thread of the supplier's is staged: the
negotiation, its first proposal and the entry. -/
theorem makeOffer_reaches {req : ProductRequest} {supplier : User} {data : OfferIn}
    {k : Negotiation → Prog α} {env : Env} {b : At α}
    (hr : R (.request req.id)) (ht : R (.thread req.id supplier.id))
    (hF : ∀ db, F db → OfferReading req supplier.id false db) (ho : req.status = .opened)
    (rest : engine.Reaches (Within R) F
      ⟨k (env.offered supplier req.id), env.afterOffer, offerWrites env supplier req.id data⟩ b) :
    engine.Reaches (Within R) F ⟨makeOffer supplier req.id data >>= k, env, []⟩ b := by
  have hthread : ∀ db, F db → db.thread req.id supplier.id = none := by
    intro db hdb
    simpa using (hF db hdb).thread
  simp only [makeOffer, send_bind, call_bind]
  refine .answer (r := some req) (locking_request hr)
    (fun db hdb => congrArg Except.ok (hF db hdb).row) ?_
  -- the two guards pass: the request is open, and the thread is free
  simp only [ho, ne_eq, not_true_eq_false, if_false, call_bind]
  refine .answer (r := none) quiet (fun db hdb => congrArg Except.ok (hthread db hdb)) ?_
  simp only [addProposal, send_bind, call_bind, Program.bind_assoc, pure_eq, ret_bind]
  refine .answer (r := env.offered supplier req.id) (locking ht fun _ => Or.inr rfl)
    (fun db hdb => answer_insertNegotiation (hthread db hdb)) ?_
  refine .answer (r := env.opening supplier req.id data) quiet (fun _ _ => rfl) ?_
  exact record_reaches rest

/-- An offer that a guard refuses. -/
theorem makeOffer_fails {req : ProductRequest} {supplier : User} {data : OfferIn} {taken : Bool}
    {k : Negotiation → Prog α} {env : Env} (hr : R (.request req.id))
    (hF : ∀ db, F db → OfferReading req supplier.id taken db)
    (hno : ¬ (req.status = .opened ∧ taken = false)) :
    ∃ e, engine.Reaches (Within R) F (⟨makeOffer supplier req.id data >>= k, env, []⟩ : At α)
      ⟨.raise e, env, []⟩ := by
  simp only [makeOffer, send_bind, call_bind]
  by_cases ho : req.status = .opened
  · have ht : taken = true := by simpa [ho] using hno
    refine ⟨.conflict "You already have a negotiation on this request", ?_⟩
    refine .answer (r := some req) (locking_request hr)
      (fun db hdb => congrArg Except.ok (hF db hdb).row) ?_
    simp only [ho, ne_eq, not_true_eq_false, if_false, call_bind]
    -- which negotiation it is may change, that there is one does not
    refine .call quiet (fun db hdb => ?_) (.refl _)
    have hs := (hF db hdb).thread
    rw [ht, Option.isSome_iff_exists] at hs
    obtain ⟨m, hm⟩ := hs
    exact ⟨some m, congrArg Except.ok hm, rfl⟩
  · refine ⟨.conflict "Request is not open for offers", ?_⟩
    refine .answer (r := some req) (locking_request hr)
      (fun db hdb => congrArg Except.ok (hF db hdb).row) ?_
    simp only [ho, ne_eq, not_false_eq_true, if_true, raise_bind]
    exact .refl _

/-! ## §5. Decisions: the common guards. -/

/-- `loadActiveForResponse` behind the participant check. -/
def respondIfActive (user : User) (neg : Negotiation) : Prog Negotiation :=
  if neg.status ≠ .active then
    raise (.conflict ("Negotiation is already " ++ neg.status.value))
  else do
    let last ← lastProposal neg
    if last.actorId = user.id then
      raise (.conflict "Waiting for the counterparty to respond to your proposal")
    else return neg

section
variable {user : User} {neg : Negotiation} {client : Id} {ps : List Proposal} {last : Proposal}
  {env : Env} {b : At α}

/-- The last proposal that is looked up is the one of the chain. -/
theorem lastProposal_reaches (hF : ∀ db, F db → Reading neg client ps db)
    (hl : ps.argmax Proposal.id = some last) {k : Proposal → Prog α}
    (rest : engine.Reaches (Within R) F ⟨k last, env, []⟩ b) :
    engine.Reaches (Within R) F ⟨lastProposal neg >>= k, env, []⟩ b := by
  simp only [lastProposal, send_bind, call_bind]
  refine .read (r := some last) quiet rfl rfl (fun db hdb => ?_) rest
  exact congrArg Except.ok ((hF db hdb).lastProposal.trans hl)

/-- The locked read and the participant check.  The status of the request
may change under a decision, its owner does not. -/
theorem participant_reaches (hn : R (.negotiation neg.id)) (hF : ∀ db, F db → Reading neg client ps db)
    (hp : user.id = client ∨ user.id = neg.supplierId) {k : Negotiation → Prog α}
    (rest : engine.Reaches (Within R) F ⟨respondIfActive user neg >>= k, env, []⟩ b) :
    engine.Reaches (Within R) F ⟨loadActiveForResponse user neg.id >>= k, env, []⟩ b := by
  simp only [loadActiveForResponse, send_bind, call_bind]
  refine .read (r := some neg) (locking_negotiation hn) rfl rfl
    (fun db hdb => congrArg Except.ok (hF db hdb).row) ?_
  simp only [ensureParticipant, send_bind, call_bind]
  -- not `.read`: the row that answers is any row with this owner
  refine .call (p := respondIfActive user neg >>= k) quiet (fun db hdb => ?_) rest
  obtain ⟨req, hreq, hc⟩ := (hF db hdb).owner
  refine ⟨some req, congrArg Except.ok hreq, ?_⟩
  have hin : ¬ (user.id ≠ req.clientId ∧ user.id ≠ neg.supplierId) := by
    rw [hc]
    tauto
  simp only [if_neg hin, pure_eq, ret_bind, respondIfActive]

/-- **The guards of a decision** let a participant pass whose turn it is, and stage nothing.
-/
theorem load_reaches (hn : R (.negotiation neg.id)) (hF : ∀ db, F db → Reading neg client ps db)
    (h : MayRespond user neg client ps last) {k : Negotiation → Prog α}
    (rest : engine.Reaches (Within R) F ⟨k neg, env, []⟩ b) :
    engine.Reaches (Within R) F ⟨loadActiveForResponse user neg.id >>= k, env, []⟩ b := by
  refine participant_reaches hn hF h.participant ?_
  simp only [respondIfActive, h.active, ne_eq, not_true_eq_false, if_false, Program.bind_assoc]
  refine lastProposal_reaches hF h.isLast ?_
  simp only [if_neg h.counterparty, pure_eq, ret_bind]
  exact rest

/-- A decision that a guard refuses. -/
theorem load_fails (hn : R (.negotiation neg.id)) (hF : ∀ db, F db → Reading neg client ps db)
    (hno : ∀ last, ¬ MayRespond user neg client ps last) (k : Negotiation → Prog α) :
    ∃ e, engine.Reaches (Within R) F (⟨loadActiveForResponse user neg.id >>= k, env, []⟩ : At α)
      ⟨.raise e, env, []⟩ := by
  by_cases hp : user.id = client ∨ user.id = neg.supplierId
  · by_cases ha : neg.status = .active
    · have hthen : respondIfActive user neg >>= k
          = lastProposal neg >>= fun last =>
              (if last.actorId = user.id then
                raise (.conflict "Waiting for the counterparty to respond to your proposal")
              else pure neg) >>= k := by
        simp only [respondIfActive, ha, ne_eq, not_true_eq_false, if_false, Program.bind_assoc]
      cases hl : ps.argmax Proposal.id with
      | none =>
          -- no proposal at all
          refine ⟨.conflict "Negotiation has no proposals", participant_reaches hn hF hp ?_⟩
          rw [hthen]
          simp only [lastProposal, send_bind, call_bind]
          refine .read (r := none) quiet rfl rfl (fun db hdb => ?_) (.refl _)
          exact congrArg Except.ok ((hF db hdb).lastProposal.trans hl)
      | some last =>
          -- the caller made the last proposal
          have hturn : last.actorId = user.id := by
            by_contra hne
            exact hno last ⟨hp, ha, hl, hne⟩
          refine ⟨.conflict "Waiting for the counterparty to respond to your proposal",
            participant_reaches hn hF hp ?_⟩
          rw [hthen]
          refine lastProposal_reaches hF hl ?_
          simp only [if_pos hturn]
          exact .refl _
    -- decided already
    · refine ⟨.conflict ("Negotiation is already " ++ neg.status.value),
        participant_reaches hn hF hp ?_⟩
      simp only [respondIfActive, ha, ne_eq, not_false_eq_true, if_true]
      exact .refl _
  -- the participant check comes before the status is looked at
  · refine ⟨.permissionDenied "You are not a participant in this negotiation", ?_⟩
    simp only [loadActiveForResponse, send_bind, call_bind]
    refine .read (r := some neg) (locking_negotiation hn) rfl rfl
      (fun db hdb => congrArg Except.ok (hF db hdb).row) ?_
    simp only [ensureParticipant, send_bind, call_bind]
    refine .call quiet (fun db hdb => ?_) (.refl _)
    obtain ⟨req, hreq, hc⟩ := (hF db hdb).owner
    refine ⟨some req, congrArg Except.ok hreq, ?_⟩
    have hout : user.id ≠ req.clientId ∧ user.id ≠ neg.supplierId := by
      rw [hc]
      tauto
    simp only [if_pos hout]
    rfl

/-! ## §6. Reject and counter. -/

def rejectWrites (env : Env) (user : User) (neg : Negotiation) : List Write :=
  [.decide neg.id .rejected,
   .insertAudit (env.entry .negotiationRejected .negotiation (some neg.id) (some user.id) .empty)]

/-- **A rejection** behind its guards is staged with its entry. -/
theorem reject_reaches (hn : R (.negotiation neg.id)) (hF : ∀ db, F db → Reading neg client ps db)
    (h : MayRespond user neg client ps last) {k : Negotiation → Prog α}
    (rest : engine.Reaches (Within R) F
      ⟨k (Decision.rejected.on neg), env.pop .auditLog, rejectWrites env user neg⟩ b) :
    engine.Reaches (Within R) F ⟨reject user neg.id >>= k, env, []⟩ b := by
  simp only [reject, Program.bind_assoc]
  refine load_reaches hn hF h ?_
  simp only [send_bind, pure_eq, ret_bind]
  refine .answer (r := ()) (locking_decide hn) (fun _ _ => rfl) ?_
  exact record_reaches rest

/-- The counterproposal, in the currency of the proposal it answers. -/
def Env.countered (env : Env) (user : User) (neg : Negotiation) (last : Proposal)
    (data : CounterIn) : Proposal :=
  env.proposalOf neg user .counter data.amount last.currency data.message

def counterWrites (env : Env) (user : User) (neg : Negotiation) (last : Proposal)
    (data : CounterIn) : List Write :=
  [.insertProposal (env.countered user neg last data),
   .insertAudit ((env.pop .proposals).entry .negotiationCountered .negotiation (some neg.id)
     (some user.id) (.price data.amount last.currency))]

/-- `counter` behind its guards. -/
def counterProposing (user : User) (neg : Negotiation) (last : Proposal) (data : CounterIn) :
    Prog Negotiation := do
  let _ ← addProposal neg user .counter data.amount last.currency data.message
  record .negotiationCountered .negotiation (some neg.id) (some user.id)
    (.price data.amount last.currency)
  return neg

/-- From the start of `counter` to its INSERT. -/
theorem counter_reaches_insert (hn : R (.negotiation neg.id))
    (hF : ∀ db, F db → Reading neg client ps db)
    (h : MayRespond user neg client ps last) {data : CounterIn} {k : Negotiation → Prog α}
    (rest : engine.Reaches (Within R) F ⟨counterProposing user neg last data >>= k, env, []⟩ b) :
    engine.Reaches (Within R) F ⟨counter user neg.id data >>= k, env, []⟩ b := by
  simp only [counter, Program.bind_assoc]
  refine load_reaches hn hF h ?_
  refine lastProposal_reaches hF h.isLast ?_
  simp only [counterProposing, Program.bind_assoc] at rest
  exact rest

/-- **A counter** behind its guards is staged with its entry. -/
theorem counterProposing_reaches {data : CounterIn} {k : Negotiation → Prog α}
    (rest : engine.Reaches (Within R) F ⟨k neg, (env.pop .proposals).pop .auditLog,
      counterWrites env user neg last data⟩ b) :
    engine.Reaches (Within R) F ⟨counterProposing user neg last data >>= k, env, []⟩ b := by
  simp only [counterProposing, addProposal, send_bind, call_bind, Program.bind_assoc, pure_eq,
    ret_bind]
  refine .answer (r := env.countered user neg last data) quiet (fun _ _ => rfl) ?_
  exact record_reaches rest

/-! ## §7. Accept. -/

/-- `accept` behind its first flush and the SELECT of the siblings. -/
def acceptSuperseding (user : User) (neg : Negotiation) (last : Proposal) (req : ProductRequest)
    (siblings : List Negotiation) : Prog Negotiation := do
  query (.closeRequest req.id)
  supersedeEach neg.id siblings
  record .negotiationAccepted .negotiation (some neg.id) (some user.id) (.agreed last.amount)
  return (Decision.accepted last.amount).on neg

/-- `accept` behind its first flush and the locked read of the request. -/
def acceptLocked (user : User) (neg : Negotiation) (last : Proposal) :
    Option ProductRequest → Prog Negotiation
  | none => raise .server
  | some req => .call (.activeSiblings req.id neg.id) (acceptSuperseding user neg last req)

/-- An acceptance, statement by statement, up to the SELECT of its siblings. -/
theorem accept_eq (user : User) (negotiationId : Id) :
    accept user negotiationId
      = loadActiveForResponse user negotiationId >>= fun neg =>
          lastProposal neg >>= fun last =>
            .call (.decide neg.id (.accepted last.amount)) fun _ =>
              .call (.getRequestForUpdate neg.requestId) (acceptLocked user neg last) := by
  unfold accept
  congr 1
  funext neg
  congr 1
  funext last
  simp only [send_bind]
  congr 1
  funext _
  congr 1
  funext req
  cases req with
  | none => rfl
  | some req =>
      simp only [acceptLocked, supersedeSiblings, send_bind, call_bind]
      rfl

/-- From the start of `accept` to the locked read of the request. -/
theorem accept_reaches_lock (hn : R (.negotiation neg.id)) (hF : ∀ db, F db → Reading neg client ps db)
    (h : MayRespond user neg client ps last) {k : Negotiation → Prog α}
    (rest : engine.Reaches (Within R) F
      ⟨.call (.getRequestForUpdate neg.requestId) fun r => acceptLocked user neg last r >>= k,
        env, [.decide neg.id (.accepted last.amount)]⟩ b) :
    engine.Reaches (Within R) F ⟨accept user neg.id >>= k, env, []⟩ b := by
  simp only [accept_eq, Program.bind_assoc]
  refine load_reaches hn hF h ?_
  refine lastProposal_reaches hF h.isLast ?_
  simp only [call_bind]
  exact .answer (r := ()) (locking_decide hn) (fun _ _ => rfl) rest

/-- The entries and UPDATEs of the superseding loop. -/
def supersedeWrites (winnerId : Id) : Env → List Negotiation → List Write
  | _, [] => []
  | env, sib :: siblings =>
      .decide sib.id .rejected ::
        .insertAudit (env.entry .negotiationSuperseded .negotiation (some sib.id) none
          (.winner winnerId)) ::
        supersedeWrites winnerId (env.pop .auditLog) siblings

/-- The environment behind that loop: one audit stamp for each sibling. -/
def Env.afterSupersede : Env → List Negotiation → Env
  | env, [] => env
  | env, _ :: siblings => (env.pop .auditLog).afterSupersede siblings

/-- The loop keeps the id of its request. -/
theorem Env.afterSupersede_requestId (env : Env) (siblings : List Negotiation) :
    (env.afterSupersede siblings).requestId = env.requestId := by
  induction siblings generalizing env with
  | nil => rfl
  | cons sib siblings ih => exact ih (env.pop .auditLog)

/-- **The superseding loop** stages an UPDATE and an entry for each sibling, in their order.
-/
theorem supersedeEach_reaches {winnerId : Id} {k : Unit → Prog α} :
    ∀ {siblings : List Negotiation} {env : Env} {ws : List Write},
      (∀ s ∈ siblings, R (.negotiation s.id)) →
      engine.Reaches (Within R) F ⟨k (), env.afterSupersede siblings,
        ws ++ supersedeWrites winnerId env siblings⟩ b →
      engine.Reaches (Within R) F ⟨supersedeEach winnerId siblings >>= k, env, ws⟩ b := by
  intro siblings
  induction siblings with
  | nil =>
      intro env ws _ rest
      rwa [supersedeWrites, List.append_nil] at rest
  | cons sib siblings ih =>
      intro env ws hs rest
      simp only [supersedeEach, send_bind, call_bind, Program.bind_assoc]
      refine .answer (r := ()) (locking_decide (hs sib (List.mem_cons_self ..)))
        (fun _ _ => rfl) ?_
      refine record_reaches (ih (fun s h => hs s (List.mem_cons_of_mem _ h)) ?_)
      -- the two writes of this round stand before those of the rest
      show engine.Reaches (Within R) F ⟨k (), (env.pop .auditLog).afterSupersede siblings,
        ws ++ [.decide sib.id .rejected] ++ [.insertAudit _]
          ++ supersedeWrites winnerId (env.pop .auditLog) siblings⟩ b
      rw [List.append_assoc, List.append_assoc]
      exact rest

/-- What `accept` stages behind the SELECT of the siblings. -/
def supersedingWrites (env : Env) (user : User) (neg : Negotiation) (last : Proposal)
    (req : ProductRequest) (siblings : List Negotiation) : List Write :=
  .closeRequest req.id :: (supersedeWrites neg.id env siblings ++
    [.insertAudit ((env.afterSupersede siblings).entry .negotiationAccepted .negotiation
      (some neg.id) (some user.id) (.agreed last.amount))])

def acceptWrites (env : Env) (user : User) (neg : Negotiation) (last : Proposal)
    (req : ProductRequest) (siblings : List Negotiation) : List Write :=
  .decide neg.id (.accepted last.amount) :: supersedingWrites env user neg last req siblings

/-- Behind the siblings an acceptance closes its request and stages its entry. -/
theorem acceptSuperseding_reaches {req : ProductRequest} {siblings : List Negotiation}
    {k : Negotiation → Prog α} {ws : List Write} (hr : R (.request req.id))
    (hs : ∀ s ∈ siblings, R (.negotiation s.id))
    (rest : engine.Reaches (Within R) F ⟨k ((Decision.accepted last.amount).on neg),
      (env.afterSupersede siblings).pop .auditLog,
      ws ++ supersedingWrites env user neg last req siblings⟩ b) :
    engine.Reaches (Within R) F ⟨acceptSuperseding user neg last req siblings >>= k, env, ws⟩ b := by
  simp only [acceptSuperseding, send_bind, call_bind, Program.bind_assoc, pure_eq, ret_bind]
  refine .answer (r := ()) (locking hr fun _ => Or.inr rfl) (fun _ _ => rfl) ?_
  refine supersedeEach_reaches hs (record_reaches ?_)
  show engine.Reaches (Within R) F ⟨_, _, ws ++ [.closeRequest req.id]
    ++ supersedeWrites neg.id env siblings ++ [.insertAudit _]⟩ b
  rw [List.append_assoc, List.append_assoc]
  exact rest

end

end Procurement
