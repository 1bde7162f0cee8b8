/-
  Procurement.Runs.Ledger
  ───────────────────────
  **THE AUDIT TRAIL IS COMPLETE AND FAITHFUL.**

  `Ledger` is what an auditor knows: the status of every request, and of every
  negotiation its status, its agreed amount and its prices.  `Ledger.post` books
  one entry of the audit log; from the tables it takes one immutable column,
  the request of a negotiation.  `Db.ledger` reads the same from the tables.

  Rows and entries are written by separate code.  That both tell the same is
  shown operation by operation (`Produces.logs`): the new entries record, in the
  sense of `Framework.Journal`, the way from the old tables to the new ones.
-/
import Mathlib.Logic.Function.Basic
import Procurement.Framework.Journal
import Procurement.Runs.Acceptance

namespace Procurement

open Procurement.Framework

/-! ## §1. The ledger. -/

/-- A price in a negotiation. -/
structure Line where
  actorId : Option Id
  kind : ProposalKind
  amount : Amount
  currency : String
  deriving DecidableEq, Repr

/-- What is known of a negotiation. -/
structure Account where
  status : NegotiationStatus
  agreedAmount : Option Amount
  chain : List Line
  deriving DecidableEq, Repr

@[ext] structure Ledger where
  requests : Id → Option RequestStatus
  negotiations : Id → Option Account

/-- A negotiation is heard of for the first time with its first price. -/
def Account.propose (line : Line) : Option Account → Account
  | none => { status := .active, agreedAmount := none, chain := [line] }
  | some a => { a with chain := a.chain ++ [line] }

def Account.accept (amount : Amount) (a : Account) : Account :=
  { a with status := .accepted, agreedAmount := some amount }

def Account.reject (a : Account) : Account := { a with status := .rejected }

namespace Ledger

def empty : Ledger := ⟨fun _ => none, fun _ => none⟩

/-- `request.created` -/
def openRequest (l : Ledger) (i : Id) : Ledger :=
  { l with requests := Function.update l.requests i (some .opened) }

def closeRequest (l : Ledger) (i : Id) : Ledger :=
  { l with requests := Function.update l.requests i ((l.requests i).map fun _ => .closed) }

def propose (l : Ledger) (i : Id) (line : Line) : Ledger :=
  { l with negotiations :=
      Function.update l.negotiations i (some (Account.propose line (l.negotiations i))) }

def decide (l : Ledger) (i : Id) (f : Account → Account) : Ledger :=
  { l with negotiations := Function.update l.negotiations i ((l.negotiations i).map f) }

/-- Several rejections at once. -/
def rejectAll (l : Ledger) (ids : List Id) : Ledger :=
  { l with negotiations := fun i =>
      if i ∈ ids then (l.negotiations i).map Account.reject else l.negotiations i }

/-- Book one entry; `requestOf` is the request of a negotiation. -/
def post (requestOf : Id → Option Id) (l : Ledger) (e : AuditLog) : Ledger :=
  match e.action, e.entityId, e.details with
  | .requestCreated, some i, _ => l.openRequest i
  | .offerCreated, some i, .price amount currency =>
      l.propose i { actorId := e.actorId, kind := .offer, amount, currency }
  | .negotiationCountered, some i, .price amount currency =>
      l.propose i { actorId := e.actorId, kind := .counter, amount, currency }
  | .negotiationAccepted, some i, .agreed amount =>
      let l := l.decide i (Account.accept amount)
      match requestOf i with
      | some r => l.closeRequest r
      | none => l
  | .negotiationRejected, some i, _ => l.decide i Account.reject
  | .negotiationSuperseded, some i, _ => l.decide i Account.reject
  | _, _, _ => l

end Ledger

/-- The entries of registrations say nothing about requests. -/
def Silent (e : AuditLog) : Prop := e.action = .userRegistered

def Proposal.line (p : Proposal) : Line :=
  { actorId := some p.actorId, kind := p.kind, amount := p.amount, currency := p.currency }

def Negotiation.account (n : Negotiation) (ps : List Proposal) : Account :=
  { status := n.status, agreedAmount := n.agreedAmount, chain := ps.map Proposal.line }

namespace Db

/-- The audit log, `ORDER BY id`. -/
def trail (db : Db) : List AuditLog := db.auditLog.insertionSort fun a b => a.id ≤ b.id

/-- The immutable column `request_id`. -/
def requestOf (db : Db) (i : Id) : Option Id := (db.negotiation i).map Negotiation.requestId

/-- The ledger after the entries `es`. -/
def folded (db : Db) (es : List AuditLog) : Ledger :=
  es.foldl (Ledger.post db.requestOf) Ledger.empty

/-- The ledger, read from the tables. -/
def ledger (db : Db) : Ledger where
  requests i := (db.request i).map ProductRequest.status
  negotiations i := (db.negotiation i).map fun n => n.account (db.proposalsOf i)

end Db

/-! ## §2. One operation. -/

/-- `requestOf` knows the request of every negotiation. -/
def Knows (requestOf : Id → Option Id) (db : Db) : Prop :=
  ∀ n ∈ db.negotiations, requestOf n.id = some n.requestId

/-- The step from `db` to `db'` appends entries that record it, with the ids
that `env` hands out one after the other. -/
structure Logs (env : Env) (db db' : Db) : Prop where
  entries : ∃ es, db'.auditLog = db.auditLog ++ es
    ∧ (es.map AuditLog.id = (List.range es.length).map fun k => (env.supply .auditLog k).id)
    ∧ (∀ ro, Knows ro db → Knows ro db' →
        Records (Ledger.post ro) Silent db.ledger es db'.ledger)
    ∧ ∀ e ∈ es, e.action = .negotiationSuperseded → ∃ n ∈ db'.negotiations,
        ∃ w ∈ db'.negotiations, e.entityId = some n.id ∧ n.status = .rejected
          ∧ e.details = .winner w.id ∧ w.status = .accepted ∧ w.requestId = n.requestId

/-- One entry, which is no supersession. -/
theorem Logs.single {env : Env} {db db' : Db} {e : AuditLog}
    (hlog : db'.auditLog = db.auditLog ++ [e]) (hid : e.id = (env.stamp .auditLog).id)
    (he : e.action ≠ .negotiationSuperseded)
    (hrec : ∀ ro, Knows ro db → Knows ro db' →
      Records (Ledger.post ro) Silent db.ledger [e] db'.ledger) : Logs env db db' := by
  refine ⟨[e], hlog, ?_, hrec, ?_⟩
  · show [e.id] = [(env.supply .auditLog 0).id]
    rw [hid]
    rfl
  · intro e' he' hact
    obtain rfl := List.mem_singleton.mp he'
    exact absurd hact he

section
variable {db : Db} {env : Env} {user : User} {neg : Negotiation} {client : Id}
  {ps : List Proposal} {last : Proposal}

/-- An id that no row has. -/
theorem request_none (h : (env.stamp .requests).id ∉ db.ids .requests) :
    db.request (env.stamp .requests).id = none := by
  unfold Db.request
  rw [lookup_eq_none]
  exact fun r hr hid => h (List.mem_map.mpr ⟨r, hr, hid⟩)

theorem negotiation_none (h : (env.stamp .negotiations).id ∉ db.ids .negotiations) :
    db.negotiation (env.stamp .negotiations).id = none := by
  unfold Db.negotiation
  rw [lookup_eq_none]
  exact fun n hn hid => h (List.mem_map.mpr ⟨n, hn, hid⟩)

theorem createWrites_logs {data : ProductRequestIn}
    (hfresh : (env.stamp .requests).id ∉ db.ids .requests) :
    Logs env db (engine.view (createWrites env user data) db) := by
  have hnone := request_none hfresh
  have hreq : ∀ i, (engine.view (createWrites env user data) db).request i
      = if i = (env.stamp .requests).id then some (env.createdRequest user data)
        else db.request i := by
    have hrow : lookup ProductRequest.id db.requests (env.createdRequest user data).id = none := hnone
    exact fun i => lookup_concat hrow i
  refine .single rfl rfl (by simp [Env.entry, Env.newAudit]) fun ro _ _ => .single ?_ ?_
  · ext1
    · funext i
      show Function.update (fun i => (db.request i).map _) (env.stamp .requests).id _ i
        = ((engine.view (createWrites env user data) db).request i).map _
      rw [hreq, Function.update_apply]
      split <;> rfl
    · rfl
  -- the request was not there before
  · intro heq
    have hnew : (engine.view (createWrites env user data) db).ledger.requests
        (env.stamp .requests).id = some .opened := by
      show Option.map _ _ = _
      rw [hreq, if_pos rfl]
      rfl
    rw [heq] at hnew
    change (db.request (env.stamp .requests).id).map _ = _ at hnew
    rw [hnone] at hnew
    exact absurd hnew (by simp)

theorem offerWrites_logs (h : Consistent db) {i : Id} {data : OfferIn}
    (hfresh : (env.stamp .negotiations).id ∉ db.ids .negotiations) :
    Logs env db (engine.view (offerWrites env user i data) db) := by
  have hnone := negotiation_none hfresh
  generalize hdb' : engine.view (offerWrites env user i data) db = db'
  have hneg : ∀ j, db'.negotiation j = if j = (env.stamp .negotiations).id
      then some (env.offered user i) else db.negotiation j := by
    have hrow : lookup Negotiation.id db.negotiations (env.offered user i).id = none := hnone
    intro j
    rw [← hdb']
    exact lookup_concat hrow j
  have hprops : ∀ j, db'.proposalsOf j = db.proposalsOf j
      ++ if (env.stamp .negotiations).id = j then [env.opening user i data] else [] := by
    intro j
    rw [← hdb']
    exact Outline.WellFormed.proposalsOf_append db.outline _ j
  refine .single (by rw [← hdb']; rfl) rfl (by simp [Env.entry, Env.newAudit])
    fun ro _ _ => .single ?_ ?_
  · ext1
    · rw [← hdb']
      rfl
    · funext j
      show Function.update (fun j => (db.negotiation j).map fun n => n.account (db.proposalsOf j))
          (env.stamp .negotiations).id
          (some (Account.propose _ ((db.negotiation (env.stamp .negotiations).id).map _))) j
        = (db'.negotiation j).map fun n => n.account (db'.proposalsOf j)
      rw [hneg, hprops, hnone, Function.update_apply]
      by_cases hj : j = (env.stamp .negotiations).id
      · -- the new negotiation has no proposal but its opening
        rw [if_pos hj, if_pos hj, if_pos hj.symm, hj, h.proposalsOf_new hfresh]
        rfl
      · rw [if_neg hj, if_neg hj, if_neg (Ne.symm hj), List.append_nil]
  · intro heq
    have hnew : db'.ledger.negotiations (env.stamp .negotiations).id ≠ none := by
      show Option.map _ _ ≠ none
      rw [hneg, if_pos rfl]
      simp
    rw [heq] at hnew
    change (db.negotiation (env.stamp .negotiations).id).map _ ≠ none at hnew
    rw [hnone] at hnew
    exact hnew rfl

theorem counterWrites_logs {data : CounterIn} (hread : Reading neg client ps db) :
    Logs env db (engine.view (counterWrites env user neg last data) db) := by
  have hrow := hread.row
  generalize hdb' : engine.view (counterWrites env user neg last data) db = db'
  have hneg : ∀ j, db'.negotiation j = db.negotiation j := by
    intro j
    rw [← hdb']
    rfl
  have hprops : ∀ j, db'.proposalsOf j = db.proposalsOf j
      ++ if neg.id = j then [env.countered user neg last data] else [] := by
    intro j
    rw [← hdb']
    exact Outline.WellFormed.proposalsOf_append db.outline _ j
  refine .single (by rw [← hdb']; rfl) rfl (by simp [Env.entry, Env.newAudit])
    fun ro _ _ => .single ?_ ?_
  · ext1
    · rw [← hdb']
      rfl
    · funext j
      show Function.update (fun j => (db.negotiation j).map fun n => n.account (db.proposalsOf j))
          neg.id (some (Account.propose _ ((db.negotiation neg.id).map _))) j
        = (db'.negotiation j).map fun n => n.account (db'.proposalsOf j)
      rw [hneg, hprops, hrow, Function.update_apply]
      by_cases hj : j = neg.id
      · rw [if_pos hj, if_pos hj.symm, hj, hrow]
        show some (Account.propose _ (some _)) = some (neg.account _)
        unfold Negotiation.account
        rw [List.map_append]
        rfl
      · rw [if_neg hj, if_neg (Ne.symm hj), List.append_nil]
  -- the chain is longer by one
  · intro heq
    have hlen := congrArg (fun l : Ledger => (l.negotiations neg.id).map fun a => a.chain.length) heq
    change ((db'.negotiation neg.id).map fun n => n.account (db'.proposalsOf neg.id)).map _
      = ((db.negotiation neg.id).map fun n => n.account (db.proposalsOf neg.id)).map _ at hlen
    rw [hneg, hprops, hrow, if_pos rfl] at hlen
    simp [Negotiation.account] at hlen

/-- A ledger with another status for an account is another ledger. -/
theorem Ledger.ne_of_decided {l l' : Ledger} {i : Id} {f : Account → Account} {a : Account}
    (hl : l'.negotiations = (l.decide i f).negotiations) (ha : l.negotiations i = some a)
    (hne : (f a).status ≠ a.status) : l' ≠ l := by
  rintro rfl
  have hfa := congrFun hl i
  change _ = Function.update l'.negotiations i _ i at hfa
  rw [Function.update_self, ha] at hfa
  exact hne (congrArg Account.status (Option.some.inj hfa)).symm

/-- A row, as an account. -/
theorem ledger_row {n : Negotiation} {i : Id} (h : db.negotiation i = some n) :
    db.ledger.negotiations i = some (n.account (db.proposalsOf i)) := by
  show (db.negotiation i).map _ = _
  rw [h]
  rfl

/-- A rejected row, in the ledger. -/
theorem rejectWrites_logs (hread : Reading neg client ps db) (ha : neg.status = .active) :
    Logs env db (engine.view (rejectWrites env user neg) db) := by
  have hrow := hread.row
  have hneg : ∀ j, (engine.view (rejectWrites env user neg) db).negotiation j
      = if j = neg.id then (db.negotiation j).map Decision.rejected.on else db.negotiation j :=
    fun j => lookup_update _ (Decision.on_id _)
  have hbooked : db.ledger.decide neg.id Account.reject
      = (engine.view (rejectWrites env user neg) db).ledger := by
    ext1
    · rfl
    · funext j
      show Function.update (fun j => (db.negotiation j).map fun n => n.account (db.proposalsOf j))
          neg.id (((db.negotiation neg.id).map _).map Account.reject) j
        = ((engine.view (rejectWrites env user neg) db).negotiation j).map
            fun n => n.account (db.proposalsOf j)
      rw [hneg, Function.update_apply]
      by_cases hj : j = neg.id
      · rw [if_pos hj, if_pos hj, hj, hrow]
        rfl
      · rw [if_neg hj, if_neg hj]
  refine .single rfl rfl (by simp [Env.entry, Env.newAudit]) fun ro _ _ => .single hbooked ?_
  refine Ledger.ne_of_decided (f := Account.reject) (hbooked ▸ rfl) (ledger_row hrow) ?_
  show NegotiationStatus.rejected ≠ neg.status
  rw [ha]
  simp

/-! ## §3. Acceptances. -/

theorem Ledger.decide_rejectAll {l : Ledger} {i : Id} {ids : List Id} (h : i ∉ ids) :
    (l.decide i Account.reject).rejectAll ids = l.rejectAll (i :: ids) := by
  ext1
  · rfl
  · funext j
    show (if j ∈ ids then (Function.update l.negotiations i _ j).map _
      else Function.update l.negotiations i _ j) = if j ∈ i :: ids then _ else _
    by_cases hj : j = i
    · rw [hj, if_neg h, if_pos (List.mem_cons_self ..), Function.update_self]
    · rw [Function.update_of_ne hj]
      simp [hj]

/-- The entries of the superseding loop book the rejection of each sibling, and
none twice. -/
theorem supersedeEntries_records (ro : Id → Option Id) (w : Id) (siblings : List Negotiation) :
    ∀ (env : Env) (l : Ledger), (siblings.map Negotiation.id).Nodup →
      (∀ s ∈ siblings, ∃ a, l.negotiations s.id = some a ∧ a.status = .active) →
      Records (Ledger.post ro) Silent l (supersedeEntries w env siblings)
        (l.rejectAll (siblings.map Negotiation.id)) := by
  induction siblings with
  | nil =>
      intro env l _ _
      show l = l.rejectAll []
      ext1
      · rfl
      · funext i
        simp [Ledger.rejectAll]
  | cons sib siblings ih =>
      intro env l hnodup hactive
      obtain ⟨hnot, hnodup⟩ := List.nodup_cons.mp (List.map_cons ▸ hnodup)
      obtain ⟨a, ha, has⟩ := hactive sib (List.mem_cons_self ..)
      -- the first entry, and then the rest on the ledger behind it
      refine ⟨fun _ => Ledger.ne_of_decided (f := Account.reject) rfl ha ?_, ?_⟩
      · rw [has]
        simp [Account.reject]
      · rw [List.map_cons, ← Ledger.decide_rejectAll hnot]
        refine ih (env.pop .auditLog) (l.decide sib.id Account.reject) hnodup ?_
        intro s hs
        have hne : s.id ≠ sib.id := fun he => hnot (he ▸ List.mem_map_of_mem hs)
        show ∃ a, Function.update l.negotiations sib.id _ s.id = some a ∧ _
        rw [Function.update_of_ne hne]
        exact hactive s (List.mem_cons_of_mem _ hs)

/-- Their ids, and the one behind them. -/
theorem supersedeEntries_ids (w : Id) (siblings : List Negotiation) :
    ∀ env : Env, (supersedeEntries w env siblings).map AuditLog.id
        = (List.range siblings.length).map (fun k => (env.supply .auditLog k).id)
      ∧ ((env.afterSupersede siblings).stamp .auditLog).id
        = (env.supply .auditLog siblings.length).id := by
  induction siblings with
  | nil => exact fun _ => ⟨rfl, rfl⟩
  | cons sib siblings ih =>
      intro env
      obtain ⟨hids, hnext⟩ := ih (env.pop .auditLog)
      refine ⟨?_, hnext⟩
      show (env.stamp .auditLog).id :: (supersedeEntries w (env.pop .auditLog) siblings).map _ = _
      rw [hids, List.length_cons, List.range_succ_eq_map, List.map_cons, List.map_map]
      rfl

theorem mem_supersedeEntries (w : Id) (siblings : List Negotiation) :
    ∀ (env : Env), ∀ e ∈ supersedeEntries w env siblings,
      ∃ s ∈ siblings, e.entityId = some s.id ∧ e.details = .winner w := by
  induction siblings with
  | nil =>
      intro env e he
      exact absurd he List.not_mem_nil
  | cons sib siblings ih =>
      intro env e he
      rcases List.mem_cons.mp he with rfl | he
      · exact ⟨sib, List.mem_cons_self .., rfl, rfl⟩
      · obtain ⟨s, hs, hfacts⟩ := ih (env.pop .auditLog) e he
        exact ⟨s, List.mem_cons_of_mem _ hs, hfacts⟩

/-- The tables behind an acceptance, as a ledger. -/
theorem ledger_accept {db' : Db} {req : ProductRequest} {amount : Amount} {losers : List Id}
    (hrow : db.negotiation neg.id = some neg) (hw : neg.id ∉ losers)
    (hreqs : db'.requests = update ProductRequest.id db.requests req.id
      fun r => { r with status := .closed })
    (hnegs : db'.negotiations = db.negotiations.map (decided neg.id amount losers))
    (hprops : db'.proposals = db.proposals) :
    db'.ledger = ((db.ledger.rejectAll losers).decide neg.id (Account.accept amount)).closeRequest
      req.id := by
  -- what each table has at an id, and then the two halves of the ledger, pointwise
  have hrequest : ∀ i, db'.request i = if i = req.id
      then (db.request i).map fun r => { r with status := .closed } else db.request i := by
    intro i
    show lookup ProductRequest.id db'.requests i = _
    rw [hreqs]
    exact lookup_update (fun r : ProductRequest => { r with status := .closed }) fun _ => rfl
  have hneg : ∀ i, db'.negotiation i = (db.negotiation i).map (decided neg.id amount losers) := by
    intro i
    show lookup Negotiation.id db'.negotiations i = _
    rw [hnegs]
    exact lookup_map _ (decided_id _ _ _)
  have hchain : ∀ i, db'.proposalsOf i = db.proposalsOf i := by
    intro i
    unfold Db.proposalsOf
    rw [hprops]
  ext1
  · funext i
    show (db'.request i).map _ = Function.update (fun i => (db.request i).map _) req.id
      (((db.request req.id).map _).map _) i
    rw [hrequest, Function.update_apply]
    by_cases hi : i = req.id
    · rw [if_pos hi, if_pos hi, hi, Option.map_map, Option.map_map]
      rfl
    · rw [if_neg hi, if_neg hi]
  · funext i
    show (db'.negotiation i).map _ = Function.update (db.ledger.rejectAll losers).negotiations neg.id
      (((db.ledger.rejectAll losers).negotiations neg.id).map (Account.accept amount)) i
    have hbefore : ∀ j, (db.ledger.rejectAll losers).negotiations j
        = if j ∈ losers
          then ((db.negotiation j).map fun n => n.account (db.proposalsOf j)).map Account.reject
          else (db.negotiation j).map fun n => n.account (db.proposalsOf j) := fun _ => rfl
    rw [hneg, hchain, Function.update_apply, hbefore, hbefore]
    by_cases hi : i = neg.id
    · -- the winner
      rw [if_pos hi, if_neg hw, hi, hrow]
      show some ((decided _ _ _ neg).account _) = _
      unfold decided
      rw [if_pos rfl]
      rfl
    · rw [if_neg hi]
      cases hn : db.negotiation i with
      | none => exact (ite_self _).symm
      | some n =>
          have hid : n.id = i := lookup_key hn
          show some ((decided _ _ _ n).account _) = _
          unfold decided
          rw [hid, if_neg hi]
          -- a sibling is rejected, any other negotiation is as it was
          by_cases hl : i ∈ losers
          · rw [if_pos hl, if_pos hl]
            rfl
          · rw [if_neg hl, if_neg hl]
            rfl

/-- The entry of the agreement books it and closes the request. -/
theorem agreedEntry_records {ro : Id → Option Id} {l : Ledger} {i r : Id} {a : Account}
    {amount : Amount} {e : AuditLog} (hro : ro i = some r) (hl : l.negotiations i = some a)
    (ha : a.status = .active) (haction : e.action = .negotiationAccepted)
    (hentity : e.entityId = some i) (hdetails : e.details = .agreed amount) :
    Records (Ledger.post ro) Silent l [e] ((l.decide i (Account.accept amount)).closeRequest r) := by
  refine .single ?_ (Ledger.ne_of_decided (f := Account.accept amount) rfl hl ?_)
  · unfold Ledger.post
    simp only [haction, hentity, hdetails, hro]
  · rw [ha]
    simp [Account.accept]

/-- **An acceptance records itself**: the rejections of the siblings, and then
the agreement, which closes the request. -/
theorem acceptWrites_logs (h : Consistent db) {req : ProductRequest}
    (hread : Reading neg client ps db) (hm : MayRespond user neg client ps last)
    (hreq : db.request neg.requestId = some req) :
    Logs env db (engine.view (acceptWrites env user neg last req
      (env.order (db.activeSiblings req.id neg.id))) db) := by
  have hneg : neg ∈ db.negotiations := lookup_mem hread.row
  have hrow := hread.row
  have hrid : req.id = neg.requestId := lookup_key hreq
  have hmem : ∀ s, s ∈ env.order (db.activeSiblings req.id neg.id) ↔
      s ∈ db.negotiations ∧ s.requestId = req.id ∧ s.status = .active ∧ s.id ≠ neg.id := by
    intro s
    rw [(env.order_perm _).mem_iff, mem_activeSiblings]
  have hnodup : ((env.order (db.activeSiblings req.id neg.id)).map Negotiation.id).Nodup := by
    refine ((env.order_perm _).map Negotiation.id).nodup_iff.mpr ?_
    exact h.negotiationIds.sublist (List.Sublist.map _ List.filter_sublist)
  have hwinner : neg.id ∉ (env.order (db.activeSiblings req.id neg.id)).map Negotiation.id :=
    winner_not_sibling
  generalize hdb' : engine.view (acceptWrites env user neg last req
    (env.order (db.activeSiblings req.id neg.id))) db = db'
  rw [view_accept _ _ _ _ _ _ _ hwinner] at hdb'
  generalize env.order (db.activeSiblings req.id neg.id) = siblings at hmem hnodup hwinner hdb'
  have hreqs : db'.requests = update ProductRequest.id db.requests req.id
      fun r => { r with status := .closed } := by rw [← hdb']
  have hnegs : db'.negotiations = db.negotiations.map
      (decided neg.id last.amount (siblings.map Negotiation.id)) := by rw [← hdb']
  have hprops : db'.proposals = db.proposals := by rw [← hdb']
  obtain ⟨hids, hnext⟩ := supersedeEntries_ids neg.id siblings env
  refine ⟨supersedeEntries neg.id env siblings
    ++ [(env.afterSupersede siblings).entry .negotiationAccepted .negotiation (some neg.id)
      (some user.id) (.agreed last.amount)], ?_, ?_, ?_, ?_⟩
  · rw [← hdb', ← List.append_assoc]
  · have hlen : (supersedeEntries neg.id env siblings).length = siblings.length := by
      simpa using congrArg List.length hids
    rw [List.map_append, hids, List.length_append, hlen, List.length_singleton, List.range_succ,
      List.map_append]
    exact congrArg (fun i => _ ++ [i]) hnext
  · intro ro hknows _
    rw [ledger_accept hrow hwinner hreqs hnegs hprops]
    have hactive : ∀ s ∈ siblings, ∃ a, db.ledger.negotiations s.id = some a
        ∧ a.status = .active := by
      intro s hs
      obtain ⟨hs, _, ha, _⟩ := (hmem s).mp hs
      exact ⟨_, ledger_row (h.negotiation_of_mem hs), ha⟩
    refine (supersedeEntries_records ro neg.id siblings env db.ledger hnodup hactive).append ?_
    -- the winner is no sibling, so the entry of the agreement finds it active
    have hstill : (db.ledger.rejectAll (siblings.map Negotiation.id)).negotiations neg.id
        = some (neg.account (db.proposalsOf neg.id)) := by
      show (if neg.id ∈ siblings.map Negotiation.id then _ else db.ledger.negotiations neg.id) = _
      rw [if_neg hwinner, ledger_row hrow]
    exact agreedEntry_records (hrid ▸ hknows neg hneg) hstill hm.active rfl rfl rfl
  · intro e he hact
    rcases List.mem_append.mp he with he | he
    · obtain ⟨s, hs, hentity, hdetails⟩ := mem_supersedeEntries _ _ _ e he
      obtain ⟨hsn, hsr, _, hsne⟩ := (hmem s).mp hs
      have hlost : decided neg.id last.amount (siblings.map Negotiation.id) s
          = Decision.rejected.on s := by
        unfold decided
        rw [if_neg hsne, if_pos (List.mem_map_of_mem hs)]
      have hwon : decided neg.id last.amount (siblings.map Negotiation.id) neg
          = (Decision.accepted last.amount).on neg := if_pos rfl
      rw [hnegs]
      exact ⟨_, List.mem_map.mpr ⟨s, hsn, hlost⟩, _, List.mem_map.mpr ⟨neg, hneg, hwon⟩, hentity,
        rfl, hdetails, rfl, hrid.symm.trans hsr.symm⟩
    · obtain rfl := List.mem_singleton.mp he
      exact absurd hact (by simp [Env.entry, Env.newAudit])

end

/-! ## §4. Runs. -/

/-- **Every operation records itself.** -/
theorem Produces.logs {db : Db} {user : User} {env : Env} {op : Op} {o : Produced}
    (h : Produces db user env op o) (hc : Consistent db) (hf : Fresh env db) :
    Logs env db (engine.view o.writes db) := by
  cases h with
  | createRequest data => exact createWrites_logs (hf.unused .requests 0)
  | makeOffer data hread ho => exact offerWrites_logs hc (hf.unused .negotiations 0)
  | accept hread hm hreq => exact acceptWrites_logs hc hread hm hreq
  | reject hread hm => exact rejectWrites_logs hread hm.active
  | counter data hread hm => exact counterWrites_logs hread

theorem registerWrites_logs (env : Env) (data : RegisterIn) (db : Db) :
    Logs env db (engine.view (registerWrites env data) db) :=
  .single rfl rfl (by simp [Env.entry, Env.newAudit]) fun _ _ _ => .quiet rfl rfl

/-- What the audit log of a run is. -/
structure Booked (db : Db) : Prop where
  increasing : db.auditLog.Pairwise fun a b => a.id < b.id
  recorded : ∀ ro, Knows ro db →
    Records (Ledger.post ro) Silent Ledger.empty db.auditLog db.ledger
  superseded : ∀ e ∈ db.auditLog, e.action = .negotiationSuperseded → ∃ n ∈ db.negotiations,
    ∃ w ∈ db.negotiations, e.entityId = some n.id ∧ n.status = .rejected
      ∧ e.details = .winner w.id ∧ w.status = .accepted ∧ w.requestId = n.requestId

theorem Booked.empty : Booked Db.empty where
  increasing := List.Pairwise.nil
  recorded := fun _ _ => rfl
  superseded := fun _ he => absurd he List.not_mem_nil

/-- A step that logs what it does. -/
theorem Booked.step {db db' : Db} {env : Env} (h : Booked db) (hf : Fresh env db)
    (hlogs : Logs env db db') (hext : Extends db db')
    (hkeep : ∀ n ∈ db.negotiations, ∃ m ∈ db'.negotiations, m.thread = n.thread) :
    Booked db' := by
  obtain ⟨es, hlog, hids, hrec, hsup⟩ := hlogs.entries
  have hnew : ∀ e ∈ es, ∃ k, e.id = (env.supply .auditLog k).id := by
    intro e he
    have hmem : e.id ∈ es.map AuditLog.id := List.mem_map_of_mem he
    rw [hids] at hmem
    obtain ⟨k, _, hk⟩ := List.mem_map.mp hmem
    exact ⟨k, hk.symm⟩
  refine ⟨?_, ?_, ?_⟩
  · rw [hlog, List.pairwise_append]
    refine ⟨h.increasing, ?_, ?_⟩
    · -- the ids of one call come one after the other
      have hpairs : (es.map AuditLog.id).Pairwise fun i j => i < j := by
        rw [hids, List.pairwise_map]
        exact List.pairwise_lt_range.imp fun hjk => hf.increasing .auditLog _ _ hjk
      exact List.pairwise_map.mp hpairs
    · intro a ha b hb
      obtain ⟨k, hk⟩ := hnew b hb
      rw [hk]
      exact hf.above .auditLog k a.id (List.mem_map_of_mem ha)
  · intro ro hknows
    have hold : Knows ro db := by
      intro n hn
      obtain ⟨m, hm, hthread⟩ := hkeep n hn
      have hid : m.id = n.id := congrArg Thread.id hthread
      have hrid : m.requestId = n.requestId := congrArg Thread.requestId hthread
      rw [← hid, ← hrid]
      exact hknows m hm
    rw [hlog]
    exact (h.recorded ro hold).append (hrec ro hold hknows)
  · intro e he hact
    rw [hlog] at he
    rcases List.mem_append.mp he with he | he
    · -- decided rows stay as they are
      obtain ⟨n, hn, w, hw, hentity, hns, hdetails, hws, hrid⟩ := h.superseded e he hact
      exact ⟨n, (hext.decided n hn (by simp [hns])).1, w, (hext.decided w hw (by simp [hws])).1,
        hentity, hns, hdetails, hws, hrid⟩
    · exact hsup e he hact

theorem Reachable.booked {db : Db} (h : Reachable db) : Booked db := by
  refine h.invariant Booked.empty ?_
  intro db db' hr ha hs
  have hext := hs.extends hr
  have hkeep := hs.keeps_threads
  cases hs.cases with
  | nothing => exact ha
  | registered env data hf hfree =>
      exact ha.step hf (registerWrites_logs env data db) hext hkeep
  | @executed req user env o hf hx =>
      have hlogs := hx.produces.logs hr.consistent hf
      rw [view_committed] at hext hkeep ⊢
      exact ha.step hf ⟨hlogs.entries⟩ hext hkeep

/-- **The audit trail is complete and faithful.**  In every reachable state,
folding the audit log in the order of its ids gives every request its status
and every negotiation its status, its agreed amount and its chain; no entry of
an operation is redundant; and a superseded entry names the accepted
negotiation of its request. -/
theorem audit_trail {db : Db} (h : Reachable db) :
    (∀ r ∈ db.requests, (db.folded db.trail).requests r.id = some r.status)
    ∧ (∀ n ∈ db.negotiations, (db.folded db.trail).negotiations n.id
        = some ⟨n.status, n.agreedAmount, (db.chain n.id).map Proposal.line⟩)
    ∧ (∀ i, db.request i = none → (db.folded db.trail).requests i = none)
    ∧ (∀ i, db.negotiation i = none → (db.folded db.trail).negotiations i = none)
    ∧ (∀ before e after, db.trail = before ++ e :: after → e.action ≠ .userRegistered →
        db.folded (before ++ [e]) ≠ db.folded before)
    ∧ (∀ e ∈ db.trail, e.action = .negotiationSuperseded → ∃ n ∈ db.negotiations, ∃ w,
        e.entityId = some n.id ∧ e.details = .winner w.id ∧ db.winners n.requestId = [w]) := by
  have hc := h.consistent
  have ha := h.booked
  have htrail : db.trail = db.auditLog := insertionSort_eq_self ha.increasing
  have hknows : Knows db.requestOf db := by
    intro n hn
    unfold Db.requestOf
    rw [hc.negotiation_of_mem hn]
    rfl
  have hrec := ha.recorded db.requestOf hknows
  have hfold : db.folded db.trail = db.ledger := by
    unfold Db.folded
    rw [htrail]
    exact hrec.foldl
  rw [hfold, htrail]
  refine ⟨?_, ?_, ?_, ?_, ?_, ?_⟩
  · intro r hr
    show (db.request r.id).map _ = _
    rw [hc.request_of_mem hr]
    rfl
  · intro n hn
    show (db.negotiation n.id).map _ = _
    rw [hc.negotiation_of_mem hn, hc.chain_eq]
    rfl
  · intro i hi
    show (db.request i).map _ = _
    rw [hi]
    rfl
  · intro i hi
    show (db.negotiation i).map _ = _
    rw [hi]
    rfl
  · intro before e after hsplit he
    rw [hsplit] at hrec
    exact hrec.changes he
  · intro e he hact
    obtain ⟨n, hn, w, hw, hentity, _, hdetails, hws, hrid⟩ := ha.superseded e he hact
    refine ⟨n, hn, w, hentity, hdetails, ?_⟩
    have hwin : w ∈ db.winners n.requestId := mem_winners.mpr ⟨mem_negotiationsOf.mpr ⟨hw, hrid⟩, hws⟩
    obtain ⟨r, hr, hid, _⟩ := hc.chain hn
    -- a request has one winner at most
    rcases hc.winners hr with ⟨_, hnone⟩ | ⟨_, hone, _⟩
    · rw [hid] at hnone
      rw [hnone] at hwin
      exact absurd hwin List.not_mem_nil
    · rw [hid] at hone
      obtain ⟨v, hv⟩ := List.length_eq_one_iff.mp hone
      rw [hv] at hwin
      rw [hv, List.mem_singleton.mp hwin]

/-- The client accepts the first bid of the market: the trail says so. -/
theorem audit_trail_market :
    ((market.after (.post (plain 1 (.accept 1)))).folded
      (market.after (.post (plain 1 (.accept 1)))).trail).negotiations 2
      = some ⟨.rejected, none, [⟨some 3, .offer, 90, "COP"⟩]⟩ := by
  have hfolded : ∀ db, Reachable db →
      (∃ n ∈ db.negotiations, n.id = 2 ∧ n.status = .rejected ∧ n.agreedAmount = none
        ∧ (db.chain n.id).map Proposal.line = [⟨some 3, .offer, 90, "COP"⟩]) →
      (db.folded db.trail).negotiations 2
        = some ⟨.rejected, none, [⟨some 3, .offer, 90, "COP"⟩]⟩ := by
    rintro db hdb ⟨n, hn, hid, hs, hagreed, hchain⟩
    have hn2 := (audit_trail hdb).2.1 n hn
    rw [hid, hs, hagreed] at hn2
    rw [hid] at hchain
    rw [hn2, hchain]
  exact hfolded _ (market_reachable.after _) (by decide +kernel)

end Procurement
