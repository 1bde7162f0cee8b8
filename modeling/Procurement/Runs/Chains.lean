/-
  Procurement.Runs.Chains
  ───────────────────────
  **THE CHAIN OF A NEGOTIATION, AND WHO ACCEPTED IT.**

  The shape of the chains is part of the consistent outline.  What is left is
  the acceptance: its audit entry names the participant who did not make the
  last proposal (`Acceptances`).  The entry is written once, and from then on
  neither the row nor the chain of that negotiation changes.
-/
import Procurement.Runs.Trail
import Procurement.Runs.Requests

namespace Procurement

open Procurement.Framework
open Procurement.Framework.Program

/-! ## §1. Acceptances. -/

/-- User `a` takes part in negotiation `n` and did not make its last
proposal. -/
structure Answers (db : Db) (n : Negotiation) (a : Id) : Prop where
  participant : ∃ r ∈ db.requests, r.id = n.requestId ∧ (a = r.clientId ∨ a = n.supplierId)
  counterparty : ∀ last, (db.proposalsOf n.id).getLast? = some last → last.actorId ≠ a

/-- The entry of an acceptance is about an accepted negotiation, and names who
accepted. -/
def AcceptanceStands (db : Db) (e : AuditLog) : Prop :=
  ∃ n ∈ db.negotiations, e.entityId = some n.id ∧ n.status = .accepted
    ∧ ∃ a, e.actorId = some a ∧ Answers db n a

def Acceptances (db : Db) : Prop :=
  ∀ e ∈ db.auditLog, e.action = .negotiationAccepted → AcceptanceStands db e

/-- An acceptance stands as long as its row, its chain and the owners of the
requests do. -/
theorem AcceptanceStands.mono {db db' : Db} {e : AuditLog} (h : AcceptanceStands db e)
    (hrow : ∀ n ∈ db.negotiations, n.status = .accepted → n ∈ db'.negotiations)
    (hchain : ∀ n ∈ db.negotiations, n.status = .accepted →
      db'.proposalsOf n.id = db.proposalsOf n.id)
    (howner : ∀ r ∈ db.requests, ∃ q ∈ db'.requests, q.id = r.id ∧ q.clientId = r.clientId) :
    AcceptanceStands db' e := by
  obtain ⟨n, hn, hid, hs, a, ha, ⟨r, hr, hrid, hpart⟩, hcp⟩ := h
  obtain ⟨q, hq, hqid, hqc⟩ := howner r hr
  refine ⟨n, hrow n hn hs, hid, hs, a, ha, ⟨q, hq, hqid.trans hrid, ?_⟩, ?_⟩
  · rwa [hqc]
  · rw [hchain n hn hs]
    exact hcp

theorem Acceptances.empty : Acceptances Db.empty := by
  intro e he
  exact absurd he (by simp [Db.empty])

/-- The entries of the superseding loop are no acceptances. -/
theorem supersedeEntries_action (w : Id) (siblings : List Negotiation) :
    ∀ (env : Env), ∀ e ∈ supersedeEntries w env siblings, e.action = .negotiationSuperseded := by
  induction siblings with
  | nil =>
      intro env e he
      exact absurd he (by simp [supersedeEntries])
  | cons sib siblings ih =>
      intro env e he
      rcases List.mem_cons.mp he with rfl | he
      · rfl
      · exact ih (env.pop .auditLog) e he

/-- A commit whose only entry is no acceptance. -/
theorem Acceptances.grow {db db' : Db} (h : Acceptances db) {e : AuditLog}
    (he : e.action ≠ .negotiationAccepted) (hlog : db'.auditLog = db.auditLog ++ [e])
    (hrow : ∀ n ∈ db.negotiations, n.status = .accepted → n ∈ db'.negotiations)
    (hchain : ∀ n ∈ db.negotiations, n.status = .accepted →
      db'.proposalsOf n.id = db.proposalsOf n.id)
    (howner : ∀ r ∈ db.requests, ∃ q ∈ db'.requests, q.id = r.id ∧ q.clientId = r.clientId) :
    Acceptances db' := by
  intro e' he' hact
  rw [hlog] at he'
  rcases List.mem_append.mp he' with he' | he'
  · exact (h e' he' hact).mono hrow hchain howner
  · obtain rfl : e' = e := by simpa using he'
    exact absurd hact he

/-- An acceptance adds its own entry, and decides no accepted negotiation. -/
theorem Acceptances.accept {db : Db} {env : Env} {user : User} {neg : Negotiation} {client : Id}
    {ps : List Proposal} {last : Proposal} {req : ProductRequest} (h : Acceptances db)
    (hc : Consistent db) (hread : Reading neg client ps db)
    (hm : MayRespond user neg client ps last) :
    Acceptances (engine.view (acceptWrites env user neg last req
      (env.order (db.activeSiblings req.id neg.id))) db) := by
  obtain ⟨hneg, r, hr, hrid, hclient, _⟩ := hc.reading hread
  rw [view_accept _ _ _ _ _ _ _ winner_not_sibling]
  generalize hls : (env.order (db.activeSiblings req.id neg.id)).map Negotiation.id = losers
  have howner : ∀ r ∈ db.requests, ∃ q ∈ update ProductRequest.id db.requests req.id
      (fun r => { r with status := .closed }), q.id = r.id ∧ q.clientId = r.clientId := by
    intro r hr
    refine ⟨_, List.mem_map_of_mem hr, ?_, ?_⟩ <;> split <;> rfl
  intro e he hact
  rw [List.append_assoc] at he
  rcases List.mem_append.mp he with he | he
  · -- an old acceptance: its negotiation is not active, so nothing decides it
    refine (h e he hact).mono ?_ (fun n hn _ => rfl) howner
    intro n hn hs
    refine List.mem_map.mpr ⟨n, hn, ?_⟩
    have hnl : n.id ∉ losers := by
      rw [← hls, hc.mem_sibling_ids hn]
      intro hsib
      rw [hsib.2.1] at hs
      exact absurd hs (by simp)
    unfold decided
    rw [if_neg (hc.id_ne hn hneg hs hm.active), if_neg hnl]
  · rcases List.mem_append.mp he with he | he
    · rw [supersedeEntries_action _ _ _ e he] at hact
      exact absurd hact (by simp)
    · -- the new acceptance
      obtain rfl := List.mem_singleton.mp he
      obtain ⟨q, hq, hqid, hqc⟩ := howner r hr
      refine ⟨decided neg.id last.amount losers neg, List.mem_map_of_mem hneg, ?_, ?_, user.id,
        rfl, ⟨q, hq, ?_, ?_⟩, ?_⟩
      · rw [decided_id]
        rfl
      · unfold decided
        rw [if_pos rfl]
        rfl
      · rw [decided_requestId]
        exact hqid.trans hrid
      · rw [decided_supplierId, hqc, hclient]
        exact hm.participant
      · intro last' hl'
        rw [decided_id] at hl'
        have hl := hc.reading_last hread hm
        rw [← hread.proposals] at hl
        obtain rfl : last' = last := Option.some.inj (hl'.symm.trans hl)
        exact hm.counterparty

theorem Acceptances.produces {db : Db} {env : Env} {user : User} {op : Op} {o : Produced}
    (h : Acceptances db) (hc : Consistent db) (hp : Produces db user env op o)
    (hfresh : (env.stamp .negotiations).id ∉ db.ids .negotiations) :
    Acceptances (engine.view o.writes db) := by
  have hsame : ∀ r ∈ db.requests, ∃ q ∈ db.requests, q.id = r.id ∧ q.clientId = r.clientId :=
    fun r hr => ⟨r, hr, rfl, rfl⟩
  cases hp with
  | createRequest data =>
      refine h.grow (e := _) (by simp) rfl (fun n hn _ => hn) (fun n hn _ => rfl) ?_
      exact fun r hr => ⟨r, List.mem_append_left _ hr, rfl, rfl⟩
  | @makeOffer req data hread ho =>
      -- the opening belongs to the new negotiation
      refine h.grow (e := _) (by simp) rfl (fun n hn _ => List.mem_append_left _ hn) ?_ hsame
      intro n hn _
      have hne : (env.opening user req.id data).negotiationId ≠ n.id :=
        fun he => hfresh (List.mem_map.mpr ⟨n, hn, he.symm⟩)
      show (db.proposals ++ [env.opening user req.id data]).filter _ = _
      rw [List.filter_append]
      simp [Db.proposalsOf, hne]
  -- an accepted negotiation is not the active one that is countered, or rejected
  | @counter neg client ps last data hread hm =>
      refine h.grow (e := _) (by simp) rfl (fun n hn _ => hn) ?_ hsame
      intro n hn hs
      have hne : neg.id ≠ n.id := (hc.id_ne hn (lookup_mem hread.row) hs hm.active).symm
      show (db.proposals ++ [env.countered user neg last data]).filter _ = _
      rw [List.filter_append]
      simp [Db.proposalsOf, Env.countered, Env.proposalOf, Env.newProposal, hne]
  | @reject neg client ps last hread hm =>
      refine h.grow (e := _) (by simp) rfl ?_ (fun n hn _ => rfl) hsame
      intro n hn hs
      exact List.mem_map.mpr ⟨n, hn, if_neg (hc.id_ne hn (lookup_mem hread.row) hs hm.active)⟩
  | accept hread hm hrow => exact h.accept hc hread hm

theorem Reachable.acceptances {db : Db} (h : Reachable db) : Acceptances db := by
  refine h.invariant Acceptances.empty ?_
  intro db db' hr ha hs
  cases hs.cases with
  | nothing => exact ha
  | registered env data hf hfree =>
      refine ha.grow (e := _) (by simp) rfl (fun n hn _ => hn) (fun n hn _ => rfl) ?_
      exact fun r hr => ⟨r, hr, rfl, rfl⟩
  | executed hf hx =>
      rw [view_committed]
      have hp := ha.produces hr.consistent hx.produces (hf.unused .negotiations 0)
      intro e he hact
      exact (hp e he hact).mono (fun n hn _ => hn) (fun n hn _ => rfl)
        (fun r hr => ⟨r, hr, rfl, rfl⟩)

/-! ## §2. The chain of a negotiation. -/

/-- The acceptances of a negotiation in the audit log. -/
def Db.acceptancesOf (db : Db) (n : Id) : List AuditLog :=
  db.auditLog.filter fun e => e.action = .negotiationAccepted ∧ e.Closes n

/-- What holds of a negotiation on a request of `clientId`. -/
structure NegotiationStands (db : Db) (n : Negotiation) (clientId : Id) : Prop where
  nonempty : db.chain n.id ≠ []
  /-- `lastProposal` never finds the chain empty. -/
  answered : ∀ env f, (engine.request (lastProposal n) env f db).1
    ≠ .error (.conflict "Negotiation has no proposals")
  parties : n.supplierId ≠ clientId
  kinds : ∀ i p, (db.chain n.id)[i]? = some p → p.kind = if i = 0 then .offer else .counter
  actors : ∀ i p, (db.chain n.id)[i]? = some p →
    p.actorId = if i % 2 = 0 then n.supplierId else clientId
  roles : ∀ p ∈ db.chain n.id, ∃ u, db.user p.actorId = some u ∧ u.role = p.actorRole
  currency : ∀ p ∈ db.chain n.id, ∀ q, (db.chain n.id).head? = some q → p.currency = q.currency
  agreed : n.agreedAmount ≠ none ↔ n.status = .accepted
  accepted : n.status = .accepted → ∃ last e a, (db.chain n.id).getLast? = some last
    ∧ n.agreedAmount = some last.amount ∧ db.acceptancesOf n.id = [e] ∧ e.actorId = some a
    ∧ (a = clientId ∨ a = n.supplierId) ∧ a ≠ last.actorId

/-- The acceptances are among the closing entries. -/
theorem acceptancesOf_eq (db : Db) (n : Id) :
    db.acceptancesOf n = (db.closings n).filter fun e => e.action = .negotiationAccepted := by
  unfold Db.acceptancesOf Db.closings closingsIn
  rw [List.filter_filter]
  congr 1
  funext e
  simp

/-- A negotiation with proposals has a last one, whatever the faults. -/
theorem lastProposal_answered {db : Db} {n : Negotiation} {last : Proposal}
    (hl : db.lastProposal n.id = some last) (env : Env) (f : Nat → Bool) :
    (engine.request (lastProposal n) env f db).1
      ≠ .error (.conflict "Negotiation has no proposals") := by
  intro herr
  have hanswer : engine.answer (.lastProposal n.id) env (engine.view [] db)
      = .ok (some last) := congrArg Except.ok hl
  unfold Engine.request lastProposal at herr
  simp only [send_bind] at herr
  rw [Engine.exec_call] at herr
  -- the SELECT fails with the fault, or returns the row
  by_cases hf : f 0 = true
  · rw [if_pos hf] at herr
    exact absurd herr (by simp [engine])
  · rw [if_neg hf] at herr
    simp only [Engine.look, hanswer] at herr
    exact absurd herr (by simp)

/-- The actor of a proposal has the role that the proposal says. -/
theorem Consistent.actor_role {db : Db} (hc : Consistent db) {n : Negotiation}
    {r : ProductRequest} (hn : n ∈ db.negotiations) (hr : r ∈ db.requests) {p : Proposal} {i : Nat}
    (hactor : p.actorId = seat n.supplierId r.clientId i) (hrole : p.actorRole = seatRole i) :
    ∃ u, db.user p.actorId = some u ∧ u.role = p.actorRole := by
  have hseat : db.outline.HasRole p.actorId p.actorRole := by
    rw [hactor, hrole]
    unfold seat seatRole
    by_cases heven : i % 2 = 0
    · rw [if_pos heven, if_pos heven]
      exact hc.outline.supplied n.thread (List.mem_map_of_mem hn)
    · rw [if_neg heven, if_neg heven]
      exact hc.outline.owned r.ownership (List.mem_map_of_mem hr)
  obtain ⟨u, hu, hui, hur⟩ := hseat
  refine ⟨u, ?_, hur⟩
  rw [← hui]
  exact lookup_of_mem hc.userIds hu

/-- An accepted negotiation has one acceptance, by the participant who did not
make its last proposal. -/
theorem Reachable.accepted_by {db : Db} (h : Reachable db) {n : Negotiation} {r : ProductRequest}
    (hn : n ∈ db.negotiations) (hr : r ∈ db.requests) (hid : r.id = n.requestId)
    (hs : n.status = .accepted) :
    ∃ last e a, (db.proposalsOf n.id).getLast? = some last ∧ n.agreedAmount = some last.amount
      ∧ db.acceptancesOf n.id = [e] ∧ e.actorId = some a
      ∧ (a = r.clientId ∨ a = n.supplierId) ∧ a ≠ last.actorId := by
  have hc := h.consistent
  have hclosed := h.traced.closings n hn
  rw [hs] at hclosed
  obtain ⟨e, he, hact⟩ := hclosed
  obtain ⟨last, hl, ha⟩ : ∃ last, (db.proposalsOf n.id).getLast? = some last
      ∧ n.agreedAmount = some last.amount := by
    rcases hc.settled.amounts n hn with ⟨_, last, hl, ha⟩ | ⟨hne, _⟩
    · exact ⟨last, hl, ha⟩
    · exact absurd hs hne
  -- the closing entry is the acceptance, and says who accepted
  have hmem : e ∈ db.closings n.id := by
    rw [he]
    exact List.mem_singleton.mpr rfl
  obtain ⟨hlog, hcl⟩ := List.mem_filter.mp hmem
  have hcl' : e.Closes n.id := by simpa using hcl
  obtain ⟨m, hm, hmid, _, a, hactor, ⟨q, hq, hqid, hpart⟩, hcp⟩ := h.acceptances e hlog hact
  have hid' : m.id = n.id := Option.some.inj (hmid.symm.trans hcl'.2.2)
  obtain rfl : m = n := hc.negotiation_eq hm hn hid'
  obtain rfl : q = r := hc.request_eq hq hr (hqid.trans hid.symm)
  refine ⟨last, e, a, hl, ha, ?_, hactor, hpart, ?_⟩
  · rw [acceptancesOf_eq, he]
    simp [hact]
  · exact fun heq => hcp last hl heq.symm

/-- **The chain of a negotiation**, in every reachable state. -/
theorem negotiation_stands {db : Db} (h : Reachable db) :
    ∀ n ∈ db.negotiations, ∃ r, db.request n.requestId = some r
      ∧ NegotiationStands db n r.clientId := by
  intro n hn
  have hc := h.consistent
  obtain ⟨r, hr, hrow, hchain⟩ := hc.client hn
  have horder : db.chain n.id = db.proposalsOf n.id := hc.chain_eq n.id
  -- the shape of the chain gives, position by position, all that follows
  obtain ⟨cur, hshape⟩ := hchain.shape
  have hpos : ∀ p ∈ db.proposalsOf n.id, ∃ i, (db.proposalsOf n.id)[i]? = some p :=
    fun p hp => List.mem_iff_getElem?.mp hp
  refine ⟨r, hrow, ?_⟩
  exact
    { nonempty := by
        rw [horder]
        exact hchain.nonempty
      answered := by
        obtain ⟨last, hl⟩ : ∃ last, db.lastProposal n.id = some last := by
          unfold Db.lastProposal
          rw [hchain.argmax]
          exact Option.isSome_iff_exists.mp (List.getLast?_isSome.mpr hchain.nonempty)
        exact lastProposal_answered hl
      parties := hc.outline.parties_ne (hc.outline.supplied n.thread (List.mem_map_of_mem hn))
        (hc.outline.owned r.ownership (List.mem_map_of_mem hr))
      kinds := by
        intro i p hp
        rw [horder] at hp
        exact (hshape i p hp).2.2.1
      actors := by
        intro i p hp
        rw [horder] at hp
        exact (hshape i p hp).1
      roles := by
        intro p hp
        rw [horder] at hp
        obtain ⟨i, hi⟩ := hpos p hp
        -- the actor of position i is a party, so his role is the party's
        obtain ⟨hactor, hrole, _⟩ := hshape i p hi
        exact hc.actor_role hn hr hactor hrole
      currency := by
        intro p hp q hq
        rw [horder] at hp hq
        obtain ⟨i, hi⟩ := hpos p hp
        rw [List.head?_eq_getElem?] at hq
        rw [(hshape i p hi).2.2.2, (hshape 0 q hq).2.2.2]
      agreed := by
        rcases hc.settled.amounts n hn with ⟨hs, p, _, ha⟩ | ⟨hs, ha⟩
        · rw [hs, ha]
          simp
        · rw [ha]
          simp [hs]
      accepted := by
        intro hs
        rw [horder]
        exact h.accepted_by hn hr (lookup_key hrow) hs }

/-- The first bid of the market, accepted: its only proposal is the
supplier's, so the client accepted it. -/
theorem negotiation_stands_market :
    ∃ e, (market.after (.post (plain 1 (.accept 1)))).acceptancesOf 1 = [e]
      ∧ e.actorId = some 1 := by
  have haccepted : ∀ db, Reachable db →
      (∃ n ∈ db.negotiations, n.id = 1 ∧ n.status = .accepted ∧ n.supplierId = 2
        ∧ (db.request n.requestId).map ProductRequest.clientId = some 1
        ∧ (db.chain n.id).getLast?.map Proposal.actorId = some 2) →
      ∃ e, db.acceptancesOf 1 = [e] ∧ e.actorId = some 1 := by
    rintro db hdb ⟨n, hn, hid, hs, hsup, hclient, hlast⟩
    obtain ⟨r, hr, hstands⟩ := negotiation_stands hdb n hn
    obtain ⟨last, e, a, hl, _, he, ha, hpart, hne⟩ := hstands.accepted hs
    rw [hr] at hclient
    rw [hl] at hlast
    obtain hc : r.clientId = 1 := by simpa using hclient
    obtain hla : last.actorId = 2 := by simpa using hlast
    rw [hid] at he
    rw [hc, hsup] at hpart
    rw [hla] at hne
    refine ⟨e, he, ?_⟩
    rcases hpart with rfl | rfl
    · exact ha
    · exact absurd rfl hne
  exact haccepted _ (market_reachable.after _) (by decide +kernel)

end Procurement
