/-
  Procurement.Protocol.Refinement
  ───────────────────────────────
  **THE ROWS REFINE THE PROTOCOL.**

  `Db.protocol` reads the protocol's state off the rows: the party on turn is
  the one that did not make the proposal with the greatest id, price and
  currency are those of that proposal.  On every reachable state a call goes
  through exactly when its action is enabled, and then commutes with the
  action; a call that does not go through leaves the rows alone.
-/
import Procurement.Protocol.Machine
import Procurement.Runs.Requests

namespace Procurement

open Procurement.Framework

/-! ## §1. The abstraction. -/

namespace Db

/-- The thread that a negotiation row stands for. -/
def threadState (db : Db) (n : Negotiation) : ThreadState :=
  match n.status with
  | .rejected => .rejected
  | .accepted => .accepted (n.agreedAmount.getD 0)
  | .active =>
      match db.lastProposal n.id with
      | none => .absent
      | some p =>
          .active (if p.actorId = n.supplierId then .client else .supplier) p.amount p.currency

def protocol (db : Db) : Protocol where
  request i := (db.request i).map fun r =>
    { owner := r.clientId, phase := if r.status = .opened then .opened else .closed }
  thread requestId supplierId :=
    match db.thread requestId supplierId with
    | none => .absent
    | some n => db.threadState n

/-- The action that a call asks for.  A decision on an id that names no
negotiation asks for none. -/
def action (db : Db) : Op → Option Action
  | .createRequest _ => none
  | .makeOffer requestId data => some (.offer requestId data.amount data.currency)
  | .accept n => (db.negotiation n).map fun neg => .accept neg.requestId neg.supplierId
  | .reject n => (db.negotiation n).map fun neg => .reject neg.requestId neg.supplierId
  | .counter n data =>
      (db.negotiation n).map fun neg => .counter neg.requestId neg.supplierId data.amount

end Db

/-- What the protocol keeps of a request: its owner, and whether it is open. -/
theorem protocol_request (db : Db) (i : Id) : db.protocol.request i = (db.request i).map fun r =>
    { owner := r.clientId, phase := if r.status = .opened then .opened else .closed } := rfl

/-- A row is a thread, in the state its proposals put it in. -/
theorem protocol_thread_some {db : Db} {r s : Id} {n : Negotiation} (h : db.thread r s = some n) :
    db.protocol.thread r s = db.threadState n := by
  simp only [Db.protocol, h]

/-- No row is no thread. -/
theorem protocol_thread_none {db : Db} {r s : Id} (h : db.thread r s = none) :
    db.protocol.thread r s = .absent := by
  simp only [Db.protocol, h]

/-- The state of a thread comes from its own proposals. -/
theorem threadState_congr {db db' : Db} {n : Negotiation}
    (h : db'.proposalsOf n.id = db.proposalsOf n.id) : db'.threadState n = db.threadState n := by
  unfold Db.threadState Db.lastProposal
  rw [h]

/-- The thread of a pair belongs to that pair. -/
theorem thread_some {db : Db} {r s : Id} {n : Negotiation} (h : db.thread r s = some n) :
    n ∈ db.negotiations ∧ n.requestId = r ∧ n.supplierId = s := by
  unfold Db.thread at h
  exact ⟨List.mem_of_find?_eq_some h, by simpa using List.find?_some h⟩

/-- Reading a thread after a rewriting that keeps the parties. -/
theorem thread_map {db db' : Db} (g : Negotiation → Negotiation)
    (hg : ∀ n, (g n).thread = n.thread) (h : db'.negotiations = db.negotiations.map g)
    (r s : Id) : db'.thread r s = (db.thread r s).map g := by
  unfold Db.thread
  rw [h, List.find?_map]
  congr 2
  funext n
  have hr : (g n).requestId = n.requestId := congrArg Thread.requestId (hg n)
  have hs : (g n).supplierId = n.supplierId := congrArg Thread.supplierId (hg n)
  show decide ((g n).requestId = r ∧ (g n).supplierId = s) = _
  rw [hr, hs]

/-! ## §2. Guards. -/

namespace Consistent

variable {db : Db}

/-- A negotiation row is the thread of its request and supplier. -/
theorem thread_eq (h : Consistent db) {n : Negotiation} (hn : n ∈ db.negotiations) :
    db.thread n.requestId n.supplierId = some n := by
  cases ht : db.thread n.requestId n.supplierId with
  | none =>
      unfold Db.thread at ht
      rw [List.find?_eq_none] at ht
      exact absurd (ht n hn) (by simp)
  | some m =>
      obtain ⟨hm, hr, hs⟩ := thread_some ht
      rw [h.one_thread hn hm hr hs]

/-- What the rows of an active negotiation say about its thread. -/
theorem active_thread (h : Consistent db) {n : Negotiation} (hn : n ∈ db.negotiations)
    (ha : n.status = .active) :
    ∃ last r, (db.proposalsOf n.id).argmax Proposal.id = some last
      ∧ db.request n.requestId = some r ∧ n.supplierId ≠ r.clientId
      ∧ (last.actorId = r.clientId ∨ last.actorId = n.supplierId)
      ∧ db.protocol.thread n.requestId n.supplierId
        = .active (if last.actorId = n.supplierId then .client else .supplier)
            last.amount last.currency := by
  obtain ⟨r, hr, hrow, hchain⟩ := h.client hn
  obtain ⟨last, hl⟩ : ∃ last, (db.proposalsOf n.id).getLast? = some last :=
    Option.isSome_iff_exists.mp (List.getLast?_isSome.mpr hchain.nonempty)
  have harg : (db.proposalsOf n.id).argmax Proposal.id = some last := hchain.argmax.trans hl
  -- the row of the request, the parties, whose proposal is the last, and the thread
  refine ⟨last, r, harg, hrow, ?_, ?_, ?_⟩
  · exact h.outline.parties_ne (h.outline.supplied n.thread (List.mem_map_of_mem hn))
      (h.outline.owned r.ownership (List.mem_map_of_mem hr))
  · rw [hchain.last_actor hl]
    unfold seat
    split
    · exact Or.inr rfl
    · exact Or.inl rfl
  · rw [protocol_thread_some (h.thread_eq hn)]
    unfold Db.threadState Db.lastProposal
    rw [ha, harg]

/-- **The guards of a decision** are the protocol's: the caller is on turn. -/
theorem responds_iff (h : Consistent db) {n : Negotiation} (hn : n ∈ db.negotiations)
    (user : User) :
    (∃ client ps last, Reading n client ps db ∧ MayRespond user n client ps last)
      ↔ db.protocol.OnTurn user.id n.requestId n.supplierId := by
  have hrow : db.negotiation n.id = some n := lookup_of_mem h.negotiationIds hn
  constructor
  · rintro ⟨client, ps, last, hread, hm⟩
    obtain ⟨last', r, harg, hr, _, hactor, hthread⟩ := h.active_thread hn hm.active
    rw [hread.proposals] at harg
    obtain rfl : last = last' := Option.some.inj (hm.isLast.symm.trans harg)
    obtain ⟨r', hr', hclient⟩ := hread.owner
    obtain rfl : r = r' := Option.some.inj (hr.symm.trans hr')
    refine ⟨_, _, _, hthread, ?_⟩
    have hturn := hm.counterparty
    have hpart := hm.participant
    by_cases hs : last.actorId = n.supplierId
    · -- the supplier made the last proposal
      rw [if_pos hs]
      show (db.protocol.request n.requestId).map RequestState.owner = _
      rw [protocol_request, hr]
      rw [hs] at hturn
      rcases hpart with hp | hp
      · exact congrArg some (hclient.trans hp.symm)
      · exact absurd hp.symm hturn
    · -- the client made it
      rw [if_neg hs]
      show some n.supplierId = _
      rcases hpart with hp | hp
      · rcases hactor with hact | hact
        · exact absurd (hact.trans (hclient.trans hp.symm)) hturn
        · exact absurd hact hs
      · rw [hp]
  · rintro ⟨turn, price, currency, hthread, hmember⟩
    -- only an active row reads as an active thread
    have ha : n.status = .active := by
      rw [protocol_thread_some (h.thread_eq hn)] at hthread
      unfold Db.threadState at hthread
      cases hs : n.status with
      | active => rfl
      | accepted => rw [hs] at hthread; exact absurd hthread (by simp)
      | rejected => rw [hs] at hthread; exact absurd hthread (by simp)
    obtain ⟨last, r, harg, hr, hne, _, hthread'⟩ := h.active_thread hn ha
    rw [hthread'] at hthread
    obtain ⟨rfl, _, _⟩ := ThreadState.active.inj hthread
    refine ⟨r.clientId, db.proposalsOf n.id, last, ⟨hrow, ⟨r, hr, rfl⟩, rfl⟩, ?_⟩
    -- the member on turn is the caller, and did not make the last proposal
    by_cases hs : last.actorId = n.supplierId
    · rw [if_pos hs] at hmember
      have hu : r.clientId = user.id := by
        have hm' : (db.protocol.request n.requestId).map RequestState.owner = some user.id := hmember
        rw [protocol_request, hr] at hm'
        exact Option.some.inj hm'
      exact ⟨Or.inl hu.symm, ha, harg, fun he => hne (hs.symm.trans (he.trans hu.symm))⟩
    · rw [if_neg hs] at hmember
      have hu : n.supplierId = user.id := Option.some.inj hmember
      exact ⟨Or.inr hu.symm, ha, harg, fun he => hs (he.trans hu.symm)⟩

/-- The guards of an offer. -/
theorem offers_iff {requestId : Id} {user : User} :
    (∃ req, req.id = requestId ∧ OfferReading req user.id false db ∧ req.status = .opened)
      ↔ (∃ owner, db.protocol.request requestId = some ⟨owner, .opened⟩)
        ∧ db.thread requestId user.id = none := by
  constructor
  · rintro ⟨req, rfl, hread, ho⟩
    refine ⟨⟨req.clientId, ?_⟩, by simpa using hread.thread⟩
    rw [protocol_request, hread.row]
    simp [ho]
  · rintro ⟨⟨owner, hreq⟩, hthread⟩
    rw [protocol_request] at hreq
    cases hr : db.request requestId with
    | none => rw [hr] at hreq; exact absurd hreq (by simp)
    | some req =>
        rw [hr] at hreq
        have hid : req.id = requestId := lookup_key hr
        refine ⟨req, hid, ⟨?_, ?_⟩, ?_⟩
        · rw [hid]
          exact hr
        · rw [hid, hthread]
          rfl
        · by_contra hne
          simp [hne] at hreq

/-- In a consistent state an absent thread has no row. -/
theorem absent_iff (h : Consistent db) (r s : Id) :
    db.protocol.thread r s = .absent ↔ db.thread r s = none := by
  cases ht : db.thread r s with
  | none => simp [protocol_thread_none ht]
  | some n =>
      have hn : n ∈ db.negotiations := List.mem_of_find?_eq_some ht
      rw [protocol_thread_some ht]
      constructor
      · intro habs
        exfalso
        cases hs : n.status with
        | active =>
            obtain ⟨last, _, _, _, _, _, hact⟩ := h.active_thread hn hs
            rw [protocol_thread_some (h.thread_eq hn), habs] at hact
            exact absurd hact (by simp)
        | accepted => unfold Db.threadState at habs; rw [hs] at habs; exact absurd habs (by simp)
        | rejected => unfold Db.threadState at habs; rw [hs] at habs; exact absurd habs (by simp)
      · exact fun h => absurd h (by simp)

end Consistent

/-! ## §3. Effects. -/

/-- When the rows of `db'` are those of `db`, rewritten one by one, its protocol
is known row by row. -/
theorem protocol_eq (db : Db) {db' : Db} {P : Protocol}
    {g : Negotiation → Negotiation} (hg : ∀ n, (g n).thread = n.thread)
    (hmap : db'.negotiations = db.negotiations.map g) (hreq : db'.protocol.request = P.request)
    (hnone : ∀ r s, db.thread r s = none → P.thread r s = .absent)
    (hsome : ∀ n ∈ db.negotiations, db'.threadState (g n) = P.thread n.requestId n.supplierId) :
    db'.protocol = P := by
  have hrow := thread_map g hg hmap
  apply Protocol.ext
  · exact hreq
  · funext r s
    cases ht : db.thread r s with
    | none =>
        rw [hnone r s ht]
        refine protocol_thread_none ?_
        rw [hrow, ht]
        rfl
    | some n =>
        obtain ⟨hn, rfl, rfl⟩ := thread_some ht
        rw [← hsome n hn]
        refine protocol_thread_some ?_
        rw [hrow, ht]
        rfl

/-- **An offer opens a thread**, with the supplier's price and the client to answer it, and
changes nothing else. -/
theorem protocol_makeOffer {db : Db} (h : Consistent db) {env : Env} {user : User}
    {req : ProductRequest} {data : OfferIn} (hthread : db.thread req.id user.id = none)
    (hfresh : (env.stamp .negotiations).id ∉ db.ids .negotiations) :
    (engine.view (offerWrites env user req.id data) db).protocol
      = db.protocol.setThread req.id user.id
          fun _ => .active .client data.amount data.currency := by
  generalize hdb' : engine.view (offerWrites env user req.id data) db = db'
  have hnegs : db'.negotiations = db.negotiations ++ [env.offered user req.id] := by
    rw [← hdb']
    rfl
  have hprops : ∀ i, db'.proposalsOf i = db.proposalsOf i
      ++ if (env.stamp .negotiations).id = i then [env.opening user req.id data] else [] := by
    intro i
    rw [← hdb']
    exact Outline.WellFormed.proposalsOf_append db.outline _ i
  have hrow : ∀ r s, db'.thread r s = (db.thread r s).or
      (if req.id = r ∧ user.id = s then some (env.offered user req.id) else none) := by
    intro r s
    unfold Db.thread
    rw [hnegs, List.find?_append]
    congr 1
    by_cases hc : req.id = r ∧ user.id = s
    · rw [if_pos hc]
      exact List.find?_cons_of_pos (decide_eq_true hc)
    · rw [if_neg hc]
      exact List.find?_cons_of_neg fun he => hc (of_decide_eq_true he)
  -- the new thread: the supplier has opened
  have hnew : db.proposalsOf (env.stamp .negotiations).id = [] := h.proposalsOf_new hfresh
  have hlast : db'.lastProposal (env.stamp .negotiations).id
      = some (env.opening user req.id data) := by
    unfold Db.lastProposal
    rw [hprops, hnew, if_pos rfl]
    rfl
  apply Protocol.ext
  · rw [← hdb']
    rfl
  · funext r s
    show _ = if r = req.id ∧ s = user.id then _ else _
    by_cases hrs : r = req.id ∧ s = user.id
    · obtain ⟨rfl, rfl⟩ := hrs
      have hthis : db'.thread req.id user.id = some (env.offered user req.id) := by
        rw [hrow, hthread]
        simp
      rw [if_pos ⟨rfl, rfl⟩, protocol_thread_some hthis]
      show (match db'.lastProposal (env.stamp .negotiations).id with
        | none => ThreadState.absent
        | some p => .active (if p.actorId = user.id then .client else .supplier) p.amount
            p.currency) = _
      rw [hlast]
      show ThreadState.active (if user.id = user.id then .client else .supplier) _ _ = _
      rw [if_pos rfl]
      rfl
    · have hsame : db'.thread r s = db.thread r s := by
        rw [hrow, if_neg fun hc => hrs ⟨hc.1.symm, hc.2.symm⟩]
        simp
      rw [if_neg hrs]
      cases ht : db.thread r s with
      | none => rw [protocol_thread_none ht, protocol_thread_none (hsame.trans ht)]
      | some n =>
          have hn : n ∈ db.negotiations := List.mem_of_find?_eq_some ht
          rw [protocol_thread_some ht, protocol_thread_some (hsame.trans ht)]
          refine threadState_congr ?_
          rw [hprops, if_neg fun he => hfresh (List.mem_map.mpr ⟨n, hn, he.symm⟩), List.append_nil]

section
variable {db : Db} {env : Env} {user : User} {neg : Negotiation} {client : Id}
  {ps : List Proposal} {last : Proposal}

/-- The last proposal of a negotiation that may be responded to, by its rows. -/
theorem responding (h : Consistent db) (hread : Reading neg client ps db)
    (hm : MayRespond user neg client ps last) :
    (last.actorId = client ∨ last.actorId = neg.supplierId)
      ∧ db.threadState neg
        = .active (if last.actorId = neg.supplierId then .client else .supplier)
            last.amount last.currency := by
  have hneg : neg ∈ db.negotiations := lookup_mem hread.row
  obtain ⟨last', r, harg, hr, _, hactor, hthread⟩ := h.active_thread hneg hm.active
  rw [hread.proposals] at harg
  obtain rfl : last = last' := Option.some.inj (hm.isLast.symm.trans harg)
  obtain ⟨r', hr', hclient⟩ := hread.owner
  obtain rfl : r = r' := Option.some.inj (hr.symm.trans hr')
  rw [hclient] at hactor
  rw [protocol_thread_some (h.thread_eq hneg)] at hthread
  exact ⟨hactor, hthread⟩

/-- The turn passes on. -/
theorem turn_other (hactor : last.actorId = client ∨ last.actorId = neg.supplierId)
    (hm : MayRespond user neg client ps last) :
    (if user.id = neg.supplierId then Role.client else .supplier)
      = (if last.actorId = neg.supplierId then Role.client else .supplier).other := by
  have hcp := hm.counterparty
  rcases hm.participant with hu | hu
  · -- the client counters the supplier
    have hls : last.actorId = neg.supplierId := by
      rcases hactor with ha | ha
      · exact absurd (ha.trans hu.symm) hcp
      · exact ha
    have hus : user.id ≠ neg.supplierId := fun he => hcp (hls.trans he.symm)
    rw [if_neg hus, if_pos hls]
    rfl
  · -- the supplier counters the client
    have hls : last.actorId ≠ neg.supplierId := fun he => hcp (he.trans hu.symm)
    rw [if_pos hu, if_neg hls]
    rfl

/-- **A counter answers in its thread**: the price is the new one, the turn is the other
party's, and no other thread notices. -/
theorem protocol_counter (h : Consistent db) {data : CounterIn}
    (hread : Reading neg client ps db) (hm : MayRespond user neg client ps last)
    (hlater : ∀ q ∈ db.proposalsOf neg.id, q.id < (env.stamp .proposals).id) :
    (engine.view (counterWrites env user neg last data) db).protocol
      = db.protocol.setThread neg.requestId neg.supplierId (.countered data.amount) := by
  have hneg : neg ∈ db.negotiations := lookup_mem hread.row
  obtain ⟨hactor, hstate⟩ := responding h hread hm
  generalize hdb' : engine.view (counterWrites env user neg last data) db = db'
  have hprops : ∀ i, db'.proposalsOf i = db.proposalsOf i
      ++ if neg.id = i then [env.countered user neg last data] else [] := by
    intro i
    rw [← hdb']
    exact Outline.WellFormed.proposalsOf_append db.outline _ i
  -- the new proposal has the greatest id
  have hinc : (db.proposalsOf neg.id ++ [env.countered user neg last data]).Pairwise
      fun p q => p.id < q.id := by
    obtain ⟨_, _, _, hc⟩ := h.chain hneg
    rw [List.pairwise_append]
    refine ⟨hc.increasing, List.pairwise_singleton _ _, ?_⟩
    intro p hp q hq
    obtain rfl := List.mem_singleton.mp hq
    exact hlater p hp
  have hlast : db'.lastProposal neg.id = some (env.countered user neg last data) := by
    unfold Db.lastProposal
    rw [hprops, if_pos rfl, argmax_eq_getLast? hinc, List.getLast?_append]
    rfl
  refine protocol_eq db (g := fun n => n) (fun _ => rfl) ?_ ?_ ?_ ?_
  · rw [List.map_id', ← hdb']
    rfl
  · rw [← hdb']
    rfl
  · intro r s ht
    show (if _ then ThreadState.countered _ (db.protocol.thread r s) else _) = _
    rw [protocol_thread_none ht]
    exact ite_self _
  · intro n hn
    show _ = if _ then _ else _
    rw [protocol_thread_some (h.thread_eq hn)]
    by_cases hthis : n.requestId = neg.requestId ∧ n.supplierId = neg.supplierId
    · obtain rfl := h.one_thread hneg hn hthis.1 hthis.2
      rw [if_pos hthis, hstate]
      unfold Db.threadState
      rw [hm.active, hlast]
      show ThreadState.active (if user.id = n.supplierId then Role.client else .supplier) _ _ = _
      rw [turn_other hactor hm]
      rfl
    -- the other threads do not see the new proposal
    · have hnn : neg.id ≠ n.id := by
        intro hid
        obtain rfl := h.negotiation_eq hneg hn hid
        exact hthis ⟨rfl, rfl⟩
      rw [if_neg hthis]
      refine threadState_congr ?_
      rw [hprops, if_neg hnn, List.append_nil]

/-- **A rejection ends its thread**, and leaves the request and all other threads alone. -/
theorem protocol_reject (h : Consistent db) (hread : Reading neg client ps db)
    (hm : MayRespond user neg client ps last) :
    (engine.view (rejectWrites env user neg) db).protocol
      = db.protocol.setThread neg.requestId neg.supplierId .ended := by
  have hneg : neg ∈ db.negotiations := lookup_mem hread.row
  obtain ⟨_, hstate⟩ := responding h hread hm
  refine protocol_eq db (fun n => Consistent.rejected_thread n neg.id) rfl rfl ?_ ?_
  · intro r s ht
    show (if _ then ThreadState.ended (db.protocol.thread r s) else _) = _
    rw [protocol_thread_none ht]
    exact ite_self _
  · intro n hn
    show _ = if _ then _ else _
    rw [protocol_thread_some (h.thread_eq hn)]
    by_cases hthis : n.requestId = neg.requestId ∧ n.supplierId = neg.supplierId
    · obtain rfl := h.one_thread hneg hn hthis.1 hthis.2
      rw [if_pos hthis, if_pos rfl, hstate]
      rfl
    · have hnn : n.id ≠ neg.id := by
        intro hid
        obtain rfl := h.negotiation_eq hn hneg hid
        exact hthis ⟨rfl, rfl⟩
      rw [if_neg hthis, if_neg hnn]
      exact threadState_congr rfl

/-- A sibling in the rows of an acceptance: an active one ends, the others stay. -/
theorem threadState_sibling {db' : Db} (h : Consistent db) {n : Negotiation}
    (hn : n ∈ db.negotiations) {agreed : Amount} {losers : List Id} (hne : n.id ≠ neg.id)
    (hl : n.id ∈ losers ↔ n.status = .active) :
    db'.threadState (decided neg.id agreed losers n) = (db.threadState n).ended := by
  unfold decided
  rw [if_neg hne]
  by_cases hact : n.status = .active
  · obtain ⟨l, _, harg, _, _, _, _⟩ := h.active_thread hn hact
    rw [if_pos (hl.mpr hact)]
    unfold Db.threadState Db.lastProposal
    rw [hact, harg]
    rfl
  · rw [if_neg fun hmem => hact (hl.mp hmem)]
    unfold Db.threadState
    cases hst : n.status with
    | active => exact absurd hst hact
    | accepted => rfl
    | rejected => rfl

/-- **An acceptance concludes its request**: the thread is agreed at the last price, every
other active thread of the request is ended, and the request is closed. -/
theorem protocol_accept (h : Consistent db) {req : ProductRequest}
    (hread : Reading neg client ps db) (hm : MayRespond user neg client ps last)
    (hreq : db.request neg.requestId = some req) :
    (engine.view (acceptWrites env user neg last req
      (env.order (db.activeSiblings req.id neg.id))) db).protocol
      = db.protocol.conclude neg.requestId neg.supplierId := by
  have hneg : neg ∈ db.negotiations := lookup_mem hread.row
  have hid : req.id = neg.requestId := lookup_key hreq
  obtain ⟨_, hstate⟩ := responding h hread hm
  rw [view_accept _ _ _ _ _ _ _ winner_not_sibling]
  -- the losers are the active siblings, whatever order the SELECT gives them in
  have hloser : ∀ n ∈ db.negotiations,
      (n.id ∈ (env.order (db.activeSiblings req.id neg.id)).map Negotiation.id
        ↔ n.requestId = req.id ∧ n.status = .active ∧ n.id ≠ neg.id) :=
    fun n hn => h.mem_sibling_ids hn
  generalize (env.order (db.activeSiblings req.id neg.id)).map Negotiation.id = losers at hloser ⊢
  refine protocol_eq db (Consistent.decided_thread neg.id last.amount losers) rfl ?_ ?_ ?_
  · -- the request is closed
    funext i
    show (lookup ProductRequest.id (update ProductRequest.id db.requests req.id _) i).map _
      = if i = neg.requestId then (db.protocol.request i).map _ else db.protocol.request i
    rw [lookup_update (fun r : ProductRequest => { r with status := .closed }) fun _ => rfl, ← hid]
    by_cases hi : i = req.id
    · rw [if_pos hi, if_pos hi, protocol_request, Option.map_map, Option.map_map]
      rfl
    · rw [if_neg hi, if_neg hi]
      rfl
  · intro r s ht
    show (if _ then if _ then ThreadState.concluded (db.protocol.thread r s)
      else ThreadState.ended (db.protocol.thread r s) else _) = _
    -- no thread before, none behind it
    rw [protocol_thread_none ht]
    show (if _ then if _ then ThreadState.absent else .absent else ThreadState.absent) = _
    rw [ite_self, ite_self]
  · intro n hn
    show _ = if _ then if _ then _ else _ else _
    rw [protocol_thread_some (h.thread_eq hn)]
    by_cases hr : n.requestId = neg.requestId
    · rw [if_pos hr]
      by_cases hs : n.supplierId = neg.supplierId
      · -- the winner
        obtain rfl := h.one_thread hneg hn hr hs
        rw [if_pos hs, hstate]
        unfold decided
        rw [if_pos rfl]
        rfl
      · -- its siblings
        have hnn : n.id ≠ neg.id := by
          intro he
          obtain rfl := h.negotiation_eq hn hneg he
          exact hs rfl
        rw [if_neg hs]
        refine threadState_sibling h hn hnn ?_
        rw [hloser n hn]
        exact ⟨fun hl => hl.2.1, fun ha => ⟨hr.trans hid.symm, ha, hnn⟩⟩
    · -- other requests
      have hnn : n.id ≠ neg.id := by
        intro he
        obtain rfl := h.negotiation_eq hn hneg he
        exact hr rfl
      have hnl : n.id ∉ losers := by
        rw [hloser n hn]
        exact fun hl => hr (hl.1.trans hid)
      rw [if_neg hr]
      unfold decided
      rw [if_neg hnn, if_neg hnl]
      exact threadState_congr rfl

end

/-! ## §4. The refinement. -/

section
variable {db : Db} {env : Env} {req : HttpRequest} {user : User}

/-- A decision passes its guards exactly when its action is enabled. -/
theorem decision_iff (h : Consistent db) {n : Id} {f : Negotiation → Action}
    (hf : ∀ neg, db.protocol.Enabled user.id user.role (f neg)
      ↔ db.protocol.OnTurn user.id neg.requestId neg.supplierId) :
    (∃ neg client ps last, neg.id = n ∧ Reading neg client ps db
        ∧ MayRespond user neg client ps last)
      ↔ ∃ a, (db.negotiation n).map f = some a ∧ db.protocol.Enabled user.id user.role a := by
  constructor
  · rintro ⟨neg, client, ps, last, rfl, hread, hm⟩
    have hturn := (h.responds_iff (lookup_mem hread.row) user).mp ⟨client, ps, last, hread, hm⟩
    exact ⟨f neg, congrArg (Option.map f) hread.row, (hf neg).mpr hturn⟩
  · rintro ⟨a, ha, hen⟩
    obtain ⟨neg, hrow, rfl⟩ := Option.map_eq_some_iff.mp ha
    obtain ⟨client, ps, last, hread, hm⟩ :=
      (h.responds_iff (lookup_mem hrow) user).mpr ((hf neg).mp hen)
    exact ⟨neg, client, ps, last, lookup_key hrow, hread, hm⟩

/-- **A call passes its guards exactly when its action is enabled.** -/
theorem executes_iff (h : Consistent db) (hk : req.key = none) (hu : db.user req.caller = some user)
    (hop : ∀ data, req.op ≠ .createRequest data) :
    (∃ o, Executes req user env o db)
      ↔ ∃ a, db.action req.op = some a ∧ db.protocol.Enabled user.id user.role a := by
  have hused : ∀ k, req.usedKey = some k → db.idempotencyKey k = none :=
    fun k hk' => absurd hk' (usedKey_ne hk k)
  have hexec : (∃ o, Executes req user env o db)
      ↔ req.Permits user ∧ ∃ o, Produces db user env req.op o := by
    constructor
    · rintro ⟨o, hx⟩
      exact ⟨hx.permits, o, hx.produces⟩
    · rintro ⟨hp, o, ho⟩
      exact ⟨o, hu, hp, hused, ho⟩
  rw [hexec]
  unfold HttpRequest.Permits
  cases hreq : req.op with
  | createRequest data => exact absurd hreq (hop data)
  | makeOffer rid data =>
      have habs := h.absent_iff rid user.id
      have hoffer : (∃ r, r.id = rid ∧ OfferReading r user.id false db ∧ r.status = .opened)
          ↔ (∃ owner, db.protocol.request rid = some ⟨owner, .opened⟩)
            ∧ db.thread rid user.id = none := Consistent.offers_iff
      constructor
      · rintro ⟨hp, o, ho⟩
        refine ⟨_, rfl, hp _ rfl, ?_⟩
        rw [habs]
        refine hoffer.mp ?_
        cases ho with
        | makeOffer data hread hopen => exact ⟨_, rfl, hread, hopen⟩
      · rintro ⟨a, ha, hen⟩
        obtain rfl := Option.some.inj ha
        obtain ⟨hrole, howner, hthread⟩ := hen
        obtain ⟨r, rfl, hread, hopen⟩ := hoffer.mpr ⟨howner, habs.mp hthread⟩
        refine ⟨?_, _, .makeOffer data hread hopen⟩
        intro r' hr'
        exact hrole.trans (Option.some.inj hr')
  -- a decision: no role is asked for, and its guards do not depend on what is decided
  | accept n =>
      refine Iff.trans ⟨fun hx => produces_accept_iff.mp hx.2, fun hx => ?_⟩
        (decision_iff h fun _ => Iff.rfl)
      exact ⟨fun r' hr' => absurd hr' (by simp [Op.role]), produces_accept_iff.mpr hx⟩
  | reject n =>
      refine Iff.trans ⟨fun hx => produces_reject_iff.mp hx.2, fun hx => ?_⟩
        (decision_iff h fun _ => Iff.rfl)
      exact ⟨fun r' hr' => absurd hr' (by simp [Op.role]), produces_reject_iff.mpr hx⟩
  | counter n data =>
      refine Iff.trans ⟨fun hx => produces_counter_iff.mp hx.2, fun hx => ?_⟩
        (decision_iff h fun _ => Iff.rfl)
      exact ⟨fun r' hr' => absurd hr' (by simp [Op.role]), produces_counter_iff.mpr hx⟩

/-- **A call that goes through commutes with its action.** -/
theorem executes_next (h : Consistent db) (hf : Fresh env db) {o : Produced}
    (hx : Executes req user env o db) {a : Action} (ha : db.action req.op = some a) :
    (engine.view (committedWrites req user o) db).protocol = db.protocol.next user.id a := by
  rw [view_committed]
  show (engine.view o.writes db).protocol = _
  have hadm := hf.admissible hx.produces
  have hp := hx.produces
  generalize req.op = op at hp ha
  cases hp with
  | createRequest data => exact absurd ha (by simp [Db.action])
  | makeOffer data hread ho =>
      obtain rfl := Option.some.inj ha
      exact protocol_makeOffer h (by simpa using hread.thread) (hf.unused .negotiations 0)
  | accept hread hm hrow =>
      simp only [Db.action, hread.row] at ha
      obtain rfl := Option.some.inj ha
      exact protocol_accept h hread hm hrow
  | reject hread hm =>
      simp only [Db.action, hread.row] at ha
      obtain rfl := Option.some.inj ha
      exact protocol_reject h hread hm
  | counter data hread hm =>
      simp only [Db.action, hread.row] at ha
      obtain rfl := Option.some.inj ha
      exact protocol_counter h hread hm (hadm.later _ (List.mem_cons_self ..))

end

/-- **The rows refine the protocol.**  On a reachable state, an offer or a
decision by an existing user succeeds exactly when the action it asks for is
enabled; the rows it leaves stand for the state behind that action; and when it
does not succeed the rows stay as they are. -/
theorem refines_protocol {db : Db} (h : Reachable db) {env : Env} (hf : Fresh env db)
    {req : HttpRequest} {user : User} (hk : req.key = none)
    (hu : db.user req.caller = some user) (hop : ∀ data, req.op ≠ .createRequest data) :
    ((∃ r, ((Call.post req).run env calm db).1 = .ok r)
        ↔ ∃ a, db.action req.op = some a ∧ db.protocol.Enabled user.id user.role a)
      ∧ (∀ a, db.action req.op = some a → db.protocol.Enabled user.id user.role a →
          ((Call.post req).run env calm db).2.protocol = db.protocol.next user.id a)
      ∧ ((∀ r, ((Call.post req).run env calm db).1 ≠ .ok r) →
          ((Call.post req).run env calm db).2 = db) := by
  have hc := h.consistent
  have hiff : (∃ o, Executes req user env o db)
      ↔ ∃ a, db.action req.op = some a ∧ db.protocol.Enabled user.id user.role a :=
    executes_iff hc hk hu hop
  rcases unkeyed_outcome req env hk hu with ⟨o, hexec, hrun⟩ | ⟨hno, e, hrun⟩
  · rw [hrun]
    refine ⟨⟨fun _ => hiff.mp ⟨o, hexec⟩, fun _ => ⟨_, rfl⟩⟩, ?_, ?_⟩
    · intro a ha _
      exact executes_next hc hf hexec ha
    · intro hfails
      exact absurd rfl (hfails _)
  -- no key, so no replay: the call is refused
  · have hx : ¬ ∃ o, Executes req user env o db := fun ⟨o, ho⟩ => hno o ho
    rw [hrun]
    refine ⟨⟨?_, ?_⟩, ?_, fun _ => rfl⟩
    · rintro ⟨r, hr⟩
      exact absurd hr (by simp)
    · intro hen
      exact absurd (hiff.mpr hen) hx
    · intro a ha hen
      exact absurd (hiff.mpr ⟨a, ha, hen⟩) hx

/-- The client accepts the first bid of the market: its thread is concluded at
100. -/
theorem refines_protocol_market :
    (market.after (.post (plain 1 (.accept 1)))).protocol.thread 1 2 = .accepted 100 := by
  have haccepted : ∀ db, Reachable db →
      db.user 1 = some ⟨1, "client", "password", .client, "name"⟩
        ∧ db.action (.accept 1) = some (.accept 1 2)
        ∧ db.protocol.thread 1 2 = .active .client 100 "COP"
        ∧ db.protocol.request 1 = some ⟨1, .opened⟩ →
      (db.after (.post (plain 1 (.accept 1)))).protocol.thread 1 2 = .accepted 100 := by
    rintro db hdb ⟨hu, haction, hthread, hreq⟩
    have henabled : db.protocol.Enabled 1 .client (.accept 1 2) := by
      refine ⟨.client, 100, "COP", hthread, ?_⟩
      show (db.protocol.request 1).map RequestState.owner = some 1
      rw [hreq]
      rfl
    have hkey : (plain 1 (.accept 1)).key = none := rfl
    have hnext := (refines_protocol hdb (Env.following_fresh db) hkey hu
      (by simp [plain])).2.1 _ haction henabled
    unfold Db.after
    rw [hnext]
    show (db.protocol.conclude 1 2).thread 1 2 = _
    simp only [Protocol.conclude, if_true, hthread]
    rfl
  exact haccepted market market_reachable (by decide +kernel)

end Procurement
