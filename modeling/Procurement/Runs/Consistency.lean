/-
  Procurement.Runs.Consistency
  ────────────────────────────
  **THE INVARIANT OF THE BUSINESS STATE.**

  `accept` never tests the status of the request.  That it closes a request
  once is a matter of three operations together: offers join open requests
  only, an acceptance leaves no active negotiation behind, and every decision
  asks for an active one.  `Settled` is the invariant they share; with the
  well-formed outline it is kept by every operation (`Consistent.produces`).

  The operations are asked for less than serial runs give: new ids are unused,
  and a proposal comes after the proposals of its own negotiation
  (`Admissible`).
-/
import Procurement.Runs.Outline

namespace Procurement

open Procurement.Framework

/-! ## §1. The invariant. -/

/-- What the status of a request says about its negotiations. -/
def RequestStands (r : ProductRequest) (ns : List Negotiation) : Prop :=
  (r.status = .opened ∧ ∀ n ∈ ns, n.status ≠ .accepted)
    ∨ (r.status = .closed ∧ ∃ w ∈ ns, w.status = .accepted
      ∧ ∀ n ∈ ns, n.id ≠ w.id → n.status = .rejected)

/-- What the status of a negotiation says about its agreed amount. -/
def AmountStands (n : Negotiation) (ps : List Proposal) : Prop :=
  (n.status = .accepted ∧ ∃ p, ps.getLast? = some p ∧ n.agreedAmount = some p.amount)
    ∨ (n.status ≠ .accepted ∧ n.agreedAmount = none)

structure Settled (db : Db) : Prop where
  requests : ∀ r ∈ db.requests, RequestStands r (db.negotiationsOf r.id)
  amounts : ∀ n ∈ db.negotiations, AmountStands n (db.proposalsOf n.id)

structure Consistent (db : Db) : Prop where
  outline : db.outline.WellFormed
  settled : Settled db

/-- The empty database is consistent. -/
theorem Consistent.empty : Consistent Db.empty where
  outline :=
    { userIds := List.nodup_nil
      requestIds := List.nodup_nil
      negotiationIds := List.nodup_nil
      owned := fun q hq => absurd hq (by simp [Db.outline, Db.empty])
      supplied := fun t ht => absurd ht (by simp [Db.outline, Db.empty])
      chains := fun t ht => absurd ht (by simp [Db.outline, Db.empty])
      single := fun t ht => absurd ht (by simp [Db.outline, Db.empty])
      known := fun p hp => absurd hp (by simp [Db.outline, Db.empty]) }
  settled :=
    { requests := fun r hr => absurd hr (by simp [Db.empty])
      amounts := fun n hn => absurd hn (by simp [Db.empty]) }

/-! ## §2. Rows and ids. -/

@[simp] theorem mem_negotiationsOf {db : Db} {i : Id} {n : Negotiation} :
    n ∈ db.negotiationsOf i ↔ n ∈ db.negotiations ∧ n.requestId = i := by
  simp [Db.negotiationsOf]

/-- The siblings of the winner are the other active negotiations of the request. -/
theorem mem_activeSiblings {db : Db} {rid w : Id} {n : Negotiation} :
    n ∈ db.activeSiblings rid w
      ↔ n ∈ db.negotiations ∧ n.requestId = rid ∧ n.status = .active ∧ n.id ≠ w := by
  simp [Db.activeSiblings]

namespace Consistent

variable {db : Db}

/-- No two users have one id. -/
theorem userIds (h : Consistent db) : (db.users.map User.id).Nodup := h.outline.userIds

/-- No two requests have one id. -/
theorem requestIds (h : Consistent db) : (db.requests.map ProductRequest.id).Nodup := by
  have hn := h.outline.requestIds
  unfold Db.outline at hn
  rwa [List.map_map] at hn

/-- No two negotiations have one id. -/
theorem negotiationIds (h : Consistent db) : (db.negotiations.map Negotiation.id).Nodup := by
  have hn := h.outline.negotiationIds
  unfold Db.outline at hn
  rwa [List.map_map] at hn

/-- A negotiation is known by its id. -/
theorem negotiation_eq (h : Consistent db) {n m : Negotiation} (hn : n ∈ db.negotiations)
    (hm : m ∈ db.negotiations) (hid : n.id = m.id) : n = m :=
  List.inj_on_of_nodup_map h.negotiationIds hn hm hid

/-- So is a request. -/
theorem request_eq (h : Consistent db) {r q : ProductRequest} (hr : r ∈ db.requests)
    (hq : q ∈ db.requests) (hid : r.id = q.id) : r = q :=
  List.inj_on_of_nodup_map h.requestIds hr hq hid

/-- The outline has the role of each user. -/
theorem hasRole {u : User} (hu : u ∈ db.users) : db.outline.HasRole u.id u.role :=
  ⟨u, hu, rfl, rfl⟩

/-- The request of a negotiation, and the chain of its proposals. -/
theorem chain (h : Consistent db) {n : Negotiation} (hn : n ∈ db.negotiations) :
    ∃ r ∈ db.requests, r.id = n.requestId ∧ Chain n.supplierId r.clientId (db.proposalsOf n.id) := by
  have ht : n.thread ∈ db.outline.threads := List.mem_map_of_mem hn
  obtain ⟨q, hq, hid, hc⟩ := h.outline.chains _ ht
  obtain ⟨r, hr, rfl⟩ := List.mem_map.mp hq
  exact ⟨r, hr, hid, hc⟩

/-- A row is found by its id. -/
theorem negotiation_of_mem (h : Consistent db) {n : Negotiation} (hn : n ∈ db.negotiations) :
    db.negotiation n.id = some n := lookup_of_mem h.negotiationIds hn

/-- So is a row of a request. -/
theorem request_of_mem (h : Consistent db) {r : ProductRequest} (hr : r ∈ db.requests) :
    db.request r.id = some r := lookup_of_mem h.requestIds hr

/-- The client of a negotiation. -/
theorem client (h : Consistent db) {n : Negotiation} (hn : n ∈ db.negotiations) :
    ∃ r ∈ db.requests, db.request n.requestId = some r
      ∧ Chain n.supplierId r.clientId (db.proposalsOf n.id) := by
  obtain ⟨r, hr, hid, hchain⟩ := h.chain hn
  rw [← hid]
  exact ⟨r, hr, h.request_of_mem hr, hchain⟩

/-- The request of a negotiation is there. -/
theorem request_mem (h : Consistent db) {n : Negotiation} (hn : n ∈ db.negotiations) :
    n.requestId ∈ db.ids .requests := by
  obtain ⟨r, hr, hid, _⟩ := h.chain hn
  exact List.mem_map.mpr ⟨r, hr, hid⟩

/-- The negotiation of a proposal is there. -/
theorem negotiation_mem (h : Consistent db) {p : Proposal} (hp : p ∈ db.proposals) :
    ∃ n ∈ db.negotiations, n.id = p.negotiationId := by
  obtain ⟨t, ht, hid⟩ := h.outline.known p hp
  obtain ⟨n, hn, rfl⟩ := List.mem_map.mp ht
  exact ⟨n, hn, hid⟩

/-- A supplier who has a negotiation on a request has no other on it. -/
theorem one_thread (h : Consistent db) {n m : Negotiation} (hn : n ∈ db.negotiations)
    (hm : m ∈ db.negotiations) (hr : m.requestId = n.requestId)
    (hs : m.supplierId = n.supplierId) : m = n :=
  h.negotiation_eq hm hn (h.outline.single m.thread (List.mem_map_of_mem hm) n.thread
    (List.mem_map_of_mem hn) hr hs)

/-- The chain behind the rows that a decision reads. -/
theorem reading (h : Consistent db) {neg : Negotiation} {client : Id} {ps : List Proposal}
    (hr : Reading neg client ps db) :
    neg ∈ db.negotiations ∧ ∃ req ∈ db.requests, req.id = neg.requestId ∧ req.clientId = client
      ∧ Chain neg.supplierId client ps := by
  have hneg : neg ∈ db.negotiations := lookup_mem hr.row
  refine ⟨hneg, ?_⟩
  obtain ⟨req, hreq, hclient⟩ := hr.owner
  obtain ⟨r, hrm, hid, hc⟩ := h.chain hneg
  have hrr : r = req := h.request_eq hrm (lookup_mem hreq) (hid.trans (lookup_key hreq).symm)
  subst hrr
  rw [hr.proposals, hclient] at hc
  exact ⟨r, hrm, hid, hclient, hc⟩

/-- The last proposal that is read is the last one of the chain. -/
theorem reading_last (h : Consistent db) {user : User} {neg : Negotiation} {client : Id}
    {ps : List Proposal} {last : Proposal} (hr : Reading neg client ps db)
    (hm : MayRespond user neg client ps last) : ps.getLast? = some last := by
  obtain ⟨_, _, _, _, _, hc⟩ := h.reading hr
  rw [← hc.argmax]
  exact hm.isLast

/-- An unused id has no proposals. -/
theorem proposalsOf_new (h : Consistent db) {i : Id} (hi : i ∉ db.ids .negotiations) :
    db.proposalsOf i = [] := by
  refine h.outline.proposalsOf_new ?_
  unfold Db.outline
  rw [List.map_map]
  exact hi

/-- In a consistent state `ORDER BY id` is the order of the table. -/
theorem chain_eq (h : Consistent db) (i : Id) : db.chain i = db.proposalsOf i := by
  unfold Db.chain
  by_cases hi : i ∈ db.ids .negotiations
  · obtain ⟨n, hn, rfl⟩ := List.mem_map.mp hi
    obtain ⟨_, _, _, hchain⟩ := h.chain hn
    exact hchain.orderById
  · rw [h.proposalsOf_new hi]
    rfl

/-- An accepted row and an active row are two rows. -/
theorem id_ne (h : Consistent db) {n m : Negotiation} (hn : n ∈ db.negotiations)
    (hm : m ∈ db.negotiations) (hs : n.status = .accepted) (ha : m.status = .active) :
    n.id ≠ m.id := by
  intro hid
  obtain rfl := h.negotiation_eq hn hm hid
  rw [hs] at ha
  exact absurd ha (by simp)

/-- An active negotiation has agreed on nothing. -/
theorem agreed_none (h : Consistent db) {n : Negotiation} (hn : n ∈ db.negotiations)
    (ha : n.status = .active) : n.agreedAmount = none := by
  rcases h.settled.amounts n hn with ⟨hs, _⟩ | ⟨_, hnone⟩
  · rw [ha] at hs
    exact absurd hs (by simp)
  · exact hnone

/-- **A request with an active negotiation is open.** -/
theorem open_of_active (h : Consistent db) {n : Negotiation} {r : ProductRequest}
    (hn : n ∈ db.negotiations) (ha : n.status = .active) (hr : r ∈ db.requests)
    (hid : r.id = n.requestId) :
    r.status = .opened ∧ ∀ m ∈ db.negotiationsOf r.id, m.status ≠ .accepted := by
  rcases h.settled.requests r hr with ho | ⟨_, w, hw, hwa, hall⟩
  · exact ho
  · -- in a closed request nothing is active
    have hmem : n ∈ db.negotiationsOf r.id := mem_negotiationsOf.mpr ⟨hn, hid.symm⟩
    have hrej := hall n hmem (h.id_ne (mem_negotiationsOf.mp hw).1 hn hwa ha).symm
    rw [ha] at hrej
    exact absurd hrej (by simp)

end Consistent

/-! ## §3. Admissible commits. -/

/-- The ids of new requests and negotiations are unused, and new proposals come
after those of their negotiation. -/
structure Admissible (ws : List Write) (db : Db) : Prop where
  requests : ∀ r, .insertRequest r ∈ ws → r.id ∉ db.ids .requests
  negotiations : ∀ n, .insertNegotiation n ∈ ws → n.id ∉ db.ids .negotiations
  later : ∀ p, .insertProposal p ∈ ws → ∀ q ∈ db.proposalsOf p.negotiationId, q.id < p.id

/-- A number of the environment is no id yet. -/
theorem Fresh.unused {env : Env} {db : Db} (h : Fresh env db) (t : Table) (k : Nat) :
    (env.supply t k).id ∉ db.ids t := by
  intro hmem
  exact lt_irrefl _ (h.above t k _ hmem)

/-- What an operation inserts has numbers of the environment, so it may be inserted. -/
theorem Fresh.admissible {db : Db} {user : User} {env : Env} {op : Op} {o : Produced}
    (hf : Fresh env db) (h : Produces db user env op o) : Admissible o.writes db where
  requests := by
    intro r hr
    obtain ⟨k, hk⟩ := h.stamp hr rfl
    rw [hk]
    exact hf.unused .requests k
  negotiations := by
    intro n hn
    obtain ⟨k, hk⟩ := h.stamp hn rfl
    rw [hk]
    exact hf.unused .negotiations k
  later := by
    intro p hp q hq
    obtain ⟨k, hk⟩ := h.stamp hp rfl
    have hmem : q ∈ db.proposals := List.mem_of_mem_filter hq
    rw [hk]
    exact hf.above .proposals k q.id (List.mem_map_of_mem hmem)

/-! ## §4. Every operation keeps the invariant. -/

namespace Consistent

variable {db : Db} {env : Env} {user : User}

/-- **A registration keeps the state consistent.** -/
theorem register (h : Consistent db) (hu : (env.stamp .users).id ∉ db.ids .users)
    (data : RegisterIn) : Consistent (engine.view (registerWrites env data) db) where
  outline := h.outline.addUser hu
  settled := ⟨h.settled.requests, h.settled.amounts⟩

/-- **A request of a client keeps it consistent**: it is open and has no winner. -/
theorem createRequest (h : Consistent db) (hu : user ∈ db.users) (hrole : user.role = .client)
    (hfresh : (env.stamp .requests).id ∉ db.ids .requests) (data : ProductRequestIn) :
    Consistent (engine.view (createWrites env user data) db) where
  outline := by
    have hq : (env.createdRequest user data).id ∉ db.outline.owners.map Ownership.id := by
      unfold Db.outline
      rw [List.map_map]
      exact hfresh
    have hc : db.outline.HasRole user.id .client := hrole ▸ hasRole hu
    have hgrow := h.outline.addRequest (q := (env.createdRequest user data).ownership) hq hc
    unfold Db.outline
    show Outline.WellFormed
      ⟨db.users, (db.requests ++ [env.createdRequest user data]).map _, _, db.proposals⟩
    rw [List.map_append]
    exact hgrow
  settled :=
    { requests := by
        intro r hr
        rcases List.mem_append.mp hr with hr | hr
        · exact h.settled.requests r hr
        · -- the new request has no negotiation
          obtain rfl : r = env.createdRequest user data := by simpa using hr
          left
          refine ⟨rfl, ?_⟩
          intro n hn
          obtain ⟨hn, hid⟩ := mem_negotiationsOf.mp hn
          have hrid := h.request_mem hn
          rw [hid] at hrid
          exact absurd hrid hfresh
      amounts := h.settled.amounts }

/-- **An offer keeps it consistent**: it opens a chain with one proposal, the supplier's. -/
theorem makeOffer (h : Consistent db) (hu : user ∈ db.users) (hrole : user.role = .supplier)
    {req : ProductRequest} {data : OfferIn} (hread : OfferReading req user.id false db)
    (ho : req.status = .opened) (hfresh : (env.stamp .negotiations).id ∉ db.ids .negotiations) :
    Consistent (engine.view (offerWrites env user req.id data) db) := by
  have hreq : req ∈ db.requests := lookup_mem hread.row
  have hnew : (env.offered user req.id).thread.id ∉ db.outline.threads.map Thread.id := by
    unfold Db.outline
    rw [List.map_map]
    exact hfresh
  -- the supplier had no negotiation on this request
  have hfree : ∀ n ∈ db.negotiations, ¬ (n.requestId = req.id ∧ n.supplierId = user.id) := by
    have hnone : db.thread req.id user.id = none := by simpa using hread.thread
    unfold Db.thread at hnone
    rw [List.find?_eq_none] at hnone
    intro n hn hboth
    exact hnone n hn (by simpa using hboth)
  have hproposals : ∀ i, (db.proposals ++ [env.opening user req.id data]).filter
      (fun q => q.negotiationId = i) = db.proposalsOf i
        ++ if (env.stamp .negotiations).id = i then [env.opening user req.id data] else [] :=
    Outline.WellFormed.proposalsOf_append db.outline _
  refine ⟨?_, ?_, ?_⟩
  · have hsup : db.outline.HasRole user.id .supplier := hrole ▸ hasRole hu
    have hgrow := h.outline.addOffer (t := (env.offered user req.id).thread)
      (p := env.opening user req.id data) hnew hsup
      ⟨req.ownership, List.mem_map_of_mem hreq, rfl⟩ ?_ rfl rfl hrole rfl
    · unfold Db.outline
      show Outline.WellFormed ⟨db.users, _, (db.negotiations ++ [env.offered user req.id]).map _, _⟩
      rw [List.map_append]
      exact hgrow
    · intro u hu' hboth
      obtain ⟨n, hn, rfl⟩ := List.mem_map.mp hu'
      exact hfree n hn hboth
  · intro r hr
    have hr' : r ∈ db.requests := hr
    have hmem : ∀ n, n ∈ (engine.view (offerWrites env user req.id data) db).negotiationsOf r.id ↔
        n ∈ db.negotiationsOf r.id ∨ n = env.offered user req.id ∧ req.id = r.id := by
      intro n
      rw [mem_negotiationsOf, mem_negotiationsOf]
      show n ∈ db.negotiations ++ [env.offered user req.id] ∧ _ ↔ _
      rw [List.mem_append, List.mem_singleton]
      constructor
      · rintro ⟨hn | rfl, hid⟩
        · exact Or.inl ⟨hn, hid⟩
        · exact Or.inr ⟨rfl, hid⟩
      · rintro (⟨hn, hid⟩ | ⟨rfl, hid⟩)
        · exact ⟨Or.inl hn, hid⟩
        · exact ⟨Or.inr rfl, hid⟩
    by_cases hid : req.id = r.id
    · -- the request that receives the offer is open
      obtain rfl : req = r := h.request_eq hreq hr' hid
      rcases h.settled.requests req hreq with ⟨_, hnone⟩ | ⟨hc, _⟩
      · left
        refine ⟨ho, ?_⟩
        intro n hn
        rcases (hmem n).mp hn with hn | ⟨rfl, _⟩
        · exact hnone n hn
        · simp [Env.offered, Env.newNegotiation]
      · rw [ho] at hc
        exact absurd hc (by simp)
    · have hsame : (engine.view (offerWrites env user req.id data) db).negotiationsOf r.id
          = db.negotiationsOf r.id := by
        show (db.negotiations ++ [env.offered user req.id]).filter _ = db.negotiations.filter _
        rw [List.filter_append]
        simp [Env.offered, Env.newNegotiation, hid]
      rw [hsame]
      exact h.settled.requests r hr'
  · intro n hn
    show AmountStands n ((db.proposals ++ [env.opening user req.id data]).filter _)
    rw [hproposals]
    rcases List.mem_append.mp hn with hn | hn
    -- the opening offer belongs to the new negotiation, whose id is fresh
    · have hne : (env.stamp .negotiations).id ≠ n.id :=
        fun he => hfresh (List.mem_map.mpr ⟨n, hn, he.symm⟩)
      rw [if_neg hne, List.append_nil]
      exact h.settled.amounts n hn
    · obtain rfl : n = env.offered user req.id := by simpa using hn
      right
      exact ⟨by simp [Env.offered, Env.newNegotiation], rfl⟩

section
variable {neg : Negotiation} {client : Id} {ps : List Proposal} {last : Proposal}

/-- **A counter keeps it consistent**: it goes on a chain on its other side. -/
theorem counter (h : Consistent db) (hu : user ∈ db.users) {data : CounterIn}
    (hread : Reading neg client ps db) (hm : MayRespond user neg client ps last)
    (hlater : ∀ q ∈ db.proposalsOf neg.id, q.id < (env.stamp .proposals).id) :
    Consistent (engine.view (counterWrites env user neg last data) db) := by
  obtain ⟨hneg, req, hreq, hid, hclient, _⟩ := h.reading hread
  have hl : (db.proposalsOf neg.id).getLast? = some last := by
    rw [hread.proposals]
    exact h.reading_last hread hm
  refine ⟨?_, h.settled.requests, ?_⟩
  · refine h.outline.addCounter (t := neg.thread) (q := req.ownership) (u := user)
      (List.mem_map_of_mem hneg) (List.mem_map_of_mem hreq) hid hl rfl hu rfl rfl ?_
      hm.counterparty rfl rfl hlater
    show user.id = req.clientId ∨ _
    rw [hclient]
    exact hm.participant
  · intro n hn
    have hn' : n ∈ db.negotiations := hn
    have hproposals : (db.proposals ++ [env.countered user neg last data]).filter
        (fun q => q.negotiationId = n.id) = db.proposalsOf n.id
          ++ if neg.id = n.id then [env.countered user neg last data] else [] :=
      Outline.WellFormed.proposalsOf_append db.outline _ _
    show AmountStands n ((db.proposals ++ [env.countered user neg last data]).filter _)
    rw [hproposals]
    by_cases hnn : neg.id = n.id
    · -- an active negotiation has agreed on nothing
      obtain rfl : neg = n := h.negotiation_eq hneg hn' hnn
      exact Or.inr ⟨by simp [hm.active], h.agreed_none hneg hm.active⟩
    · rw [if_neg hnn, List.append_nil]
      exact h.settled.amounts n hn'

/-- Decisions leave the outline alone. -/
theorem outline_map (g : Negotiation → Negotiation) (f : ProductRequest → ProductRequest)
    (hg : ∀ n, (g n).thread = n.thread) (hf : ∀ r, (f r).ownership = r.ownership) (db : Db) :
    ({ db with requests := db.requests.map f, negotiations := db.negotiations.map g } : Db).outline
      = db.outline := by
  unfold Db.outline
  simp only [List.map_map]
  congr 1
  · exact List.map_congr_left fun r _ => hf r
  · exact List.map_congr_left fun n _ => hg n

/-- A rejection moves no negotiation to another thread. -/
theorem rejected_thread (n : Negotiation) (i : Id) :
    (if n.id = i then Decision.rejected.on n else n).thread = n.thread := by
  split <;> rfl

/-- **A rejection keeps it consistent**: it decides one negotiation, on no amount. -/
theorem reject (h : Consistent db) (hread : Reading neg client ps db)
    (hm : MayRespond user neg client ps last) :
    Consistent (engine.view (rejectWrites env user neg) db) := by
  have hneg : neg ∈ db.negotiations := lookup_mem hread.row
  refine ⟨?_, ?_, ?_⟩
  · have hout := outline_map (fun n => if n.id = neg.id then Decision.rejected.on n else n) id
      (fun n => rejected_thread n neg.id) (fun _ => rfl) db
    rw [List.map_id] at hout
    exact hout ▸ h.outline
  · intro r hr
    have hr' : r ∈ db.requests := hr
    -- a row of the new state is the rejected one, or an old row that stayed
    have hmem : ∀ n ∈ (engine.view (rejectWrites env user neg) db).negotiationsOf r.id,
        n.status = .rejected ∨ n ∈ db.negotiationsOf r.id ∧ n.id ≠ neg.id := by
      intro n hn
      obtain ⟨hn, hnid⟩ := mem_negotiationsOf.mp hn
      obtain ⟨m, hm', rfl⟩ := List.mem_map.mp hn
      by_cases hmn : m.id = neg.id
      · left
        rw [if_pos hmn]
        rfl
      · right
        rw [if_neg hmn] at hnid ⊢
        exact ⟨mem_negotiationsOf.mpr ⟨hm', hnid⟩, hmn⟩
    rcases h.settled.requests r hr' with ⟨ho, hnone⟩ | ⟨hcl, w, hw, hwa, hall⟩
    · left
      refine ⟨ho, ?_⟩
      intro n hn
      rcases hmem n hn with hrej | ⟨hn, _⟩
      · rw [hrej]
        simp
      · exact hnone n hn
    · -- a closed request: the rejected negotiation is on another one
      right
      have hne : w.id ≠ neg.id := h.id_ne (mem_negotiationsOf.mp hw).1 hneg hwa hm.active
      refine ⟨hcl, w, ?_, hwa, ?_⟩
      · obtain ⟨hwm, hwid⟩ := mem_negotiationsOf.mp hw
        exact mem_negotiationsOf.mpr ⟨List.mem_map.mpr ⟨w, hwm, if_neg hne⟩, hwid⟩
      · intro n hn hnw
        rcases hmem n hn with hrej | ⟨hn, _⟩
        · exact hrej
        · exact hall n hn hnw
  · intro n hn
    obtain ⟨m, hm', rfl⟩ := List.mem_map.mp hn
    by_cases hmn : m.id = neg.id
    · obtain rfl : m = neg := h.negotiation_eq hm' hneg hmn
      rw [if_pos rfl]
      have hnone : m.agreedAmount = none := h.agreed_none hneg hm.active
      exact Or.inr ⟨by simp [Decision.on], hnone⟩
    · rw [if_neg hmn]
      exact h.settled.amounts m hm'

/-- A negotiation beside the winner that is not accepted is rejected then. -/
theorem decided_rejected {w : Id} {a : Amount} {ls : List Id} {n : Negotiation} (hne : n.id ≠ w)
    (hl : n.status = .active → n.id ∈ ls) (hacc : n.status ≠ .accepted) :
    (decided w a ls n).status = .rejected := by
  unfold decided
  rw [if_neg hne]
  split
  · rfl
  · cases hs : n.status with
    | active => exact absurd (hl hs) ‹_›
    | accepted => exact absurd hs hacc
    | rejected => rfl

/-- An acceptance moves none either. -/
theorem decided_thread (w : Id) (a : Amount) (ls : List Id) (n : Negotiation) :
    (decided w a ls n).thread = n.thread := by
  unfold Negotiation.thread
  rw [decided_id, decided_requestId, decided_supplierId]

/-- The rows named by the losers' ids are the active siblings. -/
theorem mem_sibling_ids (h : Consistent db) {n : Negotiation} (hn : n ∈ db.negotiations)
    {rid w : Id} :
    n.id ∈ (env.order (db.activeSiblings rid w)).map Negotiation.id
      ↔ n.requestId = rid ∧ n.status = .active ∧ n.id ≠ w := by
  rw [List.mem_map]
  constructor
  · rintro ⟨m, hm, hid⟩
    have hm' := mem_activeSiblings.mp ((env.order_perm _).mem_iff.mp hm)
    obtain rfl : m = n := h.negotiation_eq hm'.1 hn hid
    exact hm'.2
  · intro hcond
    exact ⟨n, (env.order_perm _).mem_iff.mpr (mem_activeSiblings.mpr ⟨hn, hcond⟩), rfl⟩

/-- **An acceptance keeps it consistent**: it closes its request with one winner, at the last
price of his chain. -/
theorem accept (h : Consistent db) {req : ProductRequest} (hread : Reading neg client ps db)
    (hm : MayRespond user neg client ps last) (hrow : db.request neg.requestId = some req) :
    Consistent (engine.view (acceptWrites env user neg last req
      (env.order (db.activeSiblings req.id neg.id))) db) := by
  have hneg : neg ∈ db.negotiations := lookup_mem hread.row
  have hreq : req ∈ db.requests := lookup_mem hrow
  have hid : req.id = neg.requestId := lookup_key hrow
  have hnone := (h.open_of_active hneg hm.active hreq hid).2
  rw [view_accept _ _ _ _ _ _ _ winner_not_sibling]
  generalize hls : (env.order (db.activeSiblings req.id neg.id)).map Negotiation.id = ls
  have hloser : ∀ n ∈ db.negotiations, n.id ∈ ls ↔
      n.requestId = req.id ∧ n.status = .active ∧ n.id ≠ neg.id := by
    intro n hn
    rw [← hls]
    exact h.mem_sibling_ids hn
  -- on other requests nothing changes
  have hother : ∀ n ∈ db.negotiations, n.requestId ≠ req.id →
      decided neg.id last.amount ls n = n := by
    intro n hn hne
    unfold decided
    have hnn : n.id ≠ neg.id := by
      intro he
      obtain rfl : n = neg := h.negotiation_eq hn hneg he
      exact hne hid.symm
    rw [if_neg hnn, if_neg fun hmem => hne ((hloser n hn).mp hmem).1]
  refine ⟨?_, ?_, ?_⟩
  · have hout := outline_map (decided neg.id last.amount ls)
      (fun r => if r.id = req.id then { r with status := .closed } else r)
      (decided_thread _ _ _) (by intro r; split <;> rfl) db
    exact hout ▸ h.outline
  · intro r hr
    obtain ⟨q, hq, rfl⟩ := List.mem_map.mp hr
    by_cases hqr : q.id = req.id
    · -- the request of the acceptance: closed, with one winner
      obtain rfl : q = req := h.request_eq hq hreq hqr
      rw [if_pos rfl]
      right
      refine ⟨rfl, decided neg.id last.amount ls neg, ?_, ?_, ?_⟩
      · rw [mem_negotiationsOf]
        exact ⟨List.mem_map_of_mem hneg, by rw [decided_requestId]; exact hid.symm⟩
      · unfold decided
        rw [if_pos rfl]
        rfl
      · intro n hn hne
        obtain ⟨hn, hnid⟩ := mem_negotiationsOf.mp hn
        obtain ⟨m, hm', rfl⟩ := List.mem_map.mp hn
        rw [decided_id, decided_id] at hne
        rw [decided_requestId] at hnid
        refine decided_rejected hne ?_ (hnone m (mem_negotiationsOf.mpr ⟨hm', hnid⟩))
        exact fun hact => (hloser m hm').mpr ⟨hnid, hact, hne⟩
    · rw [if_neg hqr]
      have hsame : (db.negotiations.map (decided neg.id last.amount ls)).filter
          (fun n => n.requestId = q.id) = db.negotiationsOf q.id := by
        rw [List.filter_map]
        have hpred : (fun n : Negotiation => decide (n.requestId = q.id)) ∘
            decided neg.id last.amount ls = fun n => decide (n.requestId = q.id) := by
          funext n
          simp
        rw [hpred]
        conv_rhs => rw [← List.map_id (db.negotiationsOf q.id)]
        refine List.map_congr_left fun n hn => ?_
        obtain ⟨hn, hnid⟩ := mem_negotiationsOf.mp hn
        exact hother n hn (hnid ▸ hqr)
      show RequestStands q ((db.negotiations.map (decided neg.id last.amount ls)).filter _)
      rw [hsame]
      exact h.settled.requests q hq
  · intro n hn
    obtain ⟨m, hm', rfl⟩ := List.mem_map.mp hn
    rw [decided_id]
    show AmountStands _ (db.proposalsOf m.id)
    unfold decided
    by_cases hmn : m.id = neg.id
    · obtain rfl : m = neg := h.negotiation_eq hm' hneg hmn
      rw [if_pos rfl, hread.proposals]
      exact Or.inl ⟨rfl, last, h.reading_last hread hm, rfl⟩
    · rw [if_neg hmn]
      by_cases hl : m.id ∈ ls
      · -- a loser was active, so it had agreed on nothing
        rw [if_pos hl]
        have hnone : m.agreedAmount = none := h.agreed_none hm' ((hloser m hm').mp hl).2.1
        exact Or.inr ⟨by simp [Decision.on], hnone⟩
      · rw [if_neg hl]
        exact h.settled.amounts m hm'

end

/-- **Every operation that goes through keeps the invariant.** -/
theorem produces (h : Consistent db) {req : HttpRequest} {o : Produced}
    (hx : Executes req user env o db) (ha : Admissible o.writes db) :
    Consistent (engine.view o.writes db) := by
  have hu : user ∈ db.users := lookup_mem hx.caller
  have hp := hx.produces
  have hrole := hx.permits
  unfold HttpRequest.Permits at hrole
  generalize req.op = op at hp hrole
  cases hp with
  | createRequest data =>
      exact h.createRequest hu (hrole _ rfl) (ha.requests _ (List.mem_cons_self ..)) data
  | makeOffer data hread ho =>
      exact h.makeOffer hu (hrole _ rfl) hread ho (ha.negotiations _ (List.mem_cons_self ..))
  | accept hread hm hrow => exact h.accept hread hm hrow
  | reject hread hm => exact h.reject hread hm
  | counter data hread hm =>
      exact h.counter hu hread hm (ha.later _ (List.mem_cons_self ..))

/-- The row of the key is outside the invariant. -/
theorem committed (h : Consistent db) {req : HttpRequest} {o : Produced}
    (hx : Executes req user env o db) (ha : Admissible o.writes db) :
    Consistent (engine.view (committedWrites req user o) db) := by
  rw [view_committed]
  have hp := h.produces hx ha
  exact ⟨hp.outline, hp.settled.requests, hp.settled.amounts⟩

end Consistent

/-- **Every reachable state is consistent.** -/
theorem Reachable.consistent {db : Db} (h : Reachable db) : Consistent db := by
  refine h.invariant Consistent.empty ?_
  intro db db' _ hc hs
  cases hs.cases with
  | nothing => exact hc
  | registered env data hf hfree => exact hc.register (hf.unused .users 0) data
  | executed hf hx => exact hc.committed hx (hf.admissible hx.produces)

end Procurement
