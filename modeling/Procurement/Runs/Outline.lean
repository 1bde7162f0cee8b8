/-
  Procurement.Runs.Outline
  ────────────────────────
  **WHO NEGOTIATES WITH WHOM, AND THE CHAINS OF PROPOSALS.**

  The outline of a database keeps the columns that no UPDATE writes: the users,
  who owns which request, who supplies in which negotiation, and the
  proposals.  Decisions leave it alone, so what it says about chains is kept by
  four kinds of growth only: a user, a request, a negotiation with its opening
  offer, a counterproposal.

  `Chain` is the shape of one negotiation's proposals: supplier and client
  alternate, the supplier opens, the currency never changes.
-/
import Procurement.Runs.Step

namespace Procurement

open Procurement.Framework

/-! ## §1. Chains. -/

/-- The party whose turn proposal number `i` is. -/
def seat (supplierId clientId : Id) (i : Nat) : Id := if i % 2 = 0 then supplierId else clientId

def seatRole (i : Nat) : Role := if i % 2 = 0 then .supplier else .client

def kindAt (i : Nat) : ProposalKind := if i = 0 then .offer else .counter

/-- The proposals of one negotiation, in the order of their ids. -/
structure Chain (supplierId clientId : Id) (ps : List Proposal) : Prop where
  nonempty : ps ≠ []
  increasing : ps.Pairwise fun p q => p.id < q.id
  shape : ∃ currency, ∀ i p, ps[i]? = some p →
    p.actorId = seat supplierId clientId i ∧ p.actorRole = seatRole i ∧ p.kind = kindAt i
      ∧ p.currency = currency

/-- The two parties take turns: who is not on turn `n` is on turn `n + 1`. -/
theorem seat_succ {s c x : Id} {n : Nat} (hx : x = c ∨ x = s) (hne : seat s c n ≠ x) :
    x = seat s c (n + 1) := by
  unfold seat at hne ⊢
  rcases Nat.mod_two_eq_zero_or_one n with hn | hn
  · have hs : (n + 1) % 2 ≠ 0 := by omega
    rw [if_pos hn] at hne
    rw [if_neg hs]
    rcases hx with rfl | rfl
    · rfl
    · exact absurd rfl hne
  · have hn0 : n % 2 ≠ 0 := by omega
    have hs : (n + 1) % 2 = 0 := by omega
    rw [if_neg hn0] at hne
    rw [if_pos hs]
    rcases hx with rfl | rfl
    · exact absurd rfl hne
    · rfl

/-- The opening offer is a chain. -/
theorem Chain.opening {s c : Id} {p : Proposal} (ha : p.actorId = s) (hr : p.actorRole = .supplier)
    (hk : p.kind = .offer) : Chain s c [p] where
  nonempty := by simp
  increasing := List.pairwise_singleton _ _
  shape := by
    refine ⟨p.currency, ?_⟩
    intro i q hq
    -- only position 0 is taken
    have hi : i = 0 := by
      by_contra hne
      rw [List.getElem?_eq_none (by simp; omega)] at hq
      exact absurd hq (by simp)
    subst hi
    obtain rfl : p = q := by simpa using hq
    exact ⟨ha, hr, hk, rfl⟩

section
variable {s c : Id} {ps : List Proposal} {last : Proposal}

/-- The last proposal stands at the end of the chain. -/
theorem getElem?_of_getLast? (hl : ps.getLast? = some last) :
    0 < ps.length ∧ ps[ps.length - 1]? = some last := by
  rw [List.getLast?_eq_getElem?] at hl
  refine ⟨?_, hl⟩
  by_contra h0
  have hnil : ps = [] := List.length_eq_zero_iff.mp (by omega)
  rw [hnil] at hl
  exact absurd hl (by simp)

/-- Who made the last proposal. -/
theorem Chain.last_actor (h : Chain s c ps) (hl : ps.getLast? = some last) :
    last.actorId = seat s c (ps.length - 1) := by
  obtain ⟨_, hlast⟩ := getElem?_of_getLast? hl
  obtain ⟨cur, hshape⟩ := h.shape
  exact (hshape _ _ hlast).1

/-- **Answering the last proposal** by the other party, in the same currency,
continues the chain. -/
theorem Chain.answer (h : Chain s c ps) {p : Proposal} (hl : ps.getLast? = some last)
    (hx : p.actorId = c ∨ p.actorId = s) (hturn : last.actorId ≠ p.actorId)
    (hrole : p.actorId = seat s c ps.length → p.actorRole = seatRole ps.length)
    (hk : p.kind = .counter) (hcur : p.currency = last.currency)
    (hid : ∀ q ∈ ps, q.id < p.id) : Chain s c (ps ++ [p]) := by
  obtain ⟨hpos, hlast⟩ := getElem?_of_getLast? hl
  obtain ⟨cur, hshape⟩ := h.shape
  -- it is a party, and not the one who moved last: the seat is the next one
  have hactor : p.actorId = seat s c ps.length := by
    have hne : seat s c (ps.length - 1) ≠ p.actorId := h.last_actor hl ▸ hturn
    have hnext := seat_succ hx hne
    rwa [Nat.sub_add_cancel hpos] at hnext
  refine ⟨by simp, ?_, cur, ?_⟩
  · rw [List.pairwise_append]
    refine ⟨h.increasing, List.pairwise_singleton _ _, ?_⟩
    intro a ha b hb
    obtain rfl : b = p := by simpa using hb
    exact hid a ha
  · intro i q hq
    rcases Nat.lt_trichotomy i ps.length with hi | hi | hi
    · -- an old proposal
      rw [List.getElem?_append_left hi] at hq
      exact hshape i q hq
    · -- the new one
      subst hi
      obtain rfl : p = q := by simpa using hq
      have hkind : kindAt ps.length = .counter := if_neg (by omega)
      refine ⟨hactor, hrole hactor, hk.trans hkind.symm, ?_⟩
      rw [hcur]
      exact (hshape _ _ hlast).2.2.2
    · rw [List.getElem?_eq_none (by simp; omega)] at hq
      exact absurd hq (by simp)

/-- In a chain, the proposal with the greatest id is the last one. -/
theorem Chain.argmax (h : Chain s c ps) : ps.argmax Proposal.id = ps.getLast? :=
  argmax_eq_getLast? h.increasing

/-- In a chain, `ORDER BY id` is the order of the table. -/
theorem Chain.orderById (h : Chain s c ps) : orderById ps = ps :=
  insertionSort_eq_self h.increasing

end

/-! ## §2. Outlines. -/

/-- A request and its owner. -/
structure Ownership where
  id : Id
  clientId : Id

/-- A negotiation and its parties. -/
structure Thread where
  id : Id
  requestId : Id
  supplierId : Id

def ProductRequest.ownership (r : ProductRequest) : Ownership := ⟨r.id, r.clientId⟩

def Negotiation.thread (n : Negotiation) : Thread := ⟨n.id, n.requestId, n.supplierId⟩

/-- The columns that no UPDATE writes. -/
structure Outline where
  users : List User
  owners : List Ownership
  threads : List Thread
  proposals : List Proposal

def Db.outline (db : Db) : Outline where
  users := db.users
  owners := db.requests.map ProductRequest.ownership
  threads := db.negotiations.map Negotiation.thread
  proposals := db.proposals

namespace Outline

def HasRole (o : Outline) (i : Id) (role : Role) : Prop := ∃ u ∈ o.users, u.id = i ∧ u.role = role

def proposalsOf (o : Outline) (i : Id) : List Proposal :=
  o.proposals.filter fun p => p.negotiationId = i

/-- Ids are unique, references lead somewhere, clients own and suppliers
supply, a supplier has one negotiation on a request, and every negotiation has
its chain. -/
structure WellFormed (o : Outline) : Prop where
  userIds : (o.users.map User.id).Nodup
  requestIds : (o.owners.map Ownership.id).Nodup
  negotiationIds : (o.threads.map Thread.id).Nodup
  owned : ∀ q ∈ o.owners, o.HasRole q.clientId .client
  supplied : ∀ t ∈ o.threads, o.HasRole t.supplierId .supplier
  chains : ∀ t ∈ o.threads, ∃ q ∈ o.owners, q.id = t.requestId
    ∧ Chain t.supplierId q.clientId (o.proposalsOf t.id)
  single : ∀ t ∈ o.threads, ∀ u ∈ o.threads, t.requestId = u.requestId →
    t.supplierId = u.supplierId → t.id = u.id
  known : ∀ p ∈ o.proposals, ∃ t ∈ o.threads, t.id = p.negotiationId

end Outline

/-! ## §3. The four kinds of growth. -/

theorem nodup_concat {α : Type} {l : List α} {a : α} (h : l.Nodup) (ha : a ∉ l) :
    (l ++ [a]).Nodup := by
  rw [List.nodup_append]
  refine ⟨h, by simp, ?_⟩
  intro b hb c hc
  obtain rfl : c = a := by simpa using hc
  exact fun hbc => ha (hbc ▸ hb)

namespace Outline.WellFormed

variable {o : Outline}

/-- A user has one role. -/
theorem role_unique (h : o.WellFormed) {i : Id} {u : User} (hu : u ∈ o.users) (hi : u.id = i)
    {r : Role} (hr : o.HasRole i r) : u.role = r := by
  obtain ⟨v, hv, hvi, rfl⟩ := hr
  rw [List.inj_on_of_nodup_map h.userIds hu hv (hi.trans hvi.symm)]

/-- The two parties of a negotiation are different users. -/
theorem parties_ne (h : o.WellFormed) {i j : Id} (hi : o.HasRole i .supplier)
    (hj : o.HasRole j .client) : i ≠ j := by
  rintro rfl
  obtain ⟨u, hu, hui, hur⟩ := hi
  have hc := h.role_unique hu hui hj
  rw [hur] at hc
  exact absurd hc (by simp)

theorem addUser (h : o.WellFormed) {u : User} (hu : u.id ∉ o.users.map User.id) :
    ({ o with users := o.users ++ [u] } : Outline).WellFormed := by
  have hgrow : ∀ i r, o.HasRole i r → ({ o with users := o.users ++ [u] } : Outline).HasRole i r := by
    intro i r hr
    obtain ⟨v, hv, hvi, hvr⟩ := hr
    exact ⟨v, List.mem_append_left _ hv, hvi, hvr⟩
  exact
    { userIds := by
        show ((o.users ++ [u]).map User.id).Nodup
        rw [List.map_append]
        exact nodup_concat h.userIds hu
      requestIds := h.requestIds
      negotiationIds := h.negotiationIds
      owned := fun q hq => hgrow _ _ (h.owned q hq)
      supplied := fun t ht => hgrow _ _ (h.supplied t ht)
      chains := h.chains
      single := h.single
      known := h.known }

theorem addRequest (h : o.WellFormed) {q : Ownership} (hq : q.id ∉ o.owners.map Ownership.id)
    (hc : o.HasRole q.clientId .client) :
    ({ o with owners := o.owners ++ [q] } : Outline).WellFormed := by
  exact
    { userIds := h.userIds
      requestIds := by
        show ((o.owners ++ [q]).map Ownership.id).Nodup
        rw [List.map_append]
        exact nodup_concat h.requestIds hq
      negotiationIds := h.negotiationIds
      owned := by
        intro r hr
        rcases List.mem_append.mp hr with hr | hr
        · exact h.owned r hr
        · obtain rfl : r = q := by simpa using hr
          exact hc
      supplied := h.supplied
      chains := by
        intro t ht
        obtain ⟨r, hr, hid, hchain⟩ := h.chains t ht
        exact ⟨r, List.mem_append_left _ hr, hid, hchain⟩
      single := h.single
      known := h.known }

/-- A new proposal is seen by its own negotiation only. -/
theorem proposalsOf_append (o : Outline) (p : Proposal) (i : Id) :
    (o.proposals ++ [p]).filter (fun q => q.negotiationId = i)
      = o.proposalsOf i ++ if p.negotiationId = i then [p] else [] := by
  rw [List.filter_append]
  by_cases hp : p.negotiationId = i <;> simp [Outline.proposalsOf, hp]

/-- A negotiation nobody has named yet has no proposals. -/
theorem proposalsOf_new (h : o.WellFormed) {i : Id} (hi : i ∉ o.threads.map Thread.id) :
    o.proposalsOf i = [] := by
  unfold Outline.proposalsOf
  rw [List.filter_eq_nil_iff]
  intro p hp hpi
  obtain ⟨t, ht, hid⟩ := h.known p hp
  have hpi' : p.negotiationId = i := by simpa using hpi
  exact hi (List.mem_map.mpr ⟨t, ht, hid.trans hpi'⟩)

theorem addOffer (h : o.WellFormed) {t : Thread} {p : Proposal}
    (ht : t.id ∉ o.threads.map Thread.id) (hs : o.HasRole t.supplierId .supplier)
    (hq : ∃ q ∈ o.owners, q.id = t.requestId)
    (hfree : ∀ u ∈ o.threads, ¬ (u.requestId = t.requestId ∧ u.supplierId = t.supplierId))
    (hp : p.negotiationId = t.id) (ha : p.actorId = t.supplierId) (hr : p.actorRole = .supplier)
    (hk : p.kind = .offer) :
    ({ o with threads := o.threads ++ [t], proposals := o.proposals ++ [p] } : Outline).WellFormed := by
  exact
    { userIds := h.userIds
      requestIds := h.requestIds
      negotiationIds := by
        show ((o.threads ++ [t]).map Thread.id).Nodup
        rw [List.map_append]
        exact nodup_concat h.negotiationIds ht
      owned := h.owned
      supplied := by
        intro u hu
        rcases List.mem_append.mp hu with hu | hu
        · exact h.supplied u hu
        · obtain rfl : u = t := by simpa using hu
          exact hs
      chains := by
        intro u hu
        show ∃ q ∈ o.owners, q.id = u.requestId ∧ Chain u.supplierId q.clientId
          ((o.proposals ++ [p]).filter fun q => q.negotiationId = u.id)
        rw [proposalsOf_append]
        -- old threads do not see the opening offer, the new one sees nothing else
        rcases List.mem_append.mp hu with hu | hu
        · have hne : p.negotiationId ≠ u.id := by
            rw [hp]
            exact fun he => ht (List.mem_map.mpr ⟨u, hu, he.symm⟩)
          rw [if_neg hne, List.append_nil]
          exact h.chains u hu
        · obtain rfl : u = t := by simpa using hu
          obtain ⟨q, hq, hid⟩ := hq
          rw [if_pos hp, h.proposalsOf_new ht]
          exact ⟨q, hq, hid, Chain.opening ha hr hk⟩
      -- the new thread is on a pair that had none
      single := by
        intro u hu v hv hreq hsup
        rcases List.mem_append.mp hu with hold | hnew
        · rcases List.mem_append.mp hv with hold' | hnew'
          · exact h.single u hold v hold' hreq hsup
          · obtain rfl : v = t := by simpa using hnew'
            exact absurd ⟨hreq, hsup⟩ (hfree u hold)
        · obtain rfl : u = t := by simpa using hnew
          rcases List.mem_append.mp hv with hold' | hnew'
          · exact absurd ⟨hreq.symm, hsup.symm⟩ (hfree v hold')
          · obtain rfl : v = u := by simpa using hnew'
            rfl
      known := by
        intro q hq
        rcases List.mem_append.mp hq with hq | hq
        · obtain ⟨u, hu, hid⟩ := h.known q hq
          exact ⟨u, List.mem_append_left _ hu, hid⟩
        · obtain rfl : q = p := by simpa using hq
          exact ⟨t, List.mem_append_right _ (by simp), hp.symm⟩ }

theorem addCounter (h : o.WellFormed) {t : Thread} {q : Ownership} {p last : Proposal} {u : User}
    (ht : t ∈ o.threads) (hq : q ∈ o.owners) (hid : q.id = t.requestId)
    (hl : (o.proposalsOf t.id).getLast? = some last) (hp : p.negotiationId = t.id)
    (hu : u ∈ o.users) (ha : p.actorId = u.id) (hr : p.actorRole = u.role)
    (hx : u.id = q.clientId ∨ u.id = t.supplierId) (hturn : last.actorId ≠ u.id)
    (hk : p.kind = .counter) (hcur : p.currency = last.currency)
    (hlater : ∀ r ∈ o.proposalsOf t.id, r.id < p.id) :
    ({ o with proposals := o.proposals ++ [p] } : Outline).WellFormed := by
  have hchain : Chain t.supplierId q.clientId (o.proposalsOf t.id) := by
    obtain ⟨q', hq', hid', hc⟩ := h.chains t ht
    rwa [List.inj_on_of_nodup_map h.requestIds hq hq' (hid.trans hid'.symm)]
  -- the actor's role is the role of the seat
  have hrole : p.actorId = seat t.supplierId q.clientId (o.proposalsOf t.id).length →
      p.actorRole = seatRole (o.proposalsOf t.id).length := by
    intro hseat
    rw [hr]
    unfold seat at hseat
    unfold seatRole
    by_cases heven : (o.proposalsOf t.id).length % 2 = 0
    · rw [if_pos heven] at hseat ⊢
      exact h.role_unique hu (ha.symm.trans hseat) (h.supplied t ht)
    · rw [if_neg heven] at hseat ⊢
      exact h.role_unique hu (ha.symm.trans hseat) (h.owned q hq)
  exact
    { userIds := h.userIds
      requestIds := h.requestIds
      negotiationIds := h.negotiationIds
      owned := h.owned
      supplied := h.supplied
      chains := by
        intro v hv
        show ∃ q ∈ o.owners, q.id = v.requestId ∧ Chain v.supplierId q.clientId
          ((o.proposals ++ [p]).filter fun q => q.negotiationId = v.id)
        rw [proposalsOf_append]
        by_cases hvt : p.negotiationId = v.id
        · obtain rfl : v = t := List.inj_on_of_nodup_map h.negotiationIds hv ht (hvt.symm.trans hp)
          rw [if_pos hvt]
          refine ⟨q, hq, hid, hchain.answer hl ?_ ?_ hrole hk hcur hlater⟩
          · rwa [ha]
          · rwa [ha]
        · rw [if_neg hvt, List.append_nil]
          exact h.chains v hv
      single := h.single
      known := by
        intro r hr
        rcases List.mem_append.mp hr with hr | hr
        · exact h.known r hr
        · obtain rfl : r = p := by simpa using hr
          exact ⟨t, ht, hp.symm⟩ }

end Outline.WellFormed

end Procurement
