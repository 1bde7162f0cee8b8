/-
  Procurement.Runs.Paging
  ───────────────────────
  **WALKING THROUGH THE LISTINGS** while others go on working.

  `list_requests` and `list_negotiations` page with a limit and an offset over
  rows that are selected anew at each fetch.  What a caller owns or takes part
  in never leaves his listing (`Step.keeps_listedNegotiations`,
  `Step.keeps_listedRequests`), so a walk covers it (`own_rows_paged`).

  The marketplace of a supplier is different: an acceptance takes a request out
  of it, and moves all requests below one place up.  `marketplace_hides` is a
  walk that skips an open request so, and `marketplace_paged` says when none is
  skipped.
-/
import Procurement.Framework.Paging
import Procurement.Runs.Requests
import Procurement.Runs.Listings

namespace Procurement

open Procurement.Framework

/-! ## §1. Fetches. -/

theorem returned_listRequests {user : User} {limit offset : Nat} {db : Db}
    {rows : List ProductRequest} : Returned (listRequests user limit offset) db rows
      ↔ rows = pageOf ProductRequest.id limit offset (db.listedRequests user) := by
  refine returned_iff fun env => ?_
  unfold listRequests Db.listedRequests
  split
  · exact .select rfl rfl rfl (.refl _)
  · exact .select rfl rfl rfl (.refl _)

theorem returned_listNegotiations {user : User} {limit offset : Nat} {db : Db}
    {rows : List Negotiation} : Returned (listNegotiations user limit offset) db rows
      ↔ rows = pageOf Negotiation.id limit offset (db.listedNegotiations user) := by
  refine returned_iff fun env => ?_
  unfold listNegotiations Db.listedNegotiations
  split
  · exact .select rfl rfl rfl (.refl _)
  · exact .select rfl rfl rfl (.refl _)

/-! ## §2. What stays listed. -/

/-- A negotiation stays in the listings it is in. -/
theorem Step.keeps_listedNegotiations {db db' : Db} (hr : Reachable db) (h : Step db db')
    (user : User) :
    (db.listedNegotiations user).map Negotiation.id
      ⊆ (db'.listedNegotiations user).map Negotiation.id := by
  intro i hi
  obtain ⟨n, hn, rfl⟩ := List.mem_map.mp hi
  unfold Db.listedNegotiations at hn ⊢
  by_cases hrole : user.role = .supplier
  · rw [if_pos hrole, List.mem_filter] at hn
    obtain ⟨m, hm, hthread⟩ := h.keeps_threads n hn.1
    have hsupplier : m.supplierId = user.id := by
      have hn' : n.supplierId = user.id := by simpa using hn.2
      exact (congrArg Thread.supplierId hthread).trans hn'
    rw [if_pos hrole, List.mem_map]
    refine ⟨m, List.mem_filter.mpr ⟨hm, by simpa using hsupplier⟩, ?_⟩
    exact congrArg Thread.id hthread
  · rw [if_neg hrole, List.mem_filter] at hn
    obtain ⟨m, hm, hthread⟩ := h.keeps_threads n hn.1
    -- its request stays too, with its owner
    obtain ⟨r, hreq, howner⟩ : ∃ r, db.request n.requestId = some r ∧ r.clientId = user.id := by
      simpa [Option.any_eq_true] using hn.2
    obtain ⟨q, hq, hown⟩ := h.keeps_owners r (lookup_mem hreq)
    have hrow : db'.request m.requestId = some q := by
      have hid : q.id = m.requestId := by
        rw [show q.id = r.id from congrArg Ownership.id hown, lookup_key hreq]
        exact (congrArg Thread.requestId hthread).symm
      rw [← hid]
      exact (Reachable.consistent (hr.tail h)).request_of_mem hq
    have hclient : q.clientId = user.id := (congrArg Ownership.clientId hown).trans howner
    rw [if_neg hrole, List.mem_map]
    refine ⟨m, List.mem_filter.mpr ⟨hm, ?_⟩, congrArg Thread.id hthread⟩
    rw [hrow]
    simpa using hclient

/-- A client's request stays in his listing. -/
theorem Step.keeps_listedRequests {db db' : Db} (h : Step db db') {user : User}
    (hrole : user.role = .client) :
    (db.listedRequests user).map ProductRequest.id
      ⊆ (db'.listedRequests user).map ProductRequest.id := by
  intro i hi
  obtain ⟨r, hr, rfl⟩ := List.mem_map.mp hi
  unfold Db.listedRequests at hr ⊢
  rw [if_pos hrole, List.mem_filter] at hr
  obtain ⟨q, hq, hown⟩ := h.keeps_owners r hr.1
  have hclient : q.clientId = user.id := by
    have hr' : r.clientId = user.id := by simpa using hr.2
    exact (congrArg Ownership.clientId hown).trans hr'
  rw [if_pos hrole, List.mem_map]
  exact ⟨q, List.mem_filter.mpr ⟨hq, by simpa using hclient⟩, congrArg Ownership.id hown⟩

theorem Consistent.listedNegotiations_ids {db : Db} (h : Consistent db) (user : User) :
    ((db.listedNegotiations user).map Negotiation.id).Nodup := by
  have hsub : (db.listedNegotiations user).Sublist db.negotiations := by
    unfold Db.listedNegotiations
    split <;> exact List.filter_sublist
  exact h.negotiationIds.sublist (hsub.map _)

theorem Consistent.listedRequests_ids {db : Db} (h : Consistent db) (user : User) :
    ((db.listedRequests user).map ProductRequest.id).Nodup := by
  have hsub : (db.listedRequests user).Sublist db.requests := by
    unfold Db.listedRequests
    split <;> exact List.filter_sublist
  exact h.requestIds.sublist (hsub.map _)

/-! ## §3. One's own rows. -/

/-- A walk through `list_requests`, with any calls between the fetches. -/
abbrev RequestWalk (user : User) (limit : Nat) :=
  Walk Step (fun offset db rows => Returned (listRequests user limit offset) db rows) limit

/-- A walk through `list_negotiations`. -/
abbrev NegotiationWalk (user : User) (limit : Nat) :=
  Walk Step (fun offset db rows => Returned (listNegotiations user limit offset) db rows) limit

/-- Every fetch of a walk finds a reachable state. -/
theorem reachable_at {ρ : Type} {fetch : Nat → Db → List ρ → Prop} {limit : Nat}
    (w : Walk Step fetch limit) (h : Reachable (w.state 0)) {j : Nat} (hj : j ≤ w.last) :
    Reachable (w.state j) := Relation.ReflTransGen.trans h (w.run (Nat.zero_le j) hj)

section
variable {user : User} {limit : Nat}

theorem RequestWalk.reads (w : RequestWalk user limit) (h : Reachable (w.state 0)) :
    w.Reads ProductRequest.id fun db => db.listedRequests user where
  page := fun _ hj => returned_listRequests.mp (w.fetched _ hj)
  keys := fun _ hj => (reachable_at w h hj).consistent.listedRequests_ids user

theorem NegotiationWalk.reads (w : NegotiationWalk user limit) (h : Reachable (w.state 0)) :
    w.Reads Negotiation.id fun db => db.listedNegotiations user where
  page := fun _ hj => returned_listNegotiations.mp (w.fetched _ hj)
  keys := fun _ hj => (reachable_at w h hj).consistent.listedNegotiations_ids user

end

/-- **Paging one's own rows never skips.**  In every walk through one's negotiations,
and through the requests of a client, with any calls between the fetches: every row
that was listed at the first fetch is on some page, and on exactly one if no new row
came to be listed during the walk. -/
theorem own_rows_paged (user : User) (limit : Nat) :
    (∀ w : NegotiationWalk user limit, Reachable (w.state 0) →
        w.Covers Negotiation.id fun db => db.listedNegotiations user)
      ∧ (user.role = .client → ∀ w : RequestWalk user limit, Reachable (w.state 0) →
        w.Covers ProductRequest.id fun db => db.listedRequests user) := by
  constructor
  · intro w h
    refine (w.reads h).covers (I := Reachable) h ?_
    intro db db' hr hstep
    exact ⟨hr.tail hstep, hstep.keeps_listedNegotiations hr user⟩
  · intro hrole w h
    refine (w.reads h).covers (I := Reachable) h ?_
    intro db db' hr hstep
    exact ⟨hr.tail hstep, hstep.keeps_listedRequests hrole⟩

/-- The state `first`, and after the first fetch the state behind one more call. -/
def movingOn (first : Db) (call : Call) : Nat → Db
  | 0 => first
  | _ + 1 => first.after call

theorem movingOn_zero (first : Db) (call : Call) : movingOn first call 0 = first := rfl

theorem movingOn_between (first : Db) (call : Call) (j : Nat) :
    Relation.ReflTransGen Step (movingOn first call j) (movingOn first call (j + 1)) := by
  cases j with
  | zero => exact .single ⟨call, .following first, calm, Env.following_fresh first, rfl⟩
  | succ j => exact .refl

/-- The client of the market. -/
def buyer : User := ⟨1, "client", "password", .client, "name"⟩

/-- He walks through his two negotiations, one a page, and accepts the first bid after
the first fetch. -/
def buyerWalk : NegotiationWalk buyer 1 :=
  .along (fun _ _ => returned_listNegotiations.mpr rfl)
    (movingOn market (.post (plain 1 (.accept 1)))) 2 (fun j _ => movingOn_between _ _ j)
    (by decide +kernel) (by decide +kernel)

/-- Negotiation 1 is on one of the pages. -/
theorem own_rows_paged_market : ∃! j, buyerWalk.Returns Negotiation.id 1 j := by
  have hstart : buyerWalk.state 0 = market := by
    unfold buyerWalk
    rw [Walk.along_state, movingOn_zero]
  have hcovers := (own_rows_paged buyer 1).1 buyerWalk (hstart ▸ market_reachable)
  unfold Walk.Covers at hcovers
  rw [hstart] at hcovers
  obtain ⟨n, hn, hid⟩ : ∃ n ∈ market.listedNegotiations buyer, n.id = 1 := by decide +kernel
  rw [← hid]
  exact (hcovers n hn).2 (by decide +kernel)

/-! ## §4. The marketplace. -/

/-- The request is there and open. -/
def Db.IsOpen (db : Db) (i : Id) : Prop := ∃ r ∈ db.requests, r.id = i ∧ r.status = .opened

instance (db : Db) (i : Id) : Decidable (db.IsOpen i) :=
  inferInstanceAs (Decidable (∃ r ∈ db.requests, r.id = i ∧ r.status = .opened))

/-- The number of open requests that are listed above request `i`. -/
def Db.openAbove (db : Db) (i : Id) : Nat :=
  rank ProductRequest.id (db.requests.filter fun r => r.status = .opened) i

/-- **Paging the marketplace.**  In every walk of a supplier through the open requests, a
request that is open at every fetch is on some page, if it stays behind the pages that
have been fetched: when a fetch leaves it behind its page, the next one finds at least
as many open requests above it as there were places asked for. -/
theorem marketplace_paged {user : User} {limit : Nat} (hrole : user.role = .supplier)
    (w : RequestWalk user limit) (h : Reachable (w.state 0)) {i : Id}
    (hopen : ∀ j, j ≤ w.last → (w.state j).IsOpen i)
    (hbehind : ∀ j, j < w.last → (j + 1) * limit ≤ (w.state j).openAbove i →
      (j + 1) * limit ≤ (w.state (j + 1)).openAbove i) :
    ∃ j, w.Returns ProductRequest.id i j := by
  have hlisted : ∀ db : Db, db.listedRequests user = db.requests.filter fun r => r.status = .opened := by
    intro db
    unfold Db.listedRequests
    rw [if_neg (by rw [hrole]; decide)]
  refine (w.reads h).returned ?_ ?_
  · intro j hj
    obtain ⟨r, hr, hid, hstatus⟩ := hopen j hj
    rw [hlisted, List.mem_map]
    exact ⟨r, List.mem_filter.mpr ⟨hr, by simpa using hstatus⟩, hid⟩
  · intro j hj
    rw [hlisted, hlisted]
    exact hbehind j hj

/-- Client 1 asks for chairs three times, supplier 2 bids on the last request. -/
def bazaar : Db :=
  let db := Db.empty.after (registration "client" .client)
  let db := db.after (registration "first" .supplier)
  let db := db.after (.post (plain 1 (.createRequest chairs)))
  let db := db.after (.post (plain 1 (.createRequest chairs)))
  let db := db.after (.post (plain 1 (.createRequest chairs)))
  db.after (.post (plain 2 (.makeOffer 3 (bid 65 (by decide) (by decide)))))

theorem bazaar_reachable : Reachable bazaar := by
  unfold bazaar
  refine Reachable.after (Reachable.after (Reachable.after ?_ _) _) _
  refine Reachable.after (Reachable.after (Reachable.after ?_ _) _) _
  exact Relation.ReflTransGen.refl

def seller : User := ⟨2, "first", "password", .supplier, "name"⟩

/-- The supplier walks through the three open requests, and a fourth is posted after his
first fetch. -/
def growingWalk : RequestWalk seller 1 :=
  .along (fun _ _ => returned_listRequests.mpr rfl)
    (movingOn bazaar (.post (plain 1 (.createRequest chairs)))) 4 (fun j _ => movingOn_between _ _ j)
    (by decide +kernel) (by decide +kernel)

theorem marketplace_paged_growing : ∃ j, growingWalk.Returns ProductRequest.id 1 j := by
  have hstart : growingWalk.state 0 = bazaar := by
    unfold growingWalk
    rw [Walk.along_state, movingOn_zero]
  exact marketplace_paged rfl growingWalk (hstart ▸ bazaar_reachable) (by decide +kernel)
    (by decide +kernel)

/-- The same walk, but the bid on request 3 is accepted after the first fetch. -/
def closingWalk : RequestWalk seller 1 :=
  .along (fun _ _ => returned_listRequests.mpr rfl)
    (movingOn bazaar (.post (plain 1 (.accept 1)))) 2 (fun j _ => movingOn_between _ _ j)
    (by decide +kernel) (by decide +kernel)

/-- Request 2 moves to the place that has been asked for, and is on no page. -/
theorem marketplace_hides :
    ¬ ∀ (user : User) (limit : Nat) (w : RequestWalk user limit), user.role = .supplier →
        1 ≤ limit → Reachable (w.state 0) → ∀ i, (∀ j, j ≤ w.last → (w.state j).IsOpen i) →
          ∃ j, w.Returns ProductRequest.id i j := by
  intro hall
  have hstart : closingWalk.state 0 = bazaar := by
    unfold closingWalk
    rw [Walk.along_state, movingOn_zero]
  obtain ⟨j, hj, hreturned⟩ := hall seller 1 closingWalk rfl (le_refl 1)
    (hstart ▸ bazaar_reachable) 2 (by decide +kernel)
  have hnone : ∀ j, j ≤ 2 → ¬ ∃ r ∈ closingWalk.page j, r.id = 2 := by decide +kernel
  exact hnone j hj hreturned

end Procurement
