/-
  Procurement.Runs.History
  ────────────────────────
  **HISTORY IS APPEND-ONLY, AND TERMINAL STATES ARE FINAL.**

  `Extends db db'` says what every later state keeps of an earlier one: the
  proposals, the rows and chains of decided negotiations, and closed requests
  with their negotiations.  It is reflexive and transitive, so one step lemma
  gives it for runs of any length.

  The freeze rests on what the guards of three operations share: every decision
  asks for an active negotiation, an offer for an open request, and in a
  consistent state a closed request has no active negotiation
  (`Consistent.request_ne_of_closed`).
-/
import Procurement.Runs.Requests

namespace Procurement

open Procurement.Framework

/-! ## §1. Later states. -/

structure Extends (db db' : Db) : Prop where
  proposals : db.proposals <+: db'.proposals
  decided : ∀ n ∈ db.negotiations, n.status ≠ .active →
    n ∈ db'.negotiations ∧ db'.proposalsOf n.id = db.proposalsOf n.id
  closed : ∀ r ∈ db.requests, r.status = .closed →
    r ∈ db'.requests ∧ db'.negotiationsOf r.id = db.negotiationsOf r.id

namespace Extends

theorem refl (db : Db) : Extends db db where
  proposals := List.prefix_refl _
  decided := fun _ hn _ => ⟨hn, rfl⟩
  closed := fun _ hr _ => ⟨hr, rfl⟩

theorem trans {a b c : Db} (hab : Extends a b) (hbc : Extends b c) : Extends a c where
  proposals := hab.proposals.trans hbc.proposals
  decided := by
    intro n hn hs
    obtain ⟨hb, hchain⟩ := hab.decided n hn hs
    obtain ⟨hc, hchain'⟩ := hbc.decided n hb hs
    exact ⟨hc, hchain'.trans hchain⟩
  closed := by
    intro r hr hs
    obtain ⟨hb, hns⟩ := hab.closed r hr hs
    obtain ⟨hc, hns'⟩ := hbc.closed r hb hs
    exact ⟨hc, hns'.trans hns⟩

/-- A step that leaves the business tables alone. -/
theorem of_same {db db' : Db} (hr : db'.requests = db.requests)
    (hn : db'.negotiations = db.negotiations) (hp : db'.proposals = db.proposals) :
    Extends db db' where
  proposals := hp.symm ▸ List.prefix_refl _
  decided := by
    intro n hmem _
    unfold Db.proposalsOf
    rw [hn, hp]
    exact ⟨hmem, rfl⟩
  closed := by
    intro r hmem _
    unfold Db.negotiationsOf
    rw [hr, hn]
    exact ⟨hmem, rfl⟩

end Extends

/-! ## §2. One step. -/

/-- The negotiations of a request that a rewriting leaves alone. -/
theorem negotiationsOf_map {db : Db} {i : Id} (g : Negotiation → Negotiation)
    (hg : ∀ n, (g n).requestId = n.requestId)
    (hfix : ∀ n ∈ db.negotiations, n.requestId = i → g n = n) :
    (db.negotiations.map g).filter (fun n => n.requestId = i) = db.negotiationsOf i := by
  rw [List.filter_map]
  have hpred : (fun n : Negotiation => decide (n.requestId = i)) ∘ g
      = fun n => decide (n.requestId = i) := by
    funext n
    simp [hg]
  rw [hpred]
  show (db.negotiationsOf i).map g = db.negotiationsOf i
  conv_rhs => rw [← List.map_id (db.negotiationsOf i)]
  refine List.map_congr_left fun n hn => ?_
  obtain ⟨hn, hid⟩ := mem_negotiationsOf.mp hn
  exact hfix n hn hid

/-- A proposal of another negotiation does not show. -/
theorem proposalsOf_concat {db : Db} {p : Proposal} {i : Id} (h : p.negotiationId ≠ i) :
    (db.proposals ++ [p]).filter (fun q => q.negotiationId = i) = db.proposalsOf i := by
  rw [List.filter_append]
  simp [Db.proposalsOf, h]

namespace Consistent

variable {db : Db}

/-- An active negotiation is on no closed request. -/
theorem request_ne_of_closed (h : Consistent db) {n : Negotiation} {r : ProductRequest}
    (hn : n ∈ db.negotiations) (ha : n.status = .active) (hr : r ∈ db.requests)
    (hs : r.status = .closed) : n.requestId ≠ r.id := by
  intro hid
  have ho := (h.open_of_active hn ha hr hid.symm).1
  rw [hs] at ho
  exact absurd ho (by simp)

/-- A decided negotiation is not the active one. -/
theorem ne_of_active (h : Consistent db) {n m : Negotiation} (hn : n ∈ db.negotiations)
    (hs : n.status ≠ .active) (hm : m ∈ db.negotiations) (ha : m.status = .active) :
    n.id ≠ m.id := by
  intro hid
  obtain rfl := h.negotiation_eq hn hm hid
  exact hs ha

end Consistent

/-- An acceptance decides the active negotiations of a request that is open. -/
theorem Consistent.accept_extends {db : Db} (hc : Consistent db) {user : User} {neg : Negotiation}
    {client : Id} {ps : List Proposal} {last : Proposal} {req : ProductRequest} {env : Env}
    (hread : Reading neg client ps db) (hm : MayRespond user neg client ps last)
    (hreq : db.request neg.requestId = some req) :
    Extends db (engine.view (acceptWrites env user neg last req
      (env.order (db.activeSiblings req.id neg.id))) db) := by
  have hneg : neg ∈ db.negotiations := lookup_mem hread.row
  have hid : req.id = neg.requestId := lookup_key hreq
  rw [view_accept _ _ _ _ _ _ _ winner_not_sibling]
  generalize hls : (env.order (db.activeSiblings req.id neg.id)).map Negotiation.id = losers
  have hloser : ∀ n ∈ db.negotiations, n.id ∈ losers ↔
      n.requestId = req.id ∧ n.status = .active ∧ n.id ≠ neg.id := by
    intro n hn
    rw [← hls]
    exact hc.mem_sibling_ids hn
  refine ⟨List.prefix_refl _, ?_, ?_⟩
  · intro n hn hs
    have hfix : decided neg.id last.amount losers n = n := by
      unfold decided
      rw [if_neg (hc.ne_of_active hn hs hneg hm.active),
        if_neg fun hl => hs ((hloser n hn).mp hl).2.1]
    exact ⟨List.mem_map.mpr ⟨n, hn, hfix⟩, rfl⟩
  · intro r hr hs
    have hne : r.id ≠ req.id := by
      rw [hid]
      exact (hc.request_ne_of_closed hneg hm.active hr hs).symm
    refine ⟨List.mem_map.mpr ⟨r, hr, if_neg hne⟩, ?_⟩
    refine negotiationsOf_map _ (decided_requestId _ _ _) ?_
    -- neither the winner nor a loser is on this request
    intro n hn hnr
    unfold decided
    have hnn : n.id ≠ neg.id := by
      intro he
      obtain rfl := hc.negotiation_eq hn hneg he
      exact hne (hnr.symm.trans hid.symm)
    rw [if_neg hnn, if_neg fun hl => hne (hnr.symm.trans ((hloser n hn).mp hl).1)]

/-- Every operation that goes through extends the state. -/
theorem Produces.extends {db : Db} {user : User} {env : Env} {op : Op} {o : Produced}
    (h : Produces db user env op o) (hc : Consistent db)
    (hfresh : (env.stamp .negotiations).id ∉ db.ids .negotiations) :
    Extends db (engine.view o.writes db) := by
  cases h with
  | createRequest data =>
      exact
        { proposals := List.prefix_refl _
          decided := fun n hn _ => ⟨hn, rfl⟩
          closed := fun r hr _ => ⟨List.mem_append_left _ hr, rfl⟩ }
  | @makeOffer req data hread ho =>
      refine ⟨List.prefix_append _ _, ?_, ?_⟩
      · intro n hn _
        have hne : (env.opening user req.id data).negotiationId ≠ n.id :=
          fun he => hfresh (List.mem_map.mpr ⟨n, hn, he.symm⟩)
        exact ⟨List.mem_append_left _ hn, proposalsOf_concat hne⟩
      · intro r hr hs
        -- the request that receives the offer is open
        have hne : (env.offered user req.id).requestId ≠ r.id := by
          intro hid
          obtain rfl : req = r := hc.request_eq (lookup_mem hread.row) hr hid
          rw [ho] at hs
          exact absurd hs (by simp)
        refine ⟨hr, ?_⟩
        show (db.negotiations ++ [env.offered user req.id]).filter _ = _
        rw [List.filter_append]
        simp [Db.negotiationsOf, hne]
  | @reject neg client ps last hread hm =>
      have hneg : neg ∈ db.negotiations := lookup_mem hread.row
      refine ⟨List.prefix_refl _, ?_, ?_⟩
      · intro n hn hs
        exact ⟨List.mem_map.mpr ⟨n, hn, if_neg (hc.ne_of_active hn hs hneg hm.active)⟩, rfl⟩
      · intro r hr hs
        refine ⟨hr, negotiationsOf_map _ (by intro n; split <;> rfl) ?_⟩
        intro n hn hid
        have hne : n.id ≠ neg.id := by
          intro he
          obtain rfl := hc.negotiation_eq hn hneg he
          exact hc.request_ne_of_closed hn hm.active hr hs hid
        exact if_neg hne
  | @counter neg client ps last data hread hm =>
      have hneg : neg ∈ db.negotiations := lookup_mem hread.row
      refine ⟨List.prefix_append _ _, ?_, fun r hr _ => ⟨hr, rfl⟩⟩
      intro n hn hs
      exact ⟨hn, proposalsOf_concat (hc.ne_of_active hn hs hneg hm.active).symm⟩
  | @accept neg client ps last req hread hm hrow =>
      exact hc.accept_extends hread hm hrow

/-- Negotiations stay, each with its parties. -/
theorem Produces.keeps_threads {db : Db} {user : User} {env : Env} {op : Op} {o : Produced}
    (h : Produces db user env op o) :
    ∀ n ∈ db.negotiations, ∃ m ∈ (engine.view o.writes db).negotiations, m.thread = n.thread := by
  intro n hn
  cases h with
  | createRequest data => exact ⟨n, hn, rfl⟩
  | makeOffer data hread ho => exact ⟨n, List.mem_append_left _ hn, rfl⟩
  | counter data hread hm => exact ⟨n, hn, rfl⟩
  | @reject neg client ps last hread hm =>
      exact ⟨_, List.mem_map_of_mem hn, Consistent.rejected_thread n neg.id⟩
  | @accept neg client ps last req hread hm hrow =>
      show ∃ m ∈ (engine.view (acceptWrites env user neg last req _) db).negotiations, _
      rw [view_accept _ _ _ _ _ _ _ winner_not_sibling]
      exact ⟨_, List.mem_map_of_mem hn, Consistent.decided_thread _ _ _ n⟩

/-- So do they, whatever is called. -/
theorem Step.keeps_threads {db db' : Db} (h : Step db db') :
    ∀ n ∈ db.negotiations, ∃ m ∈ db'.negotiations, m.thread = n.thread := by
  cases h.cases with
  | nothing => exact fun n hn => ⟨n, hn, rfl⟩
  | registered env data hf hfree => exact fun n hn => ⟨n, hn, rfl⟩
  | executed hf hx =>
      rw [view_committed]
      exact hx.produces.keeps_threads

/-- Requests stay, each with its owner. -/
theorem Produces.keeps_owners {db : Db} {user : User} {env : Env} {op : Op} {o : Produced}
    (h : Produces db user env op o) :
    ∀ r ∈ db.requests, ∃ q ∈ (engine.view o.writes db).requests, q.ownership = r.ownership := by
  intro r hr
  cases h with
  | createRequest data => exact ⟨r, List.mem_append_left _ hr, rfl⟩
  | makeOffer data hread ho => exact ⟨r, hr, rfl⟩
  | counter data hread hm => exact ⟨r, hr, rfl⟩
  | reject hread hm => exact ⟨r, hr, rfl⟩
  | @accept neg client ps last req hread hm hrow =>
      show ∃ q ∈ (engine.view (acceptWrites env user neg last req _) db).requests, _
      rw [view_accept _ _ _ _ _ _ _ winner_not_sibling]
      refine ⟨_, List.mem_map_of_mem hr, ?_⟩
      split <;> rfl

theorem Step.keeps_owners {db db' : Db} (h : Step db db') :
    ∀ r ∈ db.requests, ∃ q ∈ db'.requests, q.ownership = r.ownership := by
  cases h.cases with
  | nothing => exact fun r hr => ⟨r, hr, rfl⟩
  | registered env data hf hfree => exact fun r hr => ⟨r, hr, rfl⟩
  | executed hf hx =>
      rw [view_committed]
      exact hx.produces.keeps_owners

/-- **One step extends the state.** -/
theorem Step.extends {db db' : Db} (hr : Reachable db) (hs : Step db db') : Extends db db' := by
  cases hs.cases with
  | nothing => exact Extends.refl db
  | registered env data hf hfree => exact Extends.of_same rfl rfl rfl
  | executed hf hx =>
      have hext := hx.produces.extends hr.consistent (hf.unused .negotiations 0)
      rw [view_committed]
      exact ⟨hext.proposals, hext.decided, hext.closed⟩

/-- **So does every continuation.** -/
theorem Reachable.extends {db db' : Db} (h : Reachable db)
    (hrun : Relation.ReflTransGen Step db db') : Extends db db' := by
  induction hrun with
  | refl => exact Extends.refl db
  | tail hsteps hstep ih => exact ih.trans (hstep.extends (h.trans hsteps))

/-! ## §3. The history of a run. -/

/-- An offer on a request by a supplier who has a negotiation on it leaves the
state alone, and raises when no stored response answers it. -/
theorem offer_refused {db : Db} {n : Negotiation} (hn : n ∈ db.negotiations) {req : HttpRequest}
    {data : OfferIn} (hcaller : req.caller = n.supplierId) (hop : req.op = .makeOffer n.requestId data)
    (env : Env) (f : Nat → Bool) :
    ((Call.post req).run env f db).2 = db
      ∧ (req.key = none → ∃ e, ((Call.post req).run env f db).1 = .error e) := by
  have hthread : (db.thread n.requestId n.supplierId).isSome := by
    unfold Db.thread
    rw [List.find?_isSome]
    exact ⟨n, hn, by simp⟩
  show (engine.request (handle req) env f db).2 = db
    ∧ (_ → ∃ e, (engine.request (handle req) env f db).1.map Answer.response = .error e)
  rcases handle_cases req env f db with ⟨e, hrun⟩ | ⟨user, record, hr, hrun⟩ | ⟨user, o, hx, _⟩
  · rw [hrun]
    exact ⟨rfl, fun _ => ⟨e, rfl⟩⟩
  · rw [hrun]
    refine ⟨rfl, fun hkey => ?_⟩
    obtain ⟨k, hk, _⟩ := hr.stored
    exact absurd hk (usedKey_ne hkey k)
  · -- the thread that the offer would open is there
    have hp := hx.produces
    have hid : user.id = n.supplierId := (lookup_key hx.caller).trans hcaller
    rw [hop] at hp
    generalize hrid : n.requestId = rid at hp hthread
    cases hp with
    | makeOffer data hread ho =>
        have htaken := hread.thread
        rw [hid, hthread] at htaken
        exact absurd htaken (by simp)

/-- **History is append-only and terminal states are final.**  Whatever is called
after a reachable state: its proposals stay, its chains are prefixes of the
later ones, its decided negotiations keep their rows and chains, its closed
requests keep their rows and their negotiations; and a supplier who was
rejected or superseded on a request never has another negotiation on it. -/
theorem history_final {db db' : Db} (h : Reachable db) (hrun : Relation.ReflTransGen Step db db') :
    (∀ p ∈ db.proposals, p ∈ db'.proposals)
    ∧ (∀ n ∈ db.negotiations, db.chain n.id <+: db'.chain n.id)
    ∧ (∀ n ∈ db.negotiations, n.status ≠ .active →
        db'.negotiation n.id = some n ∧ db'.chain n.id = db.chain n.id)
    ∧ (∀ r ∈ db.requests, r.status = .closed →
        db'.request r.id = some r ∧ db'.negotiationsOf r.id = db.negotiationsOf r.id)
    ∧ ∀ n ∈ db.negotiations, n.status = .rejected →
        (∀ m ∈ db'.negotiations, m.requestId = n.requestId → m.supplierId = n.supplierId → m = n)
        ∧ ∀ (req : HttpRequest) (data : OfferIn) (env : Env) (f : Nat → Bool),
            req.caller = n.supplierId → req.op = .makeOffer n.requestId data →
              ((Call.post req).run env f db').2 = db'
              ∧ (req.key = none → ∃ e, ((Call.post req).run env f db').1 = .error e) := by
  have hext := h.extends hrun
  have hc := h.consistent
  have hc' : Consistent db' := Reachable.consistent (h.trans hrun)
  refine ⟨fun p hp => hext.proposals.subset hp, ?_, ?_, ?_, ?_⟩
  · intro n _
    rw [hc.chain_eq, hc'.chain_eq]
    exact hext.proposals.filter _
  · intro n hn hs
    obtain ⟨hn', hchain⟩ := hext.decided n hn hs
    rw [hc.chain_eq, hc'.chain_eq]
    exact ⟨hc'.negotiation_of_mem hn', hchain⟩
  · intro r hr hs
    obtain ⟨hr', hns⟩ := hext.closed r hr hs
    exact ⟨hc'.request_of_mem hr', hns⟩
  · intro n hn hs
    have hn' : n ∈ db'.negotiations := (hext.decided n hn (by simp [hs])).1
    refine ⟨fun m hm hr hsup => hc'.one_thread hn' hm hr hsup, ?_⟩
    intro req data env f hcaller hop
    exact offer_refused hn' hcaller hop env f

/-- The client accepts the first bid of the market, then the second supplier
bids again: its rejected negotiation 2 stays as it is. -/
theorem history_final_market :
    (((market.after (.post (plain 1 (.accept 1)))).after
      (.post (plain 3 (.makeOffer 1 (bid 80 (by decide) (by decide)))))).negotiation 2).map
        Negotiation.status = some .rejected := by
  have hlater : ∀ db call, Reachable db → (∃ n ∈ db.negotiations, n.id = 2 ∧ n.status = .rejected) →
      ((db.after call).negotiation 2).map Negotiation.status = some .rejected := by
    rintro db call hdb ⟨n, hn, hid, hs⟩
    have hstep : Step db (db.after call) := ⟨call, .following db, calm, Env.following_fresh db, rfl⟩
    have hrow := ((history_final hdb (Relation.ReflTransGen.single hstep)).2.2.1 n hn (by simp [hs])).1
    rw [← hid, hrow]
    exact congrArg some hs
  exact hlater _ _ (market_reachable.after _) (by decide +kernel)

end Procurement
