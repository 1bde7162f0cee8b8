/-
  Procurement.Frontend.Reports
  ────────────────────────────
  **WHAT A TOAST SAYS.**

  A handler reports a success behind its request, and often behind several more.  Others
  have been served by then, so what it reports has to be a fact that stays
  (`Said.Holds.stays`).  The request is where it becomes one (`§3`).

  One report has an exception.  The price of "Acuerdo cerrado" is that of the button, and
  the agreement has another one if the user has made a counter of his own since the panel
  was rendered.
-/
import Procurement.Frontend.Browser
import Procurement.Frontend.Flow

namespace Procurement

open Procurement.Framework

/-! ## §1. Reports. -/

/-- A proposal of the user with this price and message. -/
def Db.Proposed (db : Db) (user : User) (negotiationId : Id) (kind : ProposalKind) (amount : Amount)
    (message : String) : Prop :=
  ∃ p ∈ db.proposals, p.negotiationId = negotiationId ∧ p.actorId = user.id ∧ p.kind = kind
    ∧ p.amount = amount ∧ p.message = some message

/-- What it says of the state, on the page of this user. -/
def Said.Holds (user : User) (db : Db) : Said → Prop
  | .problem _ => True
  | .enrolled data => ∃ d, data = some d
      ∧ ∃ u ∈ db.users, u.email = d.email ∧ u.fullName = d.fullName ∧ u.role = d.role
  | .requested data => ∃ d, data = some d ∧ ∃ r ∈ db.requests, r.clientId = user.id
      ∧ r.productName = d.productName ∧ r.description = d.description ∧ r.quantity = d.quantity
  | .offered requestId amount message => ∃ n ∈ db.negotiations, n.requestId = requestId
      ∧ n.supplierId = user.id ∧ db.Proposed user n.id .offer amount message
  | .closed shown amount _ => ∃ n ∈ db.negotiations, n.id = shown.id ∧ n.status = .accepted
      ∧ (n.agreedAmount = some amount
        ∨ ∃ p ∈ (db.proposalsOf n.id).drop shown.proposals.length, p.actorId = user.id)
  | .rejected id => ∃ n ∈ db.negotiations, n.id = id ∧ n.status = .rejected
  | .countered id amount message => db.Proposed user id .counter amount message

/-! ## §2. It stays true. -/

/-- What was asked for, and by whom. -/
def ProductRequest.wish (r : ProductRequest) : Id × String × String × Nat :=
  (r.clientId, r.productName, r.description, r.quantity)

/-- An operation may close a request; what is wished for stays. -/
theorem Produces.keeps_wishes {db : Db} {user : User} {env : Env} {op : Op} {o : Produced}
    (h : Produces db user env op o) :
    ∀ r ∈ db.requests, ∃ q ∈ (engine.view o.writes db).requests, q.wish = r.wish := by
  intro r hr
  cases h with
  | createRequest data => exact ⟨r, List.mem_append_left _ hr, rfl⟩
  | makeOffer data hread ho => exact ⟨r, hr, rfl⟩
  | counter data hread hm => exact ⟨r, hr, rfl⟩
  | reject hread hm => exact ⟨r, hr, rfl⟩
  | @accept neg client ps last req hread hm hrow =>
      show ∃ q ∈ (engine.view (acceptWrites env user neg last req _) db).requests, _
      rw [view_accept _ _ _ _ _ _ _ winner_not_sibling]
      refine ⟨_, List.mem_map_of_mem hr, ?_⟩
      split <;> rfl

/-- A step keeps what is wished for. -/
theorem Step.keeps_wishes {db db' : Db} (h : Step db db') :
    ∀ r ∈ db.requests, ∃ q ∈ db'.requests, q.wish = r.wish := by
  cases h.cases with
  | nothing => exact fun r hr => ⟨r, hr, rfl⟩
  | registered env data hf hfree => exact fun r hr => ⟨r, hr, rfl⟩
  | executed hf hx =>
      rw [view_committed]
      exact hx.produces.keeps_wishes

abbrev Steps : Db → Db → Prop := Relation.ReflTransGen Step

section
variable {db db' : Db} {user : User}

/-- A run keeps what is wished for. -/
theorem Steps.keeps_wishes (hrun : Steps db db') :
    ∀ r ∈ db.requests, ∃ q ∈ db'.requests, q.wish = r.wish := by
  induction hrun with
  | refl => exact fun r hr => ⟨r, hr, rfl⟩
  | tail _ hstep ih =>
      intro r hr
      obtain ⟨q, hq, hwish⟩ := ih r hr
      obtain ⟨q', hq', hwish'⟩ := hstep.keeps_wishes q hq
      exact ⟨q', hq', hwish'.trans hwish⟩

/-- Negotiations stay where they are. -/
theorem Steps.keeps_threads (hrun : Steps db db') :
    ∀ n ∈ db.negotiations, ∃ m ∈ db'.negotiations, m.thread = n.thread := by
  induction hrun with
  | refl => exact fun n hn => ⟨n, hn, rfl⟩
  | tail _ hstep ih =>
      intro n hn
      obtain ⟨m, hm, hthread⟩ := ih n hn
      obtain ⟨m', hm', hthread'⟩ := hstep.keeps_threads m hm
      exact ⟨m', hm', hthread'.trans hthread⟩

/-- **What has been proposed stays proposed.** -/
theorem Db.Proposed.stays (hdb : Reachable db) (hrun : Steps db db') {i : Id} {kind : ProposalKind}
    {amount : Amount} {message : String} (h : db.Proposed user i kind amount message) :
    db'.Proposed user i kind amount message := by
  obtain ⟨p, hp, hfacts⟩ := h
  exact ⟨p, (hdb.extends hrun).proposals.subset hp, hfacts⟩

/-- **What is reported stays true.** -/
theorem Said.Holds.stays {said : Said} (h : said.Holds user db) (hdb : Reachable db)
    (hrun : Steps db db') : said.Holds user db' := by
  cases said with
  | problem msg => trivial
  | enrolled data =>
      obtain ⟨d, hd, u, hu, hfacts⟩ := h
      exact ⟨d, hd, u, (users_prefix_of_run hrun).subset hu, hfacts⟩
  | requested data =>
      obtain ⟨d, hd, r, hr, hclient, hname, hdescription, hquantity⟩ := h
      obtain ⟨q, hq, hwish⟩ := hrun.keeps_wishes r hr
      obtain ⟨h₁, h₂, h₃, h₄⟩ : q.clientId = r.clientId ∧ q.productName = r.productName
          ∧ q.description = r.description ∧ q.quantity = r.quantity := by
        simpa [ProductRequest.wish] using hwish
      exact ⟨d, hd, q, hq, h₁.trans hclient, h₂.trans hname, h₃.trans hdescription,
        h₄.trans hquantity⟩
  | offered requestId amount message =>
      obtain ⟨n, hn, hrequest, hsupplier, hproposed⟩ := h
      obtain ⟨m, hm, hthread⟩ := hrun.keeps_threads n hn
      refine ⟨m, hm, (congrArg Thread.requestId hthread).trans hrequest,
        (congrArg Thread.supplierId hthread).trans hsupplier, ?_⟩
      rw [show m.id = n.id from congrArg Thread.id hthread]
      exact hproposed.stays hdb hrun
  | closed shown amount currency =>
      obtain ⟨n, hn, hid, hstatus, hprice⟩ := h
      obtain ⟨hn', hchain⟩ := (hdb.extends hrun).decided n hn (by simp [hstatus])
      refine ⟨n, hn', hid, hstatus, ?_⟩
      rw [hchain]
      exact hprice
  | rejected id =>
      obtain ⟨n, hn, hid, hstatus⟩ := h
      exact ⟨n, ((hdb.extends hrun).decided n hn (by simp [hstatus])).1, hid, hstatus⟩
  | countered id amount message => exact Db.Proposed.stays hdb hrun h

end

/-! ## §3. What a request makes true. -/

section
variable {db : Db} {user : User} {env : Env} {o : Produced}

/-- Behind a request the report of it is true. -/
theorem Produces.requested {data : ProductRequestIn} (h : Produces db user env (.createRequest data) o) :
    (Said.requested (some data)).Holds user (engine.view o.writes db) := by
  cases h
  exact ⟨data, rfl, env.createdRequest user data, List.mem_append_right _ (List.mem_singleton_self _),
    rfl, rfl, rfl, rfl⟩

/-- Behind an offer the report of it is true. -/
theorem Produces.offered {requestId : Id} {data : OfferIn} {message : String}
    (h : Produces db user env (.makeOffer requestId data) o) (hmessage : data.message = some message) :
    (Said.offered requestId data.amount message).Holds user (engine.view o.writes db) := by
  cases h with
  | @makeOffer req _ hread ho =>
      exact ⟨env.offered user req.id, List.mem_append_right _ (List.mem_singleton_self _), rfl, rfl,
        env.opening user req.id data, List.mem_append_right _ (List.mem_singleton_self _),
        rfl, rfl, rfl, rfl, hmessage⟩

/-- Behind a counter the report of it is true. -/
theorem Produces.countered {id : Id} {data : CounterIn} {message : String}
    (h : Produces db user env (.counter id data) o) (hmessage : data.message = some message) :
    (Said.countered id data.amount message).Holds user (engine.view o.writes db) := by
  cases h with
  | @counter neg client ps last _ hread hm =>
      exact ⟨env.countered user neg last data, List.mem_append_right _ (List.mem_singleton_self _),
        rfl, rfl, rfl, rfl, hmessage⟩

/-- Behind a rejection the report of it is true. -/
theorem Produces.rejected {id : Id} (h : Produces db user env (.reject id) o) :
    (Said.rejected id).Holds user (engine.view o.writes db) := by
  cases h with
  | @reject neg client ps last hread hm =>
      have hrow : (engine.view (rejectWrites env user neg) db).negotiation neg.id
          = some (Decision.rejected.on neg) := by
        refine (lookup_update _ (Decision.on_id _)).trans ?_
        rw [if_pos rfl]
        exact congrArg (Option.map _) hread.row
      exact ⟨_, lookup_mem hrow, rfl, rfl⟩

/-- The button is that of the last proposal.  If the chain has grown since, the user has
made the next one. -/
theorem Produces.closed {db₀ : Db} (hdb₀ : Reachable db₀) (hsteps : Steps db₀ db)
    {n : Negotiation} (hfor : db₀.negotiationFor user n.id = .ok n) {amount : Amount}
    {currency : String} (hbutton : .accept amount currency ∈ (renderTurn user.id (db₀.detail n)).actions)
    (h : Produces db user env (.accept n.id) o) :
    (Said.closed (db₀.detail n) amount currency).Holds user (engine.view o.writes db) := by
  obtain ⟨hrow, _⟩ := Db.negotiationFor_iff.mp hfor
  obtain ⟨_, out, hout, hother, hamount, _⟩ := accept_button hbutton
  obtain ⟨last₀, hlast₀, rfl⟩ := detail_last hout
  rw [hdb₀.consistent.chain_eq] at hlast₀
  have hdb : Reachable db := hdb₀.trans hsteps
  have hlength : (db₀.detail n).proposals.length = (db₀.proposalsOf n.id).length := by
    rw [← hdb₀.consistent.chain_eq]
    exact List.length_map _
  obtain ⟨grown, hgrown⟩ : db₀.proposalsOf n.id <+: db.proposalsOf n.id :=
    (hdb₀.extends hsteps).proposals.filter _
  -- the chain of the panel is the beginning of the one that is accepted
  generalize hid : n.id = i at h hlast₀ hlength hgrown
  cases h with
  | @accept neg client ps last req hread hm hreq =>
      refine ⟨(Decision.accepted last.amount).on neg, ?_, hid.symm, rfl, ?_⟩
      · show _ ∈ (engine.view (acceptWrites env user neg last req _) db).negotiations
        exact lookup_mem (accepted_row winner_not_sibling hread.row)
      have hchain : (engine.view (acceptProduced user env neg ps last req
          (env.order (db.activeSiblings req.id neg.id))).writes db).proposalsOf neg.id
            = db₀.proposalsOf neg.id ++ grown := by
        show (engine.view (acceptWrites env user neg last req _) db).proposalsOf neg.id = _
        rw [view_accept _ _ _ _ _ _ _ winner_not_sibling, hgrown]
        rfl
      show some last.amount = some amount ∨ ∃ p ∈ (Db.proposalsOf _ neg.id).drop _, _
      rw [hchain, hlength, List.drop_left]
      have hend := hdb.consistent.reading_last hread hm
      rw [← hread.proposals, ← hgrown] at hend
      cases grown with
      | nil =>
          -- nothing has been proposed since, so the price is that of the button
          left
          rw [List.append_nil, hlast₀] at hend
          rw [← Option.some.inj hend]
          exact congrArg some hamount
      | cons next grown =>
          right
          refine ⟨next, List.mem_cons_self, ?_⟩
          -- the proposal of the button is of the other party, so the next one is the user's
          obtain ⟨_, _, _, _, _, hparties⟩ := hdb.consistent.reading hread
          obtain ⟨_, hshape⟩ := hparties.shape
          rw [← hread.proposals, ← hgrown] at hshape
          obtain ⟨hpos, hat⟩ := getElem?_of_getLast? hlast₀
          have hlt : (db₀.proposalsOf neg.id).length - 1 < (db₀.proposalsOf neg.id).length := by omega
          have hturn := (hshape _ last₀ ((List.getElem?_append_left hlt).trans hat)).1
          have hnext := (hshape (db₀.proposalsOf neg.id).length next (by simp)).1
          have huser := seat_succ hm.participant fun h => hother (hturn.trans h)
          rw [Nat.sub_add_cancel hpos] at huser
          exact hnext.trans huser.symm

/-- The row of the key says nothing about it. -/
theorem Said.Holds.committed {said : Said} (h : said.Holds user (engine.view o.writes db))
    (req : HttpRequest) : said.Holds user (engine.view (committedWrites req user o) db) := by
  rw [view_committed]
  cases said <;> exact h

end

end Procurement
