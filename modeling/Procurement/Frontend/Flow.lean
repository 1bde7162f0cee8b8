/-
  Procurement.Frontend.Flow
  ─────────────────────────
  **CLICKING WHAT THE PAGE SHOWS.**

  A page is old when it is clicked on: others have called the API since it was
  filled.  The amount that the accept button stands for is the last proposal's, and
  that stays the last one until the user himself counters, since the others who may
  counter would have to answer their own proposal.  (The button's text is the amount
  as `money` formats it, in whole pesos.)

      page filled ── calls by anybody, but no counter of the user's own ──> click

  So what an acceptance agrees on is what the button stood for.  And after a click the
  turn is the other party's, or nobody's.
-/
import Procurement.Frontend.Turn
import Procurement.Runs.Acceptance

namespace Procurement

open Procurement.Framework

/-! ## §1. The three faces of the panel. -/

def TurnView.mine (last : ProposalOut) : TurnView where
  bannerText := "✅ Es tu turno: responde a la última propuesta."
  bannerClass := "turn-banner mine"
  actions := [.accept last.amount last.currency, .counter, .reject]

def TurnView.theirs : TurnView where
  bannerText := "⏳ Esperando respuesta de la contraparte."
  bannerClass := "turn-banner theirs"
  actions := []

def TurnView.over : TurnView where
  bannerText := ""
  bannerClass := "turn-banner hidden"
  actions := []

section
variable {userId : Id} {neg : NegotiationDetailOut} {last : ProposalOut}

theorem renderTurn_mine (ha : neg.status = .active) (hl : neg.proposals.getLast? = some last)
    (hne : last.actorId ≠ userId) : renderTurn userId neg = .mine last := by
  unfold renderTurn
  simp [hl, Option.filter, ha, hne, TurnView.mine]

theorem renderTurn_theirs (ha : neg.status = .active) (hl : neg.proposals.getLast? = some last)
    (hturn : last.actorId = userId) : renderTurn userId neg = .theirs := by
  unfold renderTurn
  simp [hl, Option.filter, ha, hturn, TurnView.theirs]

theorem renderTurn_over (hs : neg.status ≠ .active) : renderTurn userId neg = .over := by
  unfold renderTurn
  cases hl : neg.proposals.getLast? with
  | none => simp [hs, TurnView.over]
  | some p => simp [Option.filter, hs, TurnView.over]

/-- A price on the accept button is the last proposal's, which is the other
party's. -/
theorem accept_button {amount : Amount} {currency : String}
    (h : .accept amount currency ∈ (renderTurn userId neg).actions) :
    neg.status = .active ∧ ∃ last, neg.proposals.getLast? = some last ∧ last.actorId ≠ userId
      ∧ last.amount = amount ∧ last.currency = currency := by
  by_cases ha : neg.status = .active
  · cases hl : neg.proposals.getLast? with
    | none =>
        unfold renderTurn at h
        simp [hl, ha] at h
    | some last =>
        by_cases hturn : last.actorId = userId
        · rw [renderTurn_theirs ha hl hturn] at h
          exact absurd h (by simp [TurnView.theirs])
        · rw [renderTurn_mine ha hl hturn] at h
          have heq : amount = last.amount ∧ currency = last.currency := by
            simpa [TurnView.mine] using h
          exact ⟨ha, last, rfl, hturn, heq.1.symm, heq.2.symm⟩
  · rw [renderTurn_over ha] at h
    exact absurd h (by simp [TurnView.over])

end

/-! ## §2. While the page stands. -/

/-- One call, none of those in `P`. -/
def StepBut (P : Call → Prop) (db db' : Db) : Prop :=
  ∃ (call : Call) (env : Env) (f : Nat → Bool),
    ¬ P call ∧ Fresh env db ∧ db' = (call.run env f db).2

theorem StepBut.step {P : Call → Prop} {db db' : Db} (h : StepBut P db db') : Step db db' := by
  obtain ⟨call, env, f, _, hf, hrun⟩ := h
  exact ⟨call, env, f, hf, hrun⟩

theorem steps_of_stepsBut {P : Call → Prop} {db db' : Db}
    (h : Relation.ReflTransGen (StepBut P) db db') : Relation.ReflTransGen Step db db' := by
  induction h with
  | refl => exact .refl
  | tail _ hstep ih => exact ih.tail hstep.step

/-- A counter by that user on that negotiation. -/
def Call.CountersAs (userId negotiationId : Id) : Call → Prop
  | .register _ => False
  | .post req => req.caller = userId ∧ ∃ data, req.op = .counter negotiationId data

/-- Of the two parties, the one who did not make the last proposal. -/
theorem Chain.other_party {s c x y : Id} {ps : List Proposal} {last : Proposal}
    (h : Chain s c ps) (hl : ps.getLast? = some last) (hx : x = c ∨ x = s) (hy : y = c ∨ y = s)
    (hnx : last.actorId ≠ x) (hny : last.actorId ≠ y) : x = y := by
  rw [h.last_actor hl] at hnx hny
  exact (seat_succ hx hnx).trans (seat_succ hy hny).symm

section
variable {db db' : Db} {userId : Id} {n : Negotiation} {last : Proposal}

/-- **One call leaves the chain alone**, when the user may act and does not
counter. -/
theorem StepBut.keeps_chain (hc : Consistent db) (hn : n ∈ db.negotiations)
    (hp : db.TakesPart userId n) (hl : (db.proposalsOf n.id).getLast? = some last)
    (hne : last.actorId ≠ userId) (h : StepBut (Call.CountersAs userId n.id) db db') :
    db'.proposalsOf n.id = db.proposalsOf n.id := by
  obtain ⟨call, env, f, hno, hf, rfl⟩ := h
  cases call with
  | register data =>
      show (engine.request (handleRegister data) env f db).2.proposalsOf n.id = _
      rcases register_outcome data env f db with h | ⟨_, h⟩
      · rw [h]
      · rw [h]
        rfl
  | post req =>
      show (engine.request (handle req) env f db).2.proposalsOf n.id = _
      rcases handle_cases req env f db with ⟨e, hrun⟩ | ⟨_, _, _, hrun⟩ | ⟨user, o, hx, hrun⟩
      · rw [hrun]
      · rw [hrun]
      · rw [hrun, view_committed]
        show (engine.view o.writes db).proposalsOf n.id = _
        have hproduces := hx.produces
        generalize hop : req.op = op at hproduces
        cases hproduces with
        | createRequest data => rfl
        | @makeOffer r data hread ho =>
            have hnew : (env.opening user r.id data).negotiationId ≠ n.id := by
              intro he
              exact hf.unused .negotiations 0 (List.mem_map.mpr ⟨n, hn, he.symm⟩)
            exact proposalsOf_concat hnew
        | reject hread hm => rfl
        | accept hread hm hrow =>
            show (engine.view (acceptWrites _ _ _ _ _ _) db).proposalsOf n.id = _
            rw [view_accept _ _ _ _ _ _ _ winner_not_sibling]
            rfl
        | @counter neg client ps answered data hread hm =>
            by_cases hid : neg.id = n.id
            · -- only the user himself could answer the last proposal
              obtain ⟨hneg, q, hq, hqid, hclient, hchain⟩ := hc.reading hread
              obtain rfl : neg = n := hc.negotiation_eq hneg hn hid
              have hlast : answered = last := by
                have hsame := hc.reading_last hread hm
                rw [← hread.proposals, hl] at hsame
                exact (Option.some.inj hsame).symm
              have huser : userId = client ∨ userId = neg.supplierId := by
                rcases hp with hs | ⟨r, hr, hrc⟩
                · exact Or.inr hs
                · obtain rfl : q = r := by
                    refine hc.request_eq hq (lookup_mem hr) ?_
                    rw [hqid]
                    exact (lookup_key hr).symm
                  exact Or.inl (hrc.trans hclient)
              rw [hread.proposals] at hl
              have hsame : user.id = userId :=
                hchain.other_party hl hm.participant huser (hlast ▸ hm.counterparty) hne
              have hcaller : req.caller = userId := (lookup_key hx.caller).symm.trans hsame
              exact absurd ⟨hcaller, data, hop⟩ hno
            · exact proposalsOf_concat hid

/-- A participant stays one. -/
theorem Step.keeps_part (hr : Reachable db) (hs : Step db db') {m : Negotiation}
    (hid : m.thread = n.thread) (hp : db.TakesPart userId n) : db'.TakesPart userId m := by
  have hc' : Consistent db' := Reachable.consistent (hr.tail hs)
  have hrequest : m.requestId = n.requestId := congrArg Thread.requestId hid
  rcases hp with hsup | ⟨r, hrow, hclient⟩
  · exact Or.inl (hsup.trans (congrArg Thread.supplierId hid).symm)
  · obtain ⟨q, hq, hown⟩ := hs.keeps_owners r (lookup_mem hrow)
    have hqid : q.id = m.requestId :=
      (congrArg Ownership.id hown).trans ((lookup_key hrow).trans hrequest.symm)
    refine Or.inr ⟨q, ?_, hclient.trans (congrArg Ownership.clientId hown).symm⟩
    rw [← hqid]
    exact hc'.request_of_mem hq

/-- **While the user does not counter, his page stands**: the chain that it shows
is the chain. -/
theorem chain_stands (hdb : Reachable db) (hn : n ∈ db.negotiations) (hp : db.TakesPart userId n)
    (hl : (db.proposalsOf n.id).getLast? = some last) (hne : last.actorId ≠ userId)
    (hrun : Relation.ReflTransGen (StepBut (Call.CountersAs userId n.id)) db db') :
    db'.proposalsOf n.id = db.proposalsOf n.id
      ∧ ∃ m ∈ db'.negotiations, m.thread = n.thread ∧ db'.TakesPart userId m := by
  induction hrun with
  | refl => exact ⟨rfl, n, hn, rfl, hp⟩
  | @tail db₁ db₂ hsteps hstep ih =>
      obtain ⟨hchain, m, hm, hthread, hpart⟩ := ih
      have hr : Reachable db₁ := hdb.trans (steps_of_stepsBut hsteps)
      have hid : m.id = n.id := congrArg Thread.id hthread
      have hkeep : db₂.proposalsOf m.id = db₁.proposalsOf m.id := by
        have hlast : (db₁.proposalsOf m.id).getLast? = some last := by
          rw [hid, hchain]
          exact hl
        refine StepBut.keeps_chain hr.consistent hm hpart hlast hne ?_
        rw [hid]
        exact hstep
      obtain ⟨m', hm', hthread'⟩ := hstep.step.keeps_threads m hm
      refine ⟨?_, m', hm', hthread'.trans hthread, hstep.step.keeps_part hr hthread' hpart⟩
      rw [← hid, hkeep, hid]
      exact hchain

end

/-! ## §3. What is agreed is what the button stood for. -/

/-- The page of the user shows an accept button of the negotiation, for this amount. -/
def Db.Offers (db : Db) (user : User) (negotiationId : Id) (amount : Amount) (currency : String) :
    Prop :=
  ∃ n, db.negotiationFor user negotiationId = .ok n
    ∧ .accept amount currency ∈ (renderTurn user.id (db.detail n)).actions

/-- The detail's last proposal is the chain's. -/
theorem detail_last {db : Db} {n : Negotiation} {out : ProposalOut}
    (h : (db.detail n).proposals.getLast? = some out) :
    ∃ last, (db.chain n.id).getLast? = some last ∧ out = proposalOut last := by
  have hmap : ((db.chain n.id).map proposalOut).getLast? = some out := h
  rw [List.getLast?_map] at hmap
  obtain ⟨last, hlast, hout⟩ := Option.map_eq_some_iff.mp hmap
  exact ⟨last, hlast, hout.symm⟩

/-- The winner's row behind its acceptance. -/
theorem accepted_row {db : Db} {env : Env} {user : User} {neg : Negotiation} {last : Proposal}
    {req : ProductRequest} {siblings : List Negotiation}
    (hw : neg.id ∉ siblings.map Negotiation.id) (hrow : db.negotiation neg.id = some neg) :
    (engine.view (acceptWrites env user neg last req siblings) db).negotiation neg.id
      = some ((Decision.accepted last.amount).on neg) := by
  rw [view_accept _ _ _ _ _ _ _ hw]
  show lookup Negotiation.id (db.negotiations.map _) neg.id = _
  rw [lookup_map _ (decided_id _ _ _)]
  show (db.negotiation neg.id).map _ = _
  rw [hrow, Option.map_some]
  unfold decided
  rw [if_pos rfl]

/-- **What is agreed is what the button stood for.**  The page showed the user an
accept button for an amount.  Then anybody called anything, the user himself too, but he
made no counter on that negotiation.  When it is accepted then, and not by the
replay of an older answer, the answer says that amount, the negotiation is accepted
at that amount, and its proposals are those the page showed. -/
theorem accept_as_shown {db db' : Db} (hdb : Reachable db) {user : User} {i : Id} {amount : Amount}
    {currency : String} (hshown : db.Offers user i amount currency)
    (hrun : Relation.ReflTransGen (StepBut (Call.CountersAs user.id i)) db db')
    {req : HttpRequest} (hop : req.op = .accept i) {env : Env} {f : Nat → Bool} {a : Answer}
    (hnew : ¬ (Call.post req).Replayed db')
    (hok : ((Call.post req).run env f db').1 = .ok a) :
    (∃ out, a = .response ⟨200, .negotiation out⟩ ∧ out.id = i ∧ out.status = .accepted
        ∧ out.agreedAmount = some amount)
      ∧ (∃ m, ((Call.post req).run env f db').2.negotiation i = some m ∧ m.status = .accepted
        ∧ m.agreedAmount = some amount)
      ∧ ((Call.post req).run env f db').2.chain i = db.chain i := by
  obtain ⟨n, hfor, hbutton⟩ := hshown
  obtain ⟨hrow, r, hreq, hpart⟩ := Db.negotiationFor_iff.mp hfor
  obtain rfl : n.id = i := lookup_key hrow
  have hc := hdb.consistent
  have hr' : Reachable db' := hdb.trans (steps_of_stepsBut hrun)
  have hc' := hr'.consistent
  -- what the button shows is the last proposal, of the other party
  obtain ⟨_, out, hout, hne, hamount, _⟩ := accept_button hbutton
  obtain ⟨last, hlast, rfl⟩ := detail_last hout
  have hl : (db.proposalsOf n.id).getLast? = some last := by
    rw [← hc.chain_eq]
    exact hlast
  have hp : db.TakesPart user.id n := by
    rcases hpart with hclient | hsup
    · exact Or.inr ⟨r, hreq, hclient⟩
    · exact Or.inl hsup
  obtain ⟨hchain, _⟩ := chain_stands hdb (lookup_mem hrow) hp hl hne hrun
  change (engine.request (handle req) env f db').1.map Answer.response = .ok a at hok
  show (∃ out, a = _ ∧ _) ∧ (∃ m, (engine.request (handle req) env f db').2.negotiation n.id = _ ∧ _)
    ∧ (engine.request (handle req) env f db').2.chain n.id = _
  rcases handle_cases req env f db' with ⟨e, hrun'⟩ | ⟨_, _, hrep, _⟩ | ⟨user', o, hx, hrun'⟩
  · rw [hrun'] at hok
    exact absurd hok (by simp [Except.map])
  · exact absurd ⟨_, _, hrep⟩ hnew
  · rw [hrun'] at hok ⊢
    have hproduces := hx.produces
    rw [hop] at hproduces hok
    generalize hid : n.id = i at hproduces hok hchain hl
    cases hproduces with
    | @accept neg client ps last' req' hread hm hrow' =>
        have hsame : last' = last := by
          have hend := hc'.reading_last hread hm
          rw [← hread.proposals, hchain, hl] at hend
          exact (Option.some.inj hend).symm
        subst hsame
        refine ⟨⟨_, (Except.ok.inj hok).symm, rfl, rfl, congrArg some hamount⟩, ?_, ?_⟩
        · rw [view_committed]
          show ∃ m, (engine.view (acceptWrites _ _ _ _ _ _) db').negotiation neg.id = some m ∧ _
          rw [accepted_row winner_not_sibling hread.row]
          exact ⟨_, rfl, rfl, congrArg some hamount⟩
        · rw [view_committed]
          show orderById ((engine.view (acceptWrites _ _ _ _ _ _) db').proposalsOf neg.id) = _
          rw [view_accept _ _ _ _ _ _ _ winner_not_sibling]
          show orderById (db'.proposalsOf neg.id) = orderById (db.proposalsOf neg.id)
          rw [hchain]

/-- The client sees the first bid at 100, rejects the second one, and accepts. -/
theorem accept_as_shown_market :
    (((market.after (.post (plain 1 (.reject 2)))).after (.post (plain 1 (.accept 1)))).negotiation 1).map
      Negotiation.agreedAmount = some (some 100) := by
  have hshown : (market.user 1).any (fun user => user.id = 1
      ∧ (match market.negotiationFor user 1 with
        | .ok n => decide (.accept 100 "COP" ∈ (renderTurn user.id (market.detail n)).actions)
        | .error _ => false) = true) = true := by decide +kernel
  obtain ⟨user, _, hboth⟩ := (Option.any_eq_true _ _).mp hshown
  obtain ⟨hid, hbutton⟩ := of_decide_eq_true hboth
  have hoffers : market.Offers user 1 100 "COP" := by
    cases hfor : market.negotiationFor user 1 with
    | error e =>
        rw [hfor] at hbutton
        exact absurd hbutton (by simp)
    | ok n =>
        rw [hfor] at hbutton
        exact ⟨n, hfor, of_decide_eq_true hbutton⟩
  have hstep : StepBut (Call.CountersAs user.id 1) market (market.after (.post (plain 1 (.reject 2)))) := by
    refine ⟨_, .following market, calm, ?_, Env.following_fresh market, rfl⟩
    rintro ⟨_, data, hop⟩
    exact absurd hop (by simp [plain])
  -- the state is named, so that nothing below computes it
  generalize hafter : market.after (.post (plain 1 (.reject 2))) = db at hstep
  have hok : ((Call.post (plain 1 (.accept 1))).run (.following db) calm db).1.isOk = true := by
    rw [← hafter]
    decide +kernel
  have hnew : ¬ (Call.post (plain 1 (.accept 1))).Replayed db := by
    rintro ⟨_, _, hrep⟩
    obtain ⟨k, hk, _⟩ := hrep.stored
    exact absurd hk (by simp [HttpRequest.usedKey, plain])
  cases ho : ((Call.post (plain 1 (.accept 1))).run (.following db) calm db).1 with
  | error e =>
      rw [ho] at hok
      exact absurd hok (by simp [Except.isOk, Except.toBool])
  | ok a =>
      obtain ⟨m, hm, _, hagreed⟩ := (accept_as_shown market_reachable hoffers
        (Relation.ReflTransGen.single hstep) rfl hnew ho).2.1
      show (((Call.post (plain 1 (.accept 1))).run (.following db) calm db).2.negotiation 1).map _ = _
      rw [hm, Option.map_some, hagreed]

/-! ## §4. Whose turn it is then. -/

/-- It is the turn of everybody but that user, who has named this price. -/
structure Handed (db : Db) (userId : Id) (n : Negotiation) (amount : Amount) (currency : String) :
    Prop where
  own : renderTurn userId (db.detail n) = .theirs
  other : ∀ w, w ≠ userId → ∃ last, renderTurn w (db.detail n) = .mine last
    ∧ last.amount = amount ∧ last.currency = currency

/-- It is nobody's turn any more. -/
def Over (db : Db) (n : Negotiation) : Prop := ∀ w, renderTurn w (db.detail n) = .over

theorem handed_of_last {db : Db} {n : Negotiation} {p : Proposal} (ha : n.status = .active)
    (hl : (db.chain n.id).getLast? = some p) :
    Handed db p.actorId n p.amount p.currency := by
  have hout : (db.detail n).proposals.getLast? = some (proposalOut p) := by
    show ((db.chain n.id).map proposalOut).getLast? = _
    rw [List.getLast?_map, hl]
    rfl
  exact
    { own := renderTurn_theirs ha hout rfl
      other := fun w hw => ⟨proposalOut p, renderTurn_mine ha hout (Ne.symm hw), rfl, rfl⟩ }

/-- A participant who passes the guards has the buttons. -/
theorem Consistent.offers_of_reading {db : Db} (hc : Consistent db) {user : User}
    {neg : Negotiation} {client : Id} {ps : List Proposal} {last : Proposal}
    (hread : Reading neg client ps db) (hm : MayRespond user neg client ps last) :
    db.Offers user neg.id last.amount last.currency := by
  obtain ⟨req, hreq, hclient⟩ := hread.owner
  have hl : (db.detail neg).proposals.getLast? = some (proposalOut last) := by
    show ((db.chain neg.id).map proposalOut).getLast? = _
    rw [List.getLast?_map, hc.chain_eq, hread.proposals, hc.reading_last hread hm]
    rfl
  refine ⟨neg, Db.negotiationFor_iff.mpr ⟨hread.row, req, hreq, ?_⟩, ?_⟩
  · rw [hclient]
    exact hm.participant
  · rw [renderTurn_mine hm.active hl hm.counterparty]
    exact List.mem_cons_self ..

/-- What the pages of a negotiation's users say before and behind an operation of
`user` that goes through. -/
def Hands (db db' : Db) (user : User) : Op → Prop
  | .createRequest _ => True
  | .makeOffer requestId data =>
      ∃ n ∈ db'.negotiations, n.requestId = requestId ∧ n.supplierId = user.id
        ∧ Handed db' user.id n data.amount data.currency
  | .counter i data =>
      ∃ amount currency, db.Offers user i amount currency
        ∧ ∃ n ∈ db'.negotiations, n.id = i ∧ Handed db' user.id n data.amount currency
  | .accept i =>
      ∃ amount currency, db.Offers user i amount currency
        ∧ ∃ n ∈ db'.negotiations, n.id = i ∧ n.agreedAmount = some amount ∧ Over db' n
  | .reject i =>
      ∃ amount currency, db.Offers user i amount currency
        ∧ ∃ n ∈ db'.negotiations, n.id = i ∧ n.agreedAmount = none ∧ Over db' n

/-- **The turn changes hands.**  Who acts on a negotiation had the buttons on his
page.  Behind an offer or a counter he waits, and the other party has the buttons,
for the amount that he has named; behind a decision nobody has them, and what is
agreed is the amount that his button stood for. -/
theorem turn_changes_hands {db : Db} (hdb : Reachable db) {req : HttpRequest} {user : User}
    {env : Env} {o : Produced} (hf : Fresh env db) (hx : Executes req user env o db) :
    Hands db (engine.view (committedWrites req user o) db) user req.op := by
  have hc := hdb.consistent
  have hstep : Step db (engine.view (committedWrites req user o) db) := by
    refine ⟨.post req, env, calm, hf, ?_⟩
    show _ = (engine.request (handle req) env calm db).2
    rw [executes_calm hx]
  have hc' : Consistent (engine.view (committedWrites req user o) db) :=
    Reachable.consistent (hdb.tail hstep)
  -- his key adds no proposal: the chains are those of his own writes
  have hproposals : ∀ i, (engine.view (committedWrites req user o) db).chain i
      = (engine.view o.writes db).proposalsOf i := by
    intro i
    rw [hc'.chain_eq, view_committed]
    rfl
  have hnegotiations : (engine.view (committedWrites req user o) db).negotiations
      = (engine.view o.writes db).negotiations := by rw [view_committed]
  have hproduces := hx.produces
  generalize req.op = op at hproduces
  generalize engine.view (committedWrites req user o) db = db' at hproposals hnegotiations ⊢
  cases hproduces with
  | createRequest data => trivial
  | @makeOffer r data hread ho =>
      -- the thread is new, and its opening bid is the last word
      refine ⟨env.offered user r.id, ?_, rfl, rfl, ?_⟩
      · rw [hnegotiations]
        exact List.mem_append_right _ (List.mem_singleton_self _)
      · refine handed_of_last (p := env.opening user r.id data) rfl ?_
        have hins : insertedProposals (env.offered user r.id).id (offerWrites env user r.id data)
            = [env.opening user r.id data] := by
          simp [offerWrites, insertedProposals, Env.opening, Env.proposalOf, Env.newProposal]
        rw [hproposals, proposalsOf_view]
        show (_ ++ insertedProposals _ (offerWrites env user r.id data)).getLast? = _
        rw [hins, List.getLast?_concat]
  | @counter neg client ps last data hread hm =>
      -- the counter is the last word now: the other party acts on it
      refine ⟨_, _, hc.offers_of_reading hread hm, neg, ?_, rfl, ?_⟩
      · rw [hnegotiations]
        exact lookup_mem hread.row
      · refine handed_of_last (p := env.countered user neg last data) hm.active ?_
        have hins : insertedProposals neg.id (counterWrites env user neg last data)
            = [env.countered user neg last data] := by
          simp [counterWrites, insertedProposals, Env.countered, Env.proposalOf, Env.newProposal]
        rw [hproposals, proposalsOf_view]
        show (_ ++ insertedProposals _ (counterWrites env user neg last data)).getLast? = _
        rw [hins, List.getLast?_concat]
  | @reject neg client ps last hread hm =>
      have hneg : neg ∈ db.negotiations := lookup_mem hread.row
      -- an active thread has agreed on nothing, and a rejection leaves it so
      have hagreed : neg.agreedAmount = none := hc.agreed_none hneg hm.active
      refine ⟨_, _, hc.offers_of_reading hread hm, Decision.rejected.on neg, ?_, rfl,
        hagreed, fun w => renderTurn_over (by simp [Db.detail, Db.out, Decision.on])⟩
      rw [hnegotiations]
      exact List.mem_map.mpr ⟨neg, hneg, if_pos rfl⟩
  | @accept neg client ps last req' hread hm hrow =>
      refine ⟨_, _, hc.offers_of_reading hread hm, (Decision.accepted last.amount).on neg, ?_, rfl,
        rfl, fun w => renderTurn_over (by simp [Db.detail, Db.out, Decision.on])⟩
      rw [hnegotiations]
      exact lookup_mem (accepted_row winner_not_sibling hread.row)

/-- The client accepts the first bid: his button said 100. -/
theorem turn_changes_hands_market :
    ∃ user o, Hands market (engine.view (committedWrites (plain 1 (.accept 1)) user o) market) user
      (.accept 1) := by
  have hkind : ((Call.post (plain 1 (.accept 1))).run (.following market) calm market).1.isOk = true := by
    decide +kernel
  rcases handle_cases (plain 1 (.accept 1)) (.following market) calm market with
    ⟨e, hrun⟩ | ⟨user, record, hrep, _⟩ | ⟨user, o, hx, _⟩
  · simp only [Call.run, hrun] at hkind
    exact absurd hkind (by simp [Except.map, Except.isOk, Except.toBool])
  · obtain ⟨k, hk, _⟩ := hrep.stored
    exact absurd hk (by simp [HttpRequest.usedKey, plain])
  · exact ⟨user, o, turn_changes_hands market_reachable (Env.following_fresh market) hx⟩

end Procurement
