/-
  Procurement.Frontend.Turn
  ─────────────────────────
  **WHOSE TURN IT IS, IN TWO LANGUAGES** (`static/app.js`).

  The page works on the JSON of two reads: `updateSummary` on the rows of
  the listing, `renderTurn` on one negotiation with its proposals.  Neither
  asks the server who may act.  That both agree with the guards of the
  three decisions is a matter of the chain: the last proposal is always one of
  the two parties', and the parties are different users.
-/
import Mathlib.Tactic.TFAE
import Procurement.Runs.Listings

namespace Procurement

open Procurement.Framework

/-! ## §1. The page. -/

inductive Button where
  | accept (amount : Amount) (currency : String)
  | counter
  | reject
  deriving DecidableEq, Repr

/-- The banner and the buttons of a negotiation's detail. -/
structure TurnView where
  bannerText : String
  bannerClass : String
  actions : List Button
  deriving DecidableEq, Repr

/-- `last` is undefined for an empty list, and then `myTurn` is falsy. -/
def renderTurn (userId : Id) (neg : NegotiationDetailOut) : TurnView :=
  let isActive := neg.status = .active
  match neg.proposals.getLast?.filter fun last => isActive ∧ last.actorId ≠ userId with
  | some last =>
      { bannerText := "✅ Es tu turno: responde a la última propuesta."
        bannerClass := "turn-banner mine"
        actions := [.accept last.amount last.currency, .counter, .reject] }
  | none =>
      if isActive then
        { bannerText := "⏳ Esperando respuesta de la contraparte."
          bannerClass := "turn-banner theirs", actions := [] }
      else { bannerText := "", bannerClass := "turn-banner hidden", actions := [] }

/-- The rows that `updateSummary` counts as the user's turn. -/
def myTurn (userId : Id) (negs : List NegotiationOut) : List NegotiationOut :=
  (negs.filter fun n => n.status = .active).filter fun n =>
    n.lastActorId ≠ none ∧ n.lastActorId ≠ some userId

structure Summary where
  requests : Nat
  negotiations : Nat
  turn : Nat
  turnHidden : Bool
  deriving DecidableEq, Repr

/-- Every row of the API has the key `last_actor_id`, so the statistic is
hidden when there is no row. -/
def updateSummary (userId : Id) (requests : List ProductRequestOut) (negs : List NegotiationOut) :
    Summary where
  requests := requests.length
  negotiations := (negs.filter fun n => n.status = .active).length
  turn := (myTurn userId negs).length
  turnHidden := !negs.any fun _ => true

/-- The three buttons are there. -/
def TurnView.ShowsDecisions (view : TurnView) : Prop :=
  ∃ amount currency, view.actions = [.accept amount currency, .counter, .reject]

theorem renderTurn_shows {userId : Id} {neg : NegotiationDetailOut} :
    (renderTurn userId neg).ShowsDecisions
      ↔ neg.status = .active ∧ ∃ last, neg.proposals.getLast? = some last ∧ last.actorId ≠ userId := by
  unfold renderTurn TurnView.ShowsDecisions
  cases hl : neg.proposals.getLast? with
  | none => by_cases ha : neg.status = .active <;> simp [ha]
  | some last =>
      by_cases ha : neg.status = .active
      · by_cases hu : last.actorId = userId <;> simp [Option.filter, ha, hu]
      · simp [Option.filter, ha]

theorem mem_myTurn {userId : Id} {negs : List NegotiationOut} {n : NegotiationOut} :
    n ∈ myTurn userId negs
      ↔ n ∈ negs ∧ n.status = .active ∧ ∃ a, n.lastActorId = some a ∧ a ≠ userId := by
  unfold myTurn
  rw [List.mem_filter, List.mem_filter]
  cases hl : n.lastActorId with
  | none => simp
  | some a => simp [and_assoc]

/-- The negotiations in a listing's body. -/
def negotiationRows (bodies : List Body) : List NegotiationOut :=
  bodies.filterMap fun body => match body with
    | .negotiation out => some out
    | .productRequest _ => none

theorem mem_negotiationRows {bodies : List Body} {out : NegotiationOut} :
    out ∈ negotiationRows bodies ↔ .negotiation out ∈ bodies := by
  unfold negotiationRows
  rw [List.mem_filterMap]
  constructor
  · rintro ⟨body, hbody, hout⟩
    cases body with
    | negotiation o =>
        obtain rfl := Option.some.inj hout
        exact hbody
    | productRequest o => exact absurd hout (by simp)
  · exact fun h => ⟨_, h, rfl⟩

/-! ## §2. The guards of a decision. -/

namespace Db

/-- `Negotiation.last_actor_id`. -/
def lastActorId (db : Db) (n : Negotiation) : Option Id :=
  (db.chain n.id).getLast?.map Proposal.actorId

/-- The user is the supplier, or the client of the request. -/
def TakesPart (db : Db) (userId : Id) (n : Negotiation) : Prop :=
  userId = n.supplierId ∨ ∃ r, db.request n.requestId = some r ∧ userId = r.clientId

/-- The negotiation is active, and the other party made its last proposal. -/
def MayAct (db : Db) (userId : Id) (n : Negotiation) : Prop :=
  n.status = .active ∧ ∃ a, db.lastActorId n = some a ∧ a ≠ userId

end Db

section
variable {db : Db} {user : User} {n : Negotiation} {env : Env}

/-- For a participant, the guards of `_load_active_for_response` come down to
the status and the last actor. -/
theorem Consistent.responds_iff_mayAct (h : Consistent db) (hn : n ∈ db.negotiations)
    (hp : db.TakesPart user.id n) :
    (∃ client ps last, Reading n client ps db ∧ MayRespond user n client ps last)
      ↔ db.MayAct user.id n := by
  obtain ⟨r, _, hreq, hchain⟩ := h.client hn
  -- the query by descending id and the end of the ordered list are one proposal
  have hlast : (db.proposalsOf n.id).argmax Proposal.id = (db.chain n.id).getLast? := by
    rw [h.chain_eq]
    exact hchain.argmax
  unfold Db.MayAct Db.lastActorId
  constructor
  · rintro ⟨client, ps, last, hread, hm⟩
    have hl := hm.isLast
    rw [← hread.proposals, hlast] at hl
    rw [hl]
    exact ⟨hm.active, last.actorId, rfl, hm.counterparty⟩
  · rintro ⟨ha, a, hactor, hne⟩
    obtain ⟨last, hl, rfl⟩ := Option.map_eq_some_iff.mp hactor
    refine ⟨r.clientId, db.proposalsOf n.id, last,
      ⟨h.negotiation_of_mem hn, ⟨r, hreq, rfl⟩, rfl⟩, ?_, ha, hlast.trans hl, hne⟩
    rcases hp with hs | ⟨q, hq, hc⟩
    · exact Or.inr hs
    · obtain rfl : r = q := Option.some.inj (hreq.symm.trans hq)
      exact Or.inl hc

/-- A decision without a key goes through exactly when its operation does. -/
theorem decision_succeeds_iff {op : Op} (hrole : op.role = none) (hu : db.user user.id = some user)
    (path : String) :
    (∃ a, ((Call.post ⟨user.id, none, path, op⟩).run env calm db).1 = .ok a)
      ↔ ∃ o, Produces db user env op o := by
  have hout := unkeyed_outcome ⟨user.id, none, path, op⟩ env rfl hu
  constructor
  · rintro ⟨a, ha⟩
    rcases hout with ⟨o, hx, _⟩ | ⟨_, e, he⟩
    · exact ⟨o, hx.produces⟩
    · rw [he] at ha
      exact absurd ha (by simp)
  · rintro ⟨o, ho⟩
    rcases hout with ⟨_, _, hrun⟩ | ⟨hno, _⟩
    · rw [hrun]
      exact ⟨_, rfl⟩
    · refine absurd ⟨hu, ?_, ?_, ho⟩ (hno o)
      · exact fun r hr => absurd (hrole.symm.trans hr) (by simp)
      · exact fun k hk => absurd hk (usedKey_ne rfl k)

/-- The row behind an id is the negotiation itself. -/
theorem Consistent.guards_iff_mayAct (h : Consistent db) (hn : n ∈ db.negotiations)
    (hp : db.TakesPart user.id n) :
    (∃ neg client ps last, neg.id = n.id ∧ Reading neg client ps db
        ∧ MayRespond user neg client ps last)
      ↔ db.MayAct user.id n := by
  rw [← h.responds_iff_mayAct hn hp]
  constructor
  · rintro ⟨neg, client, ps, last, hid, hread, hm⟩
    obtain rfl := h.negotiation_eq (lookup_mem hread.row) hn hid
    exact ⟨client, ps, last, hread, hm⟩
  · rintro ⟨client, ps, last, hread, hm⟩
    exact ⟨n, client, ps, last, rfl, hread, hm⟩

/-! ## §3. What the page shows. -/

/-- A row that the summary counts is the row of a negotiation the user may act
on. -/
theorem Consistent.summary_iff_mayAct (h : Consistent db) (hu : user ∈ db.users)
    (hn : n ∈ db.negotiations) (hp : db.TakesPart user.id n) :
    (∃ (p : Page) (bodies : List Body) (out : NegotiationOut),
        ReadRequest.response ⟨user.id, .listNegotiations p⟩ env db = .ok (.items bodies)
          ∧ out ∈ myTurn user.id (negotiationRows bodies) ∧ out.id = n.id)
      ↔ db.MayAct user.id n := by
  have hrow : db.user user.id = some user := lookup_of_mem h.userIds hu
  constructor
  · rintro ⟨p, bodies, out, hresp, hout, hid⟩
    obtain ⟨hmem, hact⟩ := mem_myTurn.mp hout
    rw [response_eq hrow] at hresp
    obtain rfl := ReadBody.items.inj (Except.ok.inj hresp)
    obtain ⟨m, hm, hmo⟩ := List.mem_map.mp (mem_negotiationRows.mp hmem)
    obtain rfl := Body.negotiation.inj hmo
    -- the row carries the status and the last actor of its negotiation
    have hlisted := mem_of_mem_page hm
    have hmn : m ∈ db.negotiations := by
      unfold Db.listedNegotiations at hlisted
      split at hlisted <;> exact List.mem_of_mem_filter hlisted
    obtain rfl : m = n := h.negotiation_eq hmn hn hid
    exact hact
  · intro hact
    obtain ⟨r, _, hreq, _⟩ := h.client hn
    have hlisted : n ∈ db.listedNegotiations user := by
      rw [h.mem_listedNegotiations hu hn hreq]
      rcases hp with hs | ⟨q, hq, hc⟩
      · exact Or.inr hs
      · obtain rfl : r = q := Option.some.inj (hreq.symm.trans hq)
        exact Or.inl hc
    obtain ⟨p, hpage⟩ := exists_page Negotiation.id hlisted
    refine ⟨p, _, db.out n, response_eq hrow _, mem_myTurn.mpr ⟨?_, hact⟩, rfl⟩
    exact mem_negotiationRows.mpr (List.mem_map.mpr ⟨n, hpage, rfl⟩)

/-- The detail shows the buttons to the participant who may act. -/
theorem Consistent.detail_iff_mayAct (h : Consistent db) (hu : user ∈ db.users)
    (hn : n ∈ db.negotiations) (hp : db.TakesPart user.id n) :
    (∃ out, ReadRequest.response ⟨user.id, .getNegotiation n.id⟩ env db = .ok (.detail out)
        ∧ (renderTurn user.id out).ShowsDecisions)
      ↔ db.MayAct user.id n := by
  have hrow : db.user user.id = some user := lookup_of_mem h.userIds hu
  have hfor : db.negotiationFor user n.id = .ok n := by
    obtain ⟨r, _, hreq, _⟩ := h.client hn
    refine Db.negotiationFor_iff.mpr ⟨h.negotiation_of_mem hn, r, hreq, ?_⟩
    rcases hp with hs | ⟨q, hq, hc⟩
    · exact Or.inr hs
    · obtain rfl : r = q := Option.some.inj (hreq.symm.trans hq)
      exact Or.inl hc
  have hdetail : ReadRequest.response ⟨user.id, .getNegotiation n.id⟩ env db
      = .ok (.detail (db.detail n)) := by
    rw [response_eq hrow]
    show (db.negotiationFor user n.id).map _ = _
    rw [hfor]
    rfl
  have hlast : (∃ last, (db.detail n).proposals.getLast? = some last ∧ last.actorId ≠ user.id)
      ↔ ∃ a, db.lastActorId n = some a ∧ a ≠ user.id := by
    show (∃ last, ((db.chain n.id).map proposalOut).getLast? = some last ∧ _) ↔ _
    unfold Db.lastActorId
    rw [List.getLast?_map]
    cases (db.chain n.id).getLast? <;> simp [proposalOut]
  rw [hdetail]
  constructor
  · rintro ⟨out, hout, hshows⟩
    obtain rfl := ReadBody.detail.inj (Except.ok.inj hout)
    obtain ⟨ha, hl⟩ := renderTurn_shows.mp hshows
    exact ⟨ha, hlast.mp hl⟩
  · rintro ⟨ha, hl⟩
    exact ⟨_, rfl, renderTurn_shows.mpr ⟨ha, hlast.mpr hl⟩⟩

/-- **An active negotiation is one registered participant's turn.** -/
theorem Consistent.one_mayAct (h : Consistent db) (hn : n ∈ db.negotiations)
    (ha : n.status = .active) :
    ∃! user : User, user ∈ db.users ∧ db.TakesPart user.id n ∧ db.MayAct user.id n := by
  obtain ⟨r, hr, hreq, hchain⟩ := h.client hn
  obtain ⟨last, hl⟩ : ∃ last, (db.proposalsOf n.id).getLast? = some last :=
    Option.isSome_iff_exists.mp (List.getLast?_isSome.mpr hchain.nonempty)
  have hactor : db.lastActorId n = some last.actorId := by
    unfold Db.lastActorId
    rw [h.chain_eq, hl]
    rfl
  have hsupplied := h.outline.supplied n.thread (List.mem_map_of_mem hn)
  have howned := h.outline.owned r.ownership (List.mem_map_of_mem hr)
  have hne : n.supplierId ≠ r.clientId := h.outline.parties_ne hsupplied howned
  -- the last proposal is one of the parties', so the other one is on turn
  have hother : ∀ u : User, db.TakesPart u.id n ∧ db.MayAct u.id n ↔
      u.id = if last.actorId = n.supplierId then r.clientId else n.supplierId := by
    intro u
    have hseat : last.actorId = n.supplierId ∨ last.actorId = r.clientId := by
      rw [hchain.last_actor hl]
      unfold seat
      split
      · exact Or.inl rfl
      · exact Or.inr rfl
    have hturn : db.MayAct u.id n ↔ last.actorId ≠ u.id := by
      unfold Db.MayAct
      rw [hactor]
      simp [ha]
    have hpart : db.TakesPart u.id n ↔ u.id = n.supplierId ∨ u.id = r.clientId := by
      unfold Db.TakesPart
      rw [hreq]
      simp
    rw [hturn, hpart]
    rcases hseat with hs | hc
    · rw [if_pos hs, hs]
      constructor
      · rintro ⟨hu | hu, hno⟩
        · exact absurd hu.symm hno
        · exact hu
      · exact fun hu => ⟨Or.inr hu, fun he => hne (he.trans hu)⟩
    · rw [if_neg fun hs => hne (hs.symm.trans hc), hc]
      constructor
      · rintro ⟨hu | hu, hno⟩
        · exact hu
        · exact absurd hu.symm hno
      · exact fun hu => ⟨Or.inl hu, fun he => hne (hu.symm.trans he.symm)⟩
  obtain ⟨user, huser, huid⟩ : ∃ u ∈ db.users,
      u.id = if last.actorId = n.supplierId then r.clientId else n.supplierId := by
    split
    · obtain ⟨u, hu, hui, _⟩ := howned
      exact ⟨u, hu, hui⟩
    · obtain ⟨u, hu, hui, _⟩ := hsupplied
      exact ⟨u, hu, hui⟩
  refine ⟨user, ⟨huser, (hother user).mpr huid⟩, ?_⟩
  rintro v ⟨hv, hact⟩
  exact List.inj_on_of_nodup_map h.userIds hv huser (((hother v).mp hact).trans huid.symm)

end

/-! ## §4. The agreement. -/

/-- **Server, API field and page agree on whose turn it is.**  In every reachable
state, for a registered participant, the three decisions succeed exactly when
the negotiation is active and its last actor is somebody else, which is when
the summary counts it and the detail shows the buttons; and an active
negotiation is exactly one registered user's turn. -/
theorem turn_agrees {db : Db} (h : Reachable db) (env : Env) (path : String) (data : CounterIn) :
    (∀ n ∈ db.negotiations, ∀ user ∈ db.users, db.TakesPart user.id n →
      [(∃ a, ((Call.post ⟨user.id, none, path, .accept n.id⟩).run env calm db).1 = .ok a),
       (∃ a, ((Call.post ⟨user.id, none, path, .reject n.id⟩).run env calm db).1 = .ok a),
       (∃ a, ((Call.post ⟨user.id, none, path, .counter n.id data⟩).run env calm db).1 = .ok a),
       n.status = .active ∧ ∃ a, db.lastActorId n = some a ∧ a ≠ user.id,
       (∃ (p : Page) (bodies : List Body) (out : NegotiationOut),
          ReadRequest.response ⟨user.id, .listNegotiations p⟩ env db = .ok (.items bodies)
            ∧ out ∈ myTurn user.id (negotiationRows bodies) ∧ out.id = n.id),
       (∃ out, ReadRequest.response ⟨user.id, .getNegotiation n.id⟩ env db = .ok (.detail out)
          ∧ (renderTurn user.id out).ShowsDecisions)].TFAE)
    ∧ ∀ n ∈ db.negotiations, n.status = .active →
        ∃! user : User, user ∈ db.users ∧ db.TakesPart user.id n
          ∧ ∃ a, ((Call.post ⟨user.id, none, path, .accept n.id⟩).run env calm db).1 = .ok a := by
  have hc := h.consistent
  have haccept : ∀ n ∈ db.negotiations, ∀ user ∈ db.users, db.TakesPart user.id n →
      ((∃ a, ((Call.post ⟨user.id, none, path, .accept n.id⟩).run env calm db).1 = .ok a)
        ↔ db.MayAct user.id n) := by
    intro n hn user hu hp
    rw [decision_succeeds_iff rfl (lookup_of_mem hc.userIds hu) path, produces_accept_iff]
    exact hc.guards_iff_mayAct hn hp
  constructor
  · intro n hn user hu hp
    have hrow : db.user user.id = some user := lookup_of_mem hc.userIds hu
    tfae_have 1 ↔ 4 := haccept n hn user hu hp
    tfae_have 2 ↔ 4 := by
      rw [decision_succeeds_iff rfl hrow path, produces_reject_iff]
      exact hc.guards_iff_mayAct hn hp
    tfae_have 3 ↔ 4 := by
      rw [decision_succeeds_iff rfl hrow path, produces_counter_iff]
      exact hc.guards_iff_mayAct hn hp
    tfae_have 5 ↔ 4 := hc.summary_iff_mayAct hu hn hp
    tfae_have 6 ↔ 4 := hc.detail_iff_mayAct hu hn hp
    tfae_finish
  · intro n hn ha
    obtain ⟨user, ⟨hu, hp, hact⟩, honly⟩ := hc.one_mayAct hn ha
    refine ⟨user, ⟨hu, hp, (haccept n hn user hu hp).mpr hact⟩, ?_⟩
    rintro v ⟨hv, hvp, hvact⟩
    exact honly v ⟨hv, hvp, (haccept n hn v hv hvp).mp hvact⟩

/-- Client 1 of the market is on turn in negotiation 1: its supplier has made
the only proposal.  So the page shows him the buttons. -/
theorem turn_agrees_market :
    ∃ out, ReadRequest.response ⟨1, .getNegotiation 1⟩ (.following market) market
        = .ok (.detail out) ∧ (renderTurn 1 out).ShowsDecisions := by
  have hshown : ∀ db, Reachable db →
      (∃ n ∈ db.negotiations, n.id = 1 ∧ n.status = .active
        ∧ (db.request n.requestId).map ProductRequest.clientId = some 1
        ∧ db.lastActorId n = some 2) →
      (∃ user ∈ db.users, user.id = 1) →
      ∃ out, ReadRequest.response ⟨1, .getNegotiation 1⟩ (.following db) db = .ok (.detail out)
        ∧ (renderTurn 1 out).ShowsDecisions := by
    rintro db hdb ⟨n, hn, hid, ha, hclient, hlast⟩ ⟨user, hu, huid⟩
    obtain ⟨r, hr, hrc⟩ := Option.map_eq_some_iff.mp hclient
    have hp : db.TakesPart user.id n := Or.inr ⟨r, hr, huid.trans hrc.symm⟩
    have hall := (turn_agrees hdb (.following db) "" ⟨1, none, by decide, by decide, by simp⟩).1
      n hn user hu hp
    have hbuttons : (n.status = .active ∧ ∃ a, db.lastActorId n = some a ∧ a ≠ user.id)
        ↔ ∃ out, ReadRequest.response ⟨user.id, .getNegotiation n.id⟩ (.following db) db
          = .ok (.detail out) ∧ (renderTurn user.id out).ShowsDecisions := hall.out 3 5
    rw [huid, hid] at hbuttons
    exact hbuttons.mp ⟨ha, 2, hlast, by decide⟩
  exact hshown market market_reachable (by decide +kernel) (by decide +kernel)

end Procurement
