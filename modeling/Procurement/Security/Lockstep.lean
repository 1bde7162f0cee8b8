/-
  Procurement.Security.Lockstep
  ─────────────────────────────
  **THE ENDPOINTS ON TWO DATABASES THAT AGREE.**

  The same request on two databases that agree in a scope goes through the same
  statements on both.  It raises the same error or succeeds on both, leaves
  databases that agree, and answers a reader with the same body
  (`handle_alike`, `handleRead_alike`).  The payloads of an offer or a
  counterproposal may differ where the price is secret.

  The argument for a reader is in `ensureParticipant_alike`: whoever passes
  that guard is a party, and no price is kept from a party.
-/
import Procurement.Framework.Alike
import Procurement.Routers.Reads
import Procurement.Security.Scope

namespace Procurement

open Procurement.Framework
open Procurement.Framework.Program

namespace Scope

/-- The two programs take the same way on databases that agree. -/
abbrev Alike (sc : Scope) {α β : Type} (V : α → β → Prop) (env : Env) (p : Prog α)
    (p' : Prog β) : Prop := engine.Alike sc.Agree V env p p'

variable {sc : Scope} {env : Env} {α β : Type} {V : α → β → Prop}

/-! ## §1. Statements. -/

/-- A SELECT. -/
theorem Alike.select {c : Cmd} {k : c.Resp → Prog α} {k' : c.Resp → Prog β}
    {A : c.Resp → c.Resp → Prop} (hw : c.writes env = []) (hn : c.next env = env)
    (ha : ∀ db db', sc.Agree db db' → Similar A (c.answer env db) (c.answer env db'))
    (h : ∀ r r', A r r' → sc.Alike V env (k r) (k' r')) :
    sc.Alike V env (.call c k) (.call c k') := by
  refine .call ⟨ha, ?_, rfl⟩ ?_
  · intro db db' hdb
    show sc.Agree (engine.view (c.writes env) db) (engine.view (c.writes env) db')
    rw [hw]
    exact hdb
  · intro r r' hr
    show sc.Alike V (c.next env) (k r) (k' r')
    rw [hn]
    exact h r r' hr

/-- A SELECT with the same result on both sides. -/
theorem Alike.read {c : Cmd} {k : c.Resp → Prog α} {k' : c.Resp → Prog β} (hw : c.writes env = [])
    (hn : c.next env = env)
    (ha : ∀ db db', sc.Agree db db' → c.answer env db = c.answer env db')
    (h : ∀ r, sc.Alike V env (k r) (k' r)) : sc.Alike V env (.call c k) (.call c k') := by
  refine Alike.select (A := Eq) hw hn (fun db db' hdb => similar_eq.mpr (ha db db' hdb)) ?_
  intro r r' hr
  rw [← hr]
  exact h r

/-- An INSERT or an UPDATE. -/
theorem Alike.stage {c c' : Cmd} {k : c.Resp → Prog α} {k' : c'.Resp → Prog β}
    {A : c.Resp → c'.Resp → Prop} {w w' : Write} (hp : sc.Paired w w')
    (hw : c.writes env = [w]) (hw' : c'.writes env = [w']) (hn : c.next env = c'.next env)
    (ha : ∀ db db', sc.Agree db db' → Similar A (c.answer env db) (c'.answer env db'))
    (h : ∀ r r', A r r' → sc.Alike V (c.next env) (k r) (k' r')) :
    sc.Alike V env (.call c k) (.call c' k') := by
  refine .call ⟨ha, ?_, hn⟩ h
  intro db db' hdb
  show sc.Agree (engine.view (c.writes env) db) (engine.view (c'.writes env) db')
  rw [hw, hw']
  exact hdb.apply hp

/-- An audit entry: its details do not matter, nobody reads them. -/
theorem record_alike (action : AuditAction) (ety : EntityType) (eid aid : Option Id)
    (details details' : Details) :
    sc.Alike (fun _ _ => True) env (record action ety eid aid details)
      (record action ety eid aid details') := by
  refine Alike.read rfl rfl (fun _ _ _ => rfl) fun correlationId => ?_
  exact Alike.stage (A := fun _ _ => True) (.insertAudit _ _) rfl rfl rfl (fun _ _ _ => .ok trivial)
    fun _ _ _ => .ret trivial

/-- Two prices for one new proposal. -/
theorem addProposal_alike {n n' : Negotiation} (hid : n'.id = n.id) (actor : User)
    (kind : ProposalKind) {a a' : Amount} {cur cur' : String} {m m' : Option String}
    (h : sc.secret n.id = false → a = a' ∧ cur = cur' ∧ m = m') :
    sc.Alike (fun _ _ => True) env (addProposal n actor kind a cur m)
      (addProposal n' actor kind a' cur' m') := by
  have hblur : sc.blurProposal (env.newProposal n.id actor.id actor.role kind a cur m)
      = sc.blurProposal (env.newProposal n'.id actor.id actor.role kind a' cur' m') := by
    rw [hid]
    cases hs : sc.secret n.id with
    | false =>
        obtain ⟨rfl, rfl, rfl⟩ := h hs
        rfl
    | true => simp [blurProposal, Env.newProposal, hs]
  exact Alike.stage (A := fun _ _ => True) (.insertProposal hblur) rfl rfl rfl
    (fun _ _ _ => .ok trivial) fun _ _ _ => .ret trivial

/-! ## §2. The guards. -/

/-- **Whoever passes is a party, and parties see the prices.** -/
theorem ensureParticipant_alike {i : Id} {n n' : Negotiation} (h : sc.Same i n n') (user : User) :
    sc.Alike (fun _ _ => sc.reader user.id = true → sc.secret i = false) env
      (ensureParticipant user n) (ensureParticipant user n') := by
  obtain ⟨a, rfl, _⟩ := blur_eq_blur h.blurred
  refine Alike.select (A := fun r r' => r = r' ∧ ∀ q ∈ r, sc.own n.requestId = sc.reader q.clientId)
    rfl rfl ?_ ?_
  · intro db db' hdb
    refine .ok ⟨hdb.request h.inside, ?_⟩
    intro q hq
    rw [← lookup_key hq]
    exact hdb.covers.owned q (lookup_mem hq)
  · intro r r' hr
    obtain ⟨rfl, howned⟩ := hr
    cases r with
    | none => exact .raise _
    | some q =>
        by_cases hp : user.id ≠ q.clientId ∧ user.id ≠ n.supplierId
        · show sc.Alike _ env (if _ then _ else _) (if _ then _ else _)
          rw [if_pos hp]
          exact .raise _
        · show sc.Alike _ env (if _ then _ else _) (if _ then _ else _)
          rw [if_neg hp]
          refine .ret fun hreader => ?_
          rw [h.shown]
          -- the client of the request, or the supplier of the negotiation
          by_cases hclient : user.id = q.clientId
          · rw [howned q rfl, ← hclient, hreader, Bool.not_true, Bool.and_false]
          · have hsupplier : user.id = n.supplierId := by
              by_contra hne
              exact hp ⟨hclient, hne⟩
            rw [← hsupplier, hreader, Bool.not_true, Bool.false_and]

/-- The last proposals of the same negotiation are the same, but for a secret price. -/
theorem lastProposal_alike {i : Id} {n n' : Negotiation} (h : sc.Same i n n')
    (hi : sc.negotiation i = true) :
    sc.Alike (sc.SameProposal i) env (lastProposal n) (lastProposal n') := by
  obtain ⟨a, rfl, _⟩ := blur_eq_blur h.blurred
  obtain rfl := h.id
  refine Alike.select (A := Option.Rel (sc.SameProposal n.id)) rfl rfl
    (fun db db' hdb => .ok (hdb.lastProposal hi)) ?_
  intro r r' hr
  cases hr with
  | none => exact .raise _
  | some hp => exact .ret hp

/-- The load gives the row on both sides, and a reader gets no secret. -/
theorem load_alike {i : Id} (hi : sc.negotiation i = true) (user : User) :
    sc.Alike (fun n n' => sc.Same i n n' ∧ (sc.reader user.id = true → sc.secret i = false)) env
      (loadActiveForResponse user i) (loadActiveForResponse user i) := by
  refine Alike.select (A := Option.Rel (sc.Same i)) rfl rfl
    (fun db db' hdb => .ok (hdb.negotiation hi)) ?_
  intro r r' hr
  cases hr with
  | none => exact .raise _
  | @some n n' hn =>
      show sc.Alike _ env (ensureParticipant user n >>= _) (ensureParticipant user n' >>= _)
      refine .bind (ensureParticipant_alike hn user) ?_
      intro env _ _ hparty
      obtain ⟨a, rfl, _⟩ := blur_eq_blur hn.blurred
      by_cases hs : n.status ≠ .active
      · show sc.Alike _ env (if _ then _ else _) (if _ then _ else _)
        rw [if_pos hs, if_pos hs]
        exact .raise _
      · show sc.Alike _ env (if _ then _ else _) (if _ then _ else _)
        rw [if_neg hs, if_neg hs]
        refine .bind (lastProposal_alike hn hi) ?_
        intro env last last' hlast
        show sc.Alike _ env (if _ then _ else _) (if _ then _ else _)
        rw [← hlast.actor]
        by_cases hown : last.actorId = user.id
        · rw [if_pos hown, if_pos hown]
          exact .raise _
        · rw [if_neg hown, if_neg hown]
          exact .ret ⟨hn, hparty⟩

/-! ## §3. The services. -/

/-- A decision taken on both rows. -/
theorem Same.on {i : Id} {n n' : Negotiation} (h : sc.Same i n n') {d d' : Decision}
    (hd : sc.SameDecision i d d') : sc.Same i (d.on n) (d'.on n') := by
  have hid : n'.id = i := by
    have := congrArg Negotiation.id h.blurred
    rw [← h.id]
    simpa using this.symm
  have hthread := Thread.mk.inj (d.on_thread n)
  refine ⟨?_, hthread.1.trans h.id, ?_, ?_⟩
  · rw [(hd.blur h.id).1, (hd.blur hid).2, h.blurred]
  · rw [hthread.2.1]
    exact h.inside
  · rw [hthread.2.1, hthread.2.2]
    exact h.shown

/-- Superseding writes no amounts, so it writes the same twice. -/
theorem supersedeEach_alike (w : Id) (siblings : List Negotiation) :
    sc.Alike (fun _ _ => True) env (supersedeEach w siblings) (supersedeEach w siblings) := by
  induction siblings generalizing env with
  | nil => exact .ret trivial
  | cons sib siblings ih =>
      refine Alike.stage (A := fun _ _ => True) (.decide .rejected) rfl rfl rfl
        (fun _ _ _ => .ok trivial) ?_
      intro _ _ _
      show sc.Alike _ _ (record _ _ _ _ _ >>= _) (record _ _ _ _ _ >>= _)
      exact .bind (record_alike _ _ _ _ _ _) fun env _ _ _ => ih

/-- **Two acceptances of one negotiation go in step.**  What they agree on is secret exactly
where the negotiation is, and a reader who may accept it may know the price. -/
theorem accept_alike {i : Id} (hi : sc.negotiation i = true) (user : User) :
    sc.Alike (fun n n' => sc.Same i n n' ∧ (sc.reader user.id = true → sc.secret i = false)) env
      (accept user i) (accept user i) := by
  refine .bind (load_alike hi user) ?_
  intro env n n' hload
  obtain ⟨hn, hparty⟩ := hload
  refine .bind (lastProposal_alike hn hi) ?_
  intro env last last' hlast
  have hsame := hn
  obtain ⟨a, rfl, _⟩ := blur_eq_blur hn.blurred
  obtain rfl := hn.id
  have hd : sc.SameDecision n.id (.accepted last.amount) (.accepted last'.amount) :=
    .accepted fun hs => congrArg Proposal.amount (hlast.price hs)
  refine Alike.stage (A := fun _ _ => True) (.decide hd) rfl rfl rfl (fun _ _ _ => .ok trivial) ?_
  intro _ _ _
  refine Alike.select (A := fun r r' => r = r' ∧ ∀ q ∈ r, q.id = n.requestId) rfl rfl ?_ ?_
  · exact fun db db' hdb => .ok ⟨hdb.request hn.inside, fun q hq => lookup_key hq⟩
  intro r r' hr
  obtain ⟨rfl, hrow⟩ := hr
  cases r with
  | none => exact .raise _
  | some q =>
      have hq : sc.request q.id = true := by
        rw [hrow q rfl]
        exact hn.inside
      -- the siblings are the same rows, so they come in the same order
      refine Alike.read rfl rfl ?_ fun siblings => ?_
      · intro db db' hdb
        simp only [Cmd.answer, hdb.activeSiblings hq]
      refine Alike.stage (A := fun _ _ => True) (w := .closeRequest q.id) (.same trivial) rfl rfl rfl
        (fun _ _ _ => .ok trivial) ?_
      intro _ _ _
      refine .bind (supersedeEach_alike n.id siblings) fun env _ _ _ => ?_
      refine .bind (record_alike _ _ _ _ _ _) fun env _ _ _ => ?_
      exact .ret ⟨hsame.on hd, hparty⟩

/-- **Two rejections of one negotiation go in step**, whatever its prices are. -/
theorem reject_alike {i : Id} (hi : sc.negotiation i = true) (user : User) :
    sc.Alike (fun n n' => sc.Same i n n' ∧ (sc.reader user.id = true → sc.secret i = false)) env
      (reject user i) (reject user i) := by
  refine .bind (load_alike hi user) ?_
  intro env n n' hload
  obtain ⟨hn, hparty⟩ := hload
  have hsame := hn
  obtain ⟨a, rfl, _⟩ := blur_eq_blur hn.blurred
  refine Alike.stage (A := fun _ _ => True) (.decide .rejected) rfl rfl rfl
    (fun _ _ _ => .ok trivial) ?_
  intro _ _ _
  show sc.Alike _ _ (record _ _ _ _ _ >>= _) (record _ _ _ _ _ >>= _)
  refine .bind (record_alike _ _ _ _ _ _) fun env _ _ _ => ?_
  exact .ret ⟨hsame.on .rejected, hparty⟩

/-- **Two counters of one negotiation go in step**, with different prices where the
negotiation is secret. -/
theorem counter_alike {i : Id} (hi : sc.negotiation i = true) (user : User) {d d' : CounterIn}
    (hd : sc.secret i = false → d = d') :
    sc.Alike (fun n n' => sc.Same i n n' ∧ (sc.reader user.id = true → sc.secret i = false)) env
      (counter user i d) (counter user i d') := by
  refine .bind (load_alike hi user) ?_
  intro env n n' hload
  obtain ⟨hn, hparty⟩ := hload
  refine .bind (lastProposal_alike hn hi) ?_
  intro env last last' hlast
  have hsame := hn
  obtain ⟨a, rfl, _⟩ := blur_eq_blur hn.blurred
  have hprice : sc.secret n.id = false →
      d.amount = d'.amount ∧ last.currency = last'.currency ∧ d.message = d'.message := by
    intro hs
    rw [hn.id] at hs
    rw [hd hs, hlast.price hs]
    exact ⟨rfl, rfl, rfl⟩
  refine .bind (addProposal_alike rfl user .counter hprice) fun env _ _ _ => ?_
  refine .bind (record_alike _ _ _ _ _ _) fun env _ _ _ => ?_
  exact .ret ⟨hsame, hparty⟩

/-- An offer inserts the same row on both sides; what it bids may differ. -/
theorem makeOffer_alike {i : Id} {d d' : OfferIn} (hi : sc.request i = true) (user : User)
    (hclosed : sc.negotiation (env.stamp .negotiations).id = true)
    (hshown : sc.secret (env.stamp .negotiations).id = (!sc.reader user.id && !sc.own i))
    (hd : sc.secret (env.stamp .negotiations).id = false → d = d') :
    sc.Alike (sc.Same (env.stamp .negotiations).id) env (makeOffer user i d) (makeOffer user i d') := by
  refine Alike.read rfl rfl (fun db db' hdb => congrArg Except.ok (hdb.request hi)) fun r => ?_
  cases r with
  | none => exact .raise _
  | some q =>
      show sc.Alike _ _ (if _ then _ else _) (if _ then _ else _)
      by_cases ho : q.status ≠ .opened
      · rw [if_pos ho, if_pos ho]
        exact .raise _
      rw [if_neg ho, if_neg ho]
      refine Alike.select (A := fun r r' => r.isSome = r'.isSome) rfl rfl
        (fun db db' hdb => .ok (hdb.thread hi user.id)) ?_
      intro r r' hsome
      cases r with
      | some m =>
          obtain ⟨m', rfl⟩ := Option.isSome_iff_exists.mp hsome.symm
          exact .raise _
      | none =>
          obtain rfl : r' = none := by simpa using hsome
          have hadmits : sc.Admits (.insertNegotiation (env.newNegotiation i user.id .active)) :=
            ⟨hclosed.trans hi.symm, hshown, rfl⟩
          refine Alike.stage (A := fun n n' => n = env.newNegotiation i user.id .active ∧ n' = n)
            (.same hadmits) rfl rfl rfl ?_ ?_
          · intro db db' hdb
            have hthread := hdb.thread hi user.id
            show Similar _ (Cmd.answer _ env db) (Cmd.answer _ env db')
            unfold Cmd.answer
            cases ht : db.thread i user.id with
            | some m =>
                rw [ht] at hthread
                obtain ⟨m', hm'⟩ := Option.isSome_iff_exists.mp hthread.symm
                simp only [ht, hm']
                exact .error _
            | none =>
                rw [ht] at hthread
                have hm' : db'.thread i user.id = none := by simpa using hthread.symm
                simp only [ht, hm']
                exact .ok ⟨rfl, rfl⟩
          intro n n' hn
          obtain ⟨rfl, rfl⟩ := hn
          have hprice : sc.secret (env.stamp .negotiations).id = false →
              d.amount = d'.amount ∧ d.currency = d'.currency ∧ d.message = d'.message := by
            intro hs
            rw [hd hs]
            exact ⟨rfl, rfl, rfl⟩
          show sc.Alike _ _ (addProposal _ _ _ _ _ _ >>= _) (addProposal _ _ _ _ _ _ >>= _)
          refine .bind (addProposal_alike rfl user .offer hprice) fun env' _ _ _ => ?_
          refine .bind (record_alike _ _ _ _ _ _) fun env' _ _ _ => ?_
          exact .ret ⟨rfl, rfl, hi, hshown⟩

/-- A request has no secrets; it is in the scope if its author is the reader. -/
theorem createRequest_alike (user : User) (data : ProductRequestIn)
    (hown : sc.own (env.stamp .requests).id = sc.reader user.id) :
    sc.Alike Eq env (createRequest user data) (createRequest user data) := by
  refine Alike.stage (A := fun r r' => r = env.createdRequest user data ∧ r' = r)
    (w := .insertRequest (env.createdRequest user data)) (.same hown) rfl rfl rfl
    (fun _ _ _ => .ok ⟨rfl, rfl⟩) ?_
  intro r r' hr
  obtain ⟨rfl, rfl⟩ := hr
  show sc.Alike _ _ (record _ _ _ _ _ >>= _) (record _ _ _ _ _ >>= _)
  exact .bind (record_alike _ _ _ _ _ _) fun env' _ _ _ => .ret rfl

/-! ## §4. The endpoints. -/

/-- Dumping a request reads no amounts. -/
theorem productRequestOut_alike (r : ProductRequest) :
    sc.Alike Eq env (productRequestOut r) (productRequestOut r) :=
  Alike.select (A := fun _ _ => True) rfl rfl (fun _ _ _ => .ok trivial) fun _ _ _ => .ret rfl

/-- Where the price is no secret, the rendered rows are the same. -/
theorem negotiationOut_alike {i : Id} {n n' : Negotiation} (h : sc.Same i n n')
    (hi : sc.negotiation i = true) :
    sc.Alike (fun b b' => sc.secret i = false → b = b') env (negotiationOut n) (negotiationOut n') := by
  obtain ⟨a, rfl, ha⟩ := blur_eq_blur h.blurred
  obtain rfl := h.id
  refine Alike.select (A := fun ps ps' => ps.map sc.blurProposal = ps'.map sc.blurProposal) rfl rfl
    (fun db db' hdb => .ok (hdb.chain hi)) ?_
  intro ps ps' hps
  -- the blur keeps who made the last proposal
  have hactor : ∀ ps : List Proposal,
      ps.getLast?.map (·.actorId) = ((ps.map sc.blurProposal).getLast?).map (·.actorId) := by
    intro ps
    rw [List.getLast?_map, Option.map_map]
    congr 1
    funext p
    exact (blurProposal_actorId p).symm
  refine Alike.select (A := fun _ _ => True) rfl rfl (fun _ _ _ => .ok trivial) fun _ _ _ => ?_
  refine .ret fun hs => ?_
  rw [ha hs, hactor ps, hactor ps', hps]

/-- The same operation, but for the price of a secret bid. -/
inductive SameOp (sc : Scope) (env : Env) (caller : Id) : Op → Op → Prop where
  | createRequest {data : ProductRequestIn}
      (hown : sc.own (env.stamp .requests).id = sc.reader caller) :
      SameOp sc env caller (.createRequest data) (.createRequest data)
  | makeOffer {i : Id} {d d' : OfferIn} (hi : sc.request i = true)
      (hclosed : sc.negotiation (env.stamp .negotiations).id = true)
      (hshown : sc.secret (env.stamp .negotiations).id = (!sc.reader caller && !sc.own i))
      (hd : sc.secret (env.stamp .negotiations).id = false → d = d') :
      SameOp sc env caller (.makeOffer i d) (.makeOffer i d')
  | accept {i : Id} (hi : sc.negotiation i = true) : SameOp sc env caller (.accept i) (.accept i)
  | reject {i : Id} (hi : sc.negotiation i = true) : SameOp sc env caller (.reject i) (.reject i)
  | counter {i : Id} {d d' : CounterIn} (hi : sc.negotiation i = true)
      (hd : sc.secret i = false → d = d') : SameOp sc env caller (.counter i d) (.counter i d')

/-- The same operation but for prices comes through the same endpoint. -/
theorem SameOp.route {caller : Id} {op op' : Op} (h : sc.SameOp env caller op op') :
    op'.role = op.role ∧ op'.statusCode = op.statusCode := by
  cases h <;> exact ⟨rfl, rfl⟩

/-- A decided row, rendered for its caller. -/
theorem decided_alike {i : Id} (hi : sc.negotiation i = true) {user : User} {p p' : Prog Negotiation}
    (hp : sc.Alike (fun n n' => sc.Same i n n' ∧ (sc.reader user.id = true → sc.secret i = false))
      env p p') :
    sc.Alike (fun b b' => sc.reader user.id = true → b = b') env (p >>= negotiationOut)
      (p' >>= negotiationOut) := by
  refine .bind hp ?_
  intro env n n' hload
  obtain ⟨hn, hparty⟩ := hload
  exact (negotiationOut_alike hn hi).mono fun b b' hb hreader => hb (hparty hreader)

/-- **Two operations that are the same but for secret prices go in step**, and are answered
alike if the reader has sent them. -/
theorem produce_alike {user : User} {op op' : Op} (h : sc.SameOp env user.id op op') :
    sc.Alike (fun b b' => sc.reader user.id = true → b = b') env (op.produce user)
      (op'.produce user) := by
  cases h with
  | @createRequest data hown =>
      refine .bind (createRequest_alike user data hown) ?_
      intro env r _ hr
      obtain rfl := hr
      exact (productRequestOut_alike r).mono fun b b' hb _ => hb
  | makeOffer hi hclosed hshown hd =>
      refine .bind (makeOffer_alike hi user hclosed hshown hd) ?_
      intro env n n' hn
      refine (negotiationOut_alike hn hclosed).mono fun b b' hb hreader => hb ?_
      rw [hshown, hreader, Bool.not_true, Bool.false_and]
  | accept hi => exact decided_alike hi (accept_alike hi user)
  | reject hi => exact decided_alike hi (reject_alike hi user)
  | counter hi hd => exact decided_alike hi (counter_alike hi user hd)

/-- The record of a body that only differs when it is none of the readers'. -/
theorem blurKey_eq {k k' : IdempotencyKey} (h : k'.userId = k.userId) (hkey : k.key = k'.key)
    (hrest : k.method = k'.method ∧ k.path = k'.path ∧ k.responseStatus = k'.responseStatus)
    (hbody : sc.reader k.userId = true → k.responseBody = k'.responseBody) :
    sc.blurKey k = sc.blurKey k' := by
  obtain ⟨hmethod, hpath, hstatus⟩ := hrest
  unfold blurKey
  cases k
  cases k'
  simp only at h hkey hmethod hpath hstatus hbody ⊢
  subst h hkey hmethod hpath hstatus
  split
  · rw [hbody ‹_›]
  · rfl

/-- Behind `produce`: the key is filed, and everything committed. -/
theorem finish_alike (req : HttpRequest) {op' : Op} (hstatus : op'.statusCode = req.op.statusCode)
    (user : User) {b b' : Body} (hb : sc.reader user.id = true → b = b') :
    sc.Alike (fun r r' => sc.reader user.id = true → r = r') env (finish req user b)
      (finish { req with op := op' } user b') := by
  have hret : ∀ env, sc.Alike (fun r r' => sc.reader user.id = true → r = r') env
      (.ret (⟨req.op.statusCode, b⟩ : Response)) (.ret ⟨op'.statusCode, b'⟩) := by
    intro env
    refine .ret fun hreader => ?_
    rw [hb hreader, hstatus]
  have hkey : ({ req with op := op' } : HttpRequest).usedKey = req.usedKey := rfl
  cases hk : req.usedKey with
  | none =>
      rw [finish_of_none hk, finish_of_none (hkey.trans hk)]
      exact .commit (hret env)
  | some k =>
      rw [finish_of_some hk, finish_of_some (hkey.trans hk)]
      have hrecord : sc.blurKey (req.record k user b)
          = sc.blurKey (({ req with op := op' } : HttpRequest).record k user b') :=
        blurKey_eq rfl rfl ⟨rfl, rfl, hstatus.symm⟩ hb
      refine Alike.stage (A := fun _ _ => True) (.insertKey hrecord) rfl rfl rfl ?_ ?_
      · intro db db' hdb
        have hstored := hdb.idempotencyKey k
        show Similar _ (Cmd.answer _ env db) (Cmd.answer _ env db')
        unfold Cmd.answer
        cases hk : db.idempotencyKey k with
        | none =>
            rw [hk] at hstored
            have hk' : db'.idempotencyKey k = none := Option.map_eq_none_iff.mp hstored.symm
            simp only [HttpRequest.record, hk, hk']
            exact .ok trivial
        | some record =>
            rw [hk] at hstored
            obtain ⟨record', hk', _⟩ := Option.map_eq_some_iff.mp hstored.symm
            simp only [HttpRequest.record, hk, hk']
            exact .error _
      · intro _ _ _
        exact .commit (hret _)

/-- **A request on two databases that agree.** -/
theorem handle_alike (req : HttpRequest) {op' : Op} (hop : sc.SameOp env req.caller req.op op') :
    sc.Alike (fun r r' => sc.reader req.caller = true → r = r') env (handle req)
      (handle { req with op := op' }) := by
  have hroute := hop.route
  refine Alike.select (A := fun r r' => r = r' ∧ ∀ u ∈ r, u.id = req.caller) rfl rfl ?_ ?_
  · exact fun db db' hdb => .ok ⟨hdb.user req.caller, fun u hu => lookup_key hu⟩
  intro r r' hr
  obtain ⟨rfl, hcaller⟩ := hr
  cases r with
  | none => exact .raise _
  | some user =>
      have hid : user.id = req.caller := hcaller user rfl
      show sc.Alike _ env (requireRole req.op.role user >>= _) (requireRole op'.role user >>= _)
      rw [hroute.1, ← hid]
      by_cases hp : req.Permits user
      · rw [requireRole_of_permits hp, ret_bind, ret_bind, idempotent_eq req user,
          idempotent_eq { req with op := op' } user]
        have hkey : ({ req with op := op' } : HttpRequest).usedKey = req.usedKey := rfl
        rw [hkey]
        have hrun : sc.Alike (fun r r' => sc.reader user.id = true → r = r') env
            (req.op.produce user >>= finish req user)
            (op'.produce user >>= finish { req with op := op' } user) :=
          .bind (produce_alike (hid ▸ hop)) fun env b b' hb => finish_alike req hroute.2 user hb
        cases req.usedKey with
        | none => exact hrun
        | some k =>
            refine Alike.select (A := fun r r' => r.map sc.blurKey = r'.map sc.blurKey) rfl rfl
              (fun db db' hdb => .ok (hdb.idempotencyKey k)) ?_
            intro r r' hr
            cases r with
            | none =>
                rw [Option.map_eq_none_iff.mp hr.symm]
                exact hrun
            | some record =>
                obtain ⟨record', rfl, hrecord⟩ := Option.map_eq_some_iff.mp hr.symm
                have huser : record'.userId = record.userId := by
                  simpa using congrArg IdempotencyKey.userId hrecord
                by_cases hown : record.userId = user.id
                · rw [lookedUp_own hown, lookedUp_own (huser.trans hown)]
                  refine .ret fun hreader => ?_
                  -- a reader's own record is not blurred
                  unfold blurKey at hrecord
                  rw [huser, hown, hreader] at hrecord
                  simp only [if_true] at hrecord
                  rw [hrecord]
                · rw [lookedUp_other hown, lookedUp_other fun h => hown (huser.symm.trans h)]
                  exact .raise _
      · obtain ⟨e, he⟩ := requireRole_of_not_permits hp
        rw [he, raise_bind, raise_bind]
        exact .raise _

/-- **A registration on two databases that agree.** -/
theorem handleRegister_alike (data : RegisterIn) :
    sc.Alike Eq env (handleRegister data) (handleRegister data) := by
  refine Alike.read rfl rfl (fun db db' hdb => congrArg Except.ok (hdb.userByEmail data.email))
    fun existing => ?_
  cases existing with
  | some user => exact .raise _
  | none =>
      refine Alike.read rfl rfl (fun _ _ _ => rfl) fun hashed => ?_
      refine Alike.stage (A := Eq)
        (w := .insertUser (env.newUser data.email hashed data.role data.fullName)) (.same trivial)
        rfl rfl rfl ?_ ?_
      · intro db db' hdb
        refine similar_eq.mpr ?_
        simp only [Cmd.answer, hdb.userByEmail]
      intro user _ hu
      obtain rfl := hu
      show sc.Alike _ _ ((record _ _ _ _ _ >>= _) >>= _) ((record _ _ _ _ _ >>= _) >>= _)
      refine .bind (.bind (record_alike _ _ _ _ _ _) (V := Eq) fun env _ _ _ => ?_) ?_
      · refine .commit ?_
        refine Alike.read rfl rfl (fun db db' hdb => congrArg Except.ok (hdb.user user.id))
          fun row => ?_
        cases row with
        | none => exact .raise _
        | some user => exact .ret rfl
      · intro env user _ hu
        obtain rfl := hu
        exact .ret rfl

/-! ## §5. The reads. -/

/-- Every request and every negotiation is in the scope. -/
structure Whole (sc : Scope) : Prop where
  request : ∀ i, sc.request i = true
  negotiation : ∀ i, sc.negotiation i = true

/-- A scope that hides prices only has all requests. -/
theorem Agree.requests_eq {db db' : Db} (h : sc.Agree db db') (hw : sc.Whole) :
    db.requests = db'.requests := by
  have hall : ∀ t : List ProductRequest, t.filter (fun r => sc.request r.id) = t :=
    fun t => List.filter_eq_self.mpr fun r _ => hw.request r.id
  have heq := h.requests.eq (fun _ _ _ => rfl) (fun _ _ _ => rfl)
  rwa [hall, hall] at heq

/-- The negotiations in which a reader takes part are the same rows, and no
secrets. -/
theorem Agree.shown_rows {db db' : Db} (h : sc.Agree db db') (hw : sc.Whole)
    {q : Negotiation → Bool}
    (hq : ∀ n, q n = true → sc.reader n.supplierId = true ∨ sc.own n.requestId = true)
    (hb : ∀ n, q (sc.blur n) = q n) :
    db.negotiations.filter q = db'.negotiations.filter q
      ∧ ∀ n ∈ db.negotiations.filter q, sc.Same n.id n n ∧ sc.secret n.id = false := by
  have hshown : ∀ n, q n = true →
      sc.secret n.id = (!sc.reader n.supplierId && !sc.own n.requestId) →
      sc.secret n.id = false := by
    intro n hn hs
    rw [hs]
    rcases hq n hn with hr | hr
    · rw [hr, Bool.not_true, Bool.false_and]
    · rw [hr, Bool.not_true, Bool.and_false]
  constructor
  · refine (h.select (fun n _ _ => hw.request n.requestId) hb).eq (fun n hn hqn => ?_)
      fun n hn hqn => ?_
    · exact blur_of_shown (hshown n hqn (h.covers.shown n hn))
    · exact blur_of_shown (hshown n hqn (h.covers' hn).2)
  · intro n hn
    obtain ⟨hn, hqn⟩ := List.mem_filter.mp hn
    have hs := h.covers.shown n hn
    exact ⟨⟨rfl, rfl, hw.request n.requestId, hs⟩, hshown n hqn hs⟩

/-- Rendering the rows of a list, each alike. -/
theorem listOut_alike {ρ : Type} {out : ρ → Prog Body} {rows : List ρ}
    (hout : ∀ row ∈ rows, ∀ env, sc.Alike Eq env (out row) (out row)) :
    sc.Alike Eq env (listOut out rows) (listOut out rows) := by
  induction rows generalizing env with
  | nil => exact .ret rfl
  | cons row rows ih =>
      refine .bind (hout row (List.mem_cons_self ..) env) ?_
      intro env body _ hbody
      obtain rfl := hbody
      refine .bind (ih fun r hr => hout r (List.mem_cons_of_mem _ hr)) ?_
      intro env bodies _ hbodies
      obtain rfl := hbodies
      exact .ret rfl

/-- A listing of requests shows no prices. -/
theorem listRequests_alike (hw : sc.Whole) (user : User) (limit offset : Nat) :
    sc.Alike Eq env (listRequests user limit offset) (listRequests user limit offset) := by
  unfold listRequests
  split
  · refine Alike.read rfl rfl (fun db db' hdb => ?_) fun rows => .ret rfl
    simp only [Cmd.answer, hdb.requests_eq hw]
  · refine Alike.read rfl rfl (fun db db' hdb => ?_) fun rows => .ret rfl
    simp only [Cmd.answer, hdb.requests_eq hw]

/-- A reader lists its own negotiations. -/
theorem listNegotiations_alike (hw : sc.Whole) {user : User} (hreader : sc.reader user.id = true)
    (limit offset : Nat) :
    sc.Alike (fun ns ns' => ns = ns' ∧ ∀ n ∈ ns, sc.Same n.id n n ∧ sc.secret n.id = false) env
      (listNegotiations user limit offset) (listNegotiations user limit offset) := by
  unfold listNegotiations
  by_cases hrole : user.role = .supplier
  · rw [if_pos hrole]
    refine Alike.select (A := fun ns ns' => ns = ns' ∧
      ∀ n ∈ ns, sc.Same n.id n n ∧ sc.secret n.id = false) rfl rfl (fun db db' hdb => ?_) ?_
    · obtain ⟨heq, hshown⟩ := hdb.shown_rows hw (q := fun n => decide (n.supplierId = user.id))
        (by
          intro n hn
          rw [of_decide_eq_true hn]
          exact Or.inl hreader)
        (by simp)
      simp only [Cmd.answer]
      rw [← heq]
      exact .ok ⟨rfl, fun n hn => hshown n (mem_of_mem_page hn)⟩
    · intro ns ns' hns
      exact .ret hns
  · rw [if_neg hrole]
    refine Alike.select (A := fun ns ns' => ns = ns' ∧
      ∀ n ∈ ns, sc.Same n.id n n ∧ sc.secret n.id = false) rfl rfl (fun db db' hdb => ?_) ?_
    · obtain ⟨heq, hshown⟩ := hdb.shown_rows hw
        (q := fun n => (db.request n.requestId).any fun r => r.clientId = user.id)
        (by
          intro n hn
          obtain ⟨r, hr, hclient⟩ := (Option.any_eq_true _ _).mp hn
          have howned := hdb.covers.owned r (lookup_mem hr)
          rw [lookup_key hr, of_decide_eq_true hclient] at howned
          exact Or.inr (howned.trans hreader))
        (by simp)
      simp only [Cmd.answer]
      have hsame : ∀ n : Negotiation, db'.request n.requestId = db.request n.requestId :=
        fun n => (hdb.request (hw.request n.requestId)).symm
      simp only [hsame]
      rw [← heq]
      exact .ok ⟨rfl, fun n hn => hshown n (mem_of_mem_page hn)⟩
    · intro ns ns' hns
      exact .ret hns

/-- A request shows no prices. -/
theorem getRequest_alike (hw : sc.Whole) (user : User) (i : Id) :
    sc.Alike Eq env (getRequest user i) (getRequest user i) := by
  refine Alike.read rfl rfl (fun db db' hdb => congrArg Except.ok (hdb.request (hw.request i)))
    fun r => ?_
  cases r with
  | none => exact .raise _
  | some r =>
      show sc.Alike _ env (if _ then _ else _) (if _ then _ else _)
      split
      · exact .raise _
      · exact .ret rfl

/-- A negotiation is found twice or not at all, and is not a secret of the reader who may see
it. -/
theorem getNegotiation_alike (hw : sc.Whole) (user : User) (i : Id) :
    sc.Alike (fun n n' => sc.Same i n n' ∧ (sc.reader user.id = true → sc.secret i = false)) env
      (getNegotiation user i) (getNegotiation user i) := by
  refine Alike.select (A := Option.Rel (sc.Same i)) rfl rfl
    (fun db db' hdb => .ok (hdb.negotiation (hw.negotiation i))) ?_
  intro r r' hr
  cases hr with
  | none => exact .raise _
  | @some n n' hn =>
      show sc.Alike _ env (ensureParticipant user n >>= _) (ensureParticipant user n' >>= _)
      refine .bind (ensureParticipant_alike hn user) ?_
      intro env _ _ hparty
      exact .ret ⟨hn, hparty⟩

/-- With its proposals, where they are no secret. -/
theorem negotiationDetailOut_alike (hw : sc.Whole) {i : Id} {n n' : Negotiation}
    (h : sc.Same i n n') (hs : sc.secret i = false) :
    sc.Alike Eq env (negotiationDetailOut n) (negotiationDetailOut n') := by
  obtain ⟨a, rfl, ha⟩ := blur_eq_blur h.blurred
  obtain rfl := h.id
  refine Alike.read rfl rfl
    (fun db db' hdb => congrArg Except.ok (hdb.chain_eq (hw.negotiation n.id) hs)) fun ps => ?_
  refine Alike.select (A := fun _ _ => True) rfl rfl (fun _ _ _ => .ok trivial) fun _ _ _ => ?_
  refine .ret ?_
  rw [ha hs]

/-- **A reader's GET on two databases that agree.** -/
theorem handleRead_alike (hw : sc.Whole) {read : ReadRequest}
    (hreader : sc.reader read.caller = true) :
    sc.Alike Eq env (handleRead read) (handleRead read) := by
  refine Alike.select (A := fun r r' => r = r' ∧ ∀ u ∈ r, u.id = read.caller) rfl rfl ?_ ?_
  · exact fun db db' hdb => .ok ⟨hdb.user read.caller, fun u hu => lookup_key hu⟩
  intro r r' hr
  obtain ⟨rfl, hcaller⟩ := hr
  cases r with
  | none => exact .raise _
  | some user =>
      rw [← hcaller user rfl] at hreader
      show sc.Alike Eq env (read.op.produce user) (read.op.produce user)
      cases read.op with
      | listRequests p =>
          refine .bind (listRequests_alike hw user p.limit p.offset) ?_
          intro env rows _ hrows
          obtain rfl := hrows
          refine .bind (listOut_alike fun r _ env => productRequestOut_alike r) ?_
          intro env bodies _ hbodies
          obtain rfl := hbodies
          exact .ret rfl
      | getRequest i =>
          refine .bind (getRequest_alike hw user i) ?_
          intro env r _ hr
          obtain rfl := hr
          refine .bind (productRequestOut_alike r) ?_
          intro env body _ hbody
          obtain rfl := hbody
          exact .ret rfl
      | listNegotiations p =>
          refine .bind (listNegotiations_alike hw hreader p.limit p.offset) ?_
          intro env rows _ hrows
          obtain ⟨rfl, hshown⟩ := hrows
          refine .bind (listOut_alike fun n hn env => ?_) ?_
          · obtain ⟨hsame, hs⟩ := hshown n hn
            exact (negotiationOut_alike hsame (hw.negotiation n.id)).mono fun b b' hb => hb hs
          · intro env bodies _ hbodies
            obtain rfl := hbodies
            exact .ret rfl
      | getNegotiation i =>
          refine .bind (getNegotiation_alike hw user i) ?_
          intro env n n' hload
          exact negotiationDetailOut_alike hw hload.1 (hload.2 hreader)

end Scope

end Procurement
