/-
  Procurement.Security.Confidentiality
  ────────────────────────────────────
  **BIDS ARE CONFIDENTIAL BETWEEN COMPETITORS.**

  Two runs issue the same calls and differ only in what others bid: the amount,
  the currency and the message of offers and counterproposals on negotiations
  in which `u` is neither the supplier nor the client.  Then every response
  `u` receives is the same.

  The scope is the whole database, `u` is its only reader, and the secrets are
  the negotiations that `u` takes no part in (`Scope.of`).  In front of each
  call the scope learns what the ids that come next will stand for
  (`Scope.ahead`); behind it, the scope is read off the new state again
  (`Agree.of`).
-/
import Procurement.Security.Isolation

namespace Procurement

open Procurement.Framework

/-! ## §1. Runs with reads. -/

/-- A call of a user, reads included. -/
inductive Interaction where
  | register (data : RegisterIn)
  | post (req : HttpRequest)
  | read (req : ReadRequest)

inductive Reply where
  | user (out : UserOut)
  | response (response : Response)
  | body (body : ReadBody)
  deriving DecidableEq, Repr

structure Issued where
  what : Interaction
  env : Env
  faults : Nat → Bool

/-- What the caller receives, and the state behind the call. -/
def Issued.run (x : Issued) (db : Db) : Except Error Reply × Db :=
  match x.what with
  | .register data =>
      let (o, db') := engine.request (handleRegister data) x.env x.faults db
      (o.map .user, db')
  | .post req =>
      let (o, db') := engine.request (handle req) x.env x.faults db
      (o.map .response, db')
  | .read req =>
      let (o, db') := engine.request (handleRead req) x.env x.faults db
      (o.map .body, db')

/-- Whether `u` may be the one who receives the reply.  Whoever registers has no
id yet. -/
def Interaction.mayBe (u : Id) : Interaction → Bool
  | .register _ => true
  | .post req => req.caller = u
  | .read req => req.caller = u

/-- Everything `u` receives in a run. -/
def received (u : Id) : Db → List Issued → List (Except Error Reply)
  | _, [] => []
  | db, x :: xs =>
      if x.what.mayBe u then (x.run db).1 :: received u (x.run db).2 xs
      else received u (x.run db).2 xs

/-- Each call is handed fresh ids. -/
def FreshIds : Db → List Issued → Prop
  | _, [] => True
  | db, x :: xs => Fresh x.env db ∧ FreshIds (x.run db).2 xs

/-! ## §2. Runs that differ in the bids of others. -/

/-- `u` opened the request. -/
def Db.isClient (db : Db) (u requestId : Id) : Bool :=
  db.requests.any fun r => r.id = requestId ∧ r.clientId = u

/-- `u` is the supplier of the negotiation, or the client of its request. -/
def Db.party (db : Db) (u negotiationId : Id) : Bool :=
  db.negotiations.any fun n => n.id = negotiationId ∧ (n.supplierId = u ∨ db.isClient u n.requestId)

/-- The same operation, but for the price in a negotiation in which `u` takes no
part. -/
inductive SamePrice (u : Id) (db : Db) (caller : Id) : Op → Op → Prop where
  | same (op : Op) : SamePrice u db caller op op
  | offer {i : Id} (d d' : OfferIn) (hsupplier : caller ≠ u) (hclient : db.isClient u i = false) :
      SamePrice u db caller (.makeOffer i d) (.makeOffer i d')
  | counter {i : Id} (d d' : CounterIn) (hparty : db.party u i = false) :
      SamePrice u db caller (.counter i d) (.counter i d')

inductive SameCall (u : Id) (db : Db) : Interaction → Interaction → Prop where
  | register (data : RegisterIn) : SameCall u db (.register data) (.register data)
  | post (req : HttpRequest) {op' : Op} (h : SamePrice u db req.caller req.op op') :
      SameCall u db (.post req) (.post { req with op := op' })
  | read (req : ReadRequest) : SameCall u db (.read req) (.read req)

/-- The two runs issue the same calls in the same environments, but for such
prices; `db` is the state of the first run. -/
def SameCalls (u : Id) : Db → List Issued → List Issued → Prop
  | _, [], [] => True
  | db, x :: xs, y :: ys =>
      SameCall u db x.what y.what ∧ y.env = x.env ∧ y.faults = x.faults
        ∧ SameCalls u (x.run db).2 xs ys
  | _, _, _ => False

/-! ## §3. The scope of one user. -/

/-- Everything, with the prices secret where `u` takes no part. -/
def Scope.of (u : Id) (db : Db) : Scope where
  reader i := i = u
  own i := db.isClient u i
  request _ := true
  negotiation _ := true
  secret i := !db.party u i

/-- `opens`: whether the next request is `u`'s; `hides`: whether the next
negotiation is none of `u`'s. -/
def Scope.ahead (sc : Scope) (env : Env) (opens hides : Bool) : Scope :=
  { sc with
    own := fun i => if i = (env.stamp .requests).id then opens else sc.own i
    secret := fun i => if i = (env.stamp .negotiations).id then hides else sc.secret i }

section
variable {u : Id} {db db' : Db}

theorem isClient_of_mem (h : Consistent db) {r : ProductRequest} (hr : r ∈ db.requests) :
    db.isClient u r.id = decide (r.clientId = u) := by
  by_cases hu : r.clientId = u
  · rw [decide_eq_true hu]
    exact List.any_eq_true.mpr ⟨r, hr, decide_eq_true ⟨rfl, hu⟩⟩
  · rw [decide_eq_false hu]
    refine List.any_eq_false.mpr fun q hq => ?_
    rw [decide_eq_true_iff]
    rintro ⟨hid, hqu⟩
    obtain rfl := h.request_eq hq hr hid
    exact hu hqu

theorem party_of_mem (h : Consistent db) {n : Negotiation} (hn : n ∈ db.negotiations) :
    db.party u n.id = (decide (n.supplierId = u) || db.isClient u n.requestId) := by
  rw [← Bool.decide_coe (db.isClient u n.requestId), ← Bool.decide_or]
  by_cases hp : n.supplierId = u ∨ db.isClient u n.requestId = true
  · rw [decide_eq_true hp]
    exact List.any_eq_true.mpr ⟨n, hn, decide_eq_true ⟨rfl, hp⟩⟩
  · rw [decide_eq_false hp]
    refine List.any_eq_false.mpr fun m hm => ?_
    rw [decide_eq_true_iff]
    rintro ⟨hid, hmu⟩
    obtain rfl := h.negotiation_eq hm hn hid
    exact hp hmu

theorem Scope.of_covers (u : Id) (h : Consistent db) : (Scope.of u db).Covers db where
  closed := fun _ _ => rfl
  shown := by
    intro n hn
    show (!db.party u n.id) = (!decide (n.supplierId = u) && !db.isClient u n.requestId)
    rw [party_of_mem h hn, Bool.not_or]
  owned := fun r hr => isClient_of_mem h hr

namespace Scope

variable {sc : Scope}

/-- Where every id counts, the rows decide what is secret. -/
theorem Covers.secret_eq {sc' : Scope} (h : sc.Covers db) (h' : sc'.Covers db) (hc : Consistent db)
    (hreader : sc'.reader = sc.reader) {n : Negotiation} (hn : n ∈ db.negotiations) :
    sc'.secret n.id = sc.secret n.id := by
  obtain ⟨r, hr, hid, _⟩ := hc.chain hn
  rw [h.shown n hn, h'.shown n hn, ← hid, h.owned r hr, h'.owned r hr, hreader]

/-- Agreement in one whole scope is agreement in every other with the same
readers. -/
theorem Agree.whole {sc' : Scope} (h : sc.Agree db db') (hc : Consistent db) (hw : sc.Whole)
    (hw' : sc'.Whole) (hreader : sc'.reader = sc.reader) (hcovers : sc'.Covers db) :
    sc'.Agree db db' := by
  have hrequest : sc'.request = sc.request := by
    funext i
    rw [hw.request, hw'.request]
  have hsecret : ∀ n ∈ db.negotiations, sc'.secret n.id = sc.secret n.id :=
    fun n hn => h.covers.secret_eq hcovers hc hreader hn
  refine h.rescope hreader hrequest (fun i _ => hw.negotiation i) hsecret ?_ hcovers
  intro p hp
  obtain ⟨n, hn, hid⟩ := hc.negotiation_mem hp
  rw [← hid]
  exact hsecret n hn

theorem of_whole (u : Id) (db : Db) : (Scope.of u db).Whole := ⟨fun _ => rfl, fun _ => rfl⟩

/-- Nothing in the state has the ids that come next. -/
theorem Covers.ahead (h : sc.Covers db) (hc : Consistent db) {env : Env} (hf : Fresh env db)
    (opens hides : Bool) : (sc.ahead env opens hides).Covers db where
  closed := h.closed
  shown := by
    intro n hn
    have hid : n.id ≠ (env.stamp .negotiations).id := fun he =>
      hf.unused .negotiations 0 (List.mem_map.mpr ⟨n, hn, he⟩)
    have hrid : n.requestId ≠ (env.stamp .requests).id := fun he =>
      hf.unused .requests 0 (he ▸ hc.request_mem hn)
    show (if _ then _ else _) = (!sc.reader n.supplierId && !(if _ then _ else _))
    rw [if_neg hid, if_neg hrid]
    exact h.shown n hn
  owned := by
    intro r hr
    have hid : r.id ≠ (env.stamp .requests).id := fun he =>
      hf.unused .requests 0 (List.mem_map.mpr ⟨r, hr, he⟩)
    show (if _ then _ else _) = sc.reader r.clientId
    rw [if_neg hid]
    exact h.owned r hr

end Scope

/-! ## §4. One call. -/

/-- The scope that knows whose the next request and the next negotiation are. -/
theorem Scope.Agree.ahead (hdb : (Scope.of u db).Agree db db') (h : Consistent db) {env : Env}
    (hf : Fresh env db) (opens hides : Bool) :
    ((Scope.of u db).ahead env opens hides).Agree db db' :=
  hdb.whole h (Scope.of_whole u db) ⟨fun _ => rfl, fun _ => rfl⟩ rfl
    ((Scope.of_covers u h).ahead h hf opens hides)

/-- In front of an offer.  Its price may differ when neither its supplier nor the
client is `u`. -/
theorem offer_sameOp {env : Env} {caller i : Id} {d d' : OfferIn} (h : Consistent db)
    (hf : Fresh env db) (hdb : (Scope.of u db).Agree db db')
    (hd : caller = u ∨ db.isClient u i = true → d = d') :
    ∃ sc : Scope, sc.reader = (Scope.of u db).reader ∧ sc.Whole ∧ sc.Agree db db'
      ∧ sc.SameOp env caller (.makeOffer i d) (.makeOffer i d') := by
  -- an offer on the id of the next request finds no request
  generalize hopens : decide (caller = u) = opens
  generalize hclient : (if i = (env.stamp .requests).id then opens else db.isClient u i) = client
  refine ⟨(Scope.of u db).ahead env opens (!opens && !client), rfl, ⟨fun _ => rfl, fun _ => rfl⟩,
    hdb.ahead h hf _ _, ?_⟩
  have hsecret : ((Scope.of u db).ahead env opens (!opens && !client)).secret
      (env.stamp .negotiations).id = (!opens && !client) := if_pos rfl
  refine .makeOffer rfl rfl ?_ ?_
  · rw [hsecret, ← hclient, ← hopens]
    rfl
  · intro hs
    rw [hsecret] at hs
    refine hd ?_
    cases ho : opens with
    | true =>
        rw [ho] at hopens
        exact Or.inl (of_decide_eq_true hopens)
    | false =>
        right
        rw [ho] at hs hclient
        split at hclient
        · rw [← hclient] at hs
          exact absurd hs (by simp)
        · rw [← hclient] at hs
          simpa using hs

/-- In front of a post there is a scope in which it is the same on both sides. -/
theorem SamePrice.sameOp {env : Env} {caller : Id} {op op' : Op} (h : Consistent db)
    (hf : Fresh env db) (hdb : (Scope.of u db).Agree db db') (hop : SamePrice u db caller op op') :
    ∃ sc : Scope, sc.reader = (Scope.of u db).reader ∧ sc.Whole ∧ sc.Agree db db'
      ∧ sc.SameOp env caller op op' := by
  have hstay : ∀ {op op' : Op}, (Scope.of u db).SameOp env caller op op' →
      ∃ sc : Scope, sc.reader = (Scope.of u db).reader ∧ sc.Whole ∧ sc.Agree db db'
        ∧ sc.SameOp env caller op op' :=
    fun hsame => ⟨Scope.of u db, rfl, Scope.of_whole u db, hdb, hsame⟩
  cases hop with
  | same op =>
      cases op with
      | createRequest data =>
          -- the request to come is the caller's
          exact ⟨(Scope.of u db).ahead env (decide (caller = u)) true, rfl,
            ⟨fun _ => rfl, fun _ => rfl⟩, hdb.ahead h hf _ _, .createRequest (if_pos rfl)⟩
      | makeOffer i d => exact offer_sameOp h hf hdb fun _ => rfl
      | accept i => exact hstay (.accept rfl)
      | reject i => exact hstay (.reject rfl)
      | counter i d => exact hstay (.counter rfl fun _ => rfl)
  | offer d d' hsupplier hclient =>
      refine offer_sameOp h hf hdb fun hu => ?_
      rcases hu with hu | hu
      · exact absurd hu hsupplier
      · rw [hclient] at hu
        exact absurd hu (by simp)
  | counter d d' hparty =>
      refine hstay (.counter rfl fun hs => ?_)
      change (!db.party u _) = false at hs
      rw [hparty] at hs
      exact absurd hs (by simp)

/-- A read commits nothing. -/
theorem handleRead_service (req : ReadRequest) : Service (handleRead req) := by
  have hlist : ∀ {ρ : Type} {out : ρ → Prog Body}, (∀ row, Service (out row)) →
      ∀ rows : List ρ, Service (listOut out rows) := by
    intro ρ out hout rows
    induction rows with
    | nil => trivial
    | cons row rows ih =>
        exact Program.Uses.bind (hout row) fun _ => Program.Uses.bind ih fun _ => trivial
  have hrender : ∀ r : ProductRequest, Service (productRequestOut r) :=
    fun r => ⟨rfl, fun _ => trivial⟩
  refine ⟨rfl, fun user => ?_⟩
  cases user with
  | none => trivial
  | some user =>
      show Service (req.op.produce user)
      cases req.op with
      | listRequests p =>
          refine Program.Uses.bind ?_ fun rows =>
            Program.Uses.bind (hlist hrender rows) fun _ => trivial
          unfold listRequests
          split <;> exact ⟨rfl, fun _ => trivial⟩
      | getRequest i =>
          refine Program.Uses.bind ⟨rfl, fun r => ?_⟩ fun r =>
            Program.Uses.bind (hrender r) fun _ => trivial
          cases r with
          | none => trivial
          | some r =>
              show Service (if _ then _ else _)
              split <;> trivial
      | listNegotiations p =>
          refine Program.Uses.bind ?_ fun rows =>
            Program.Uses.bind (hlist negotiationOut_service rows) fun _ => trivial
          unfold listNegotiations
          split <;> exact ⟨rfl, fun _ => trivial⟩
      | getNegotiation i =>
          refine Program.Uses.bind ⟨rfl, fun n => ?_⟩ fun n => ⟨rfl, fun _ => ⟨rfl, fun _ => trivial⟩⟩
          cases n with
          | none => trivial
          | some n =>
              show Service (ensureParticipant user n >>= _)
              exact Program.Uses.bind (ensureParticipant_service user n) fun _ => trivial

/-- **One call on both sides.**  `u` receives the same, and the databases still
agree. -/
theorem SameCall.run {x y : Issued} (h : Reachable db) (hf : Fresh x.env db)
    (hcall : SameCall u db x.what y.what) (henv : y.env = x.env) (hfaults : y.faults = x.faults)
    (hdb : (Scope.of u db).Agree db db') :
    y.what.mayBe u = x.what.mayBe u
      ∧ (x.what.mayBe u = true → (y.run db').1 = (x.run db).1)
      ∧ Reachable (x.run db).2
      ∧ (Scope.of u (x.run db).2).Agree (x.run db).2 (y.run db').2 := by
  obtain ⟨a, env, faults⟩ := x
  obtain ⟨b, env', faults'⟩ := y
  obtain rfl : env' = env := henv
  obtain rfl : faults' = faults := hfaults
  -- behind the call the scope is read off the new state
  have hread : ∀ {sc : Scope} {later later' : Db}, Reachable later →
      sc.reader = (Scope.of u db).reader → sc.Whole → sc.Agree later later' →
      (Scope.of u later).Agree later later' := by
    intro sc later later' hlater hreader hw hagree
    exact hagree.whole hlater.consistent hw (Scope.of_whole u later) hreader.symm
      (Scope.of_covers u hlater.consistent)
  cases hcall with
  | register data =>
      have halike : (Scope.of u db).Alike Eq env' (handleRegister data) (handleRegister data) :=
        Scope.handleRegister_alike data
      have hboth := halike.request hdb faults'
      have hlater : Reachable (Issued.run ⟨.register data, env', faults'⟩ db).2 :=
        h.tail ⟨.register data, env', faults', hf, rfl⟩
      refine ⟨rfl, fun _ => ?_, hlater, hread hlater rfl (Scope.of_whole u db) hboth.2⟩
      show (engine.request (handleRegister data) env' faults' db').1.map _
        = (engine.request (handleRegister data) env' faults' db).1.map _
      rw [similar_eq.mp hboth.1]
  | @post req op' hprice =>
      obtain ⟨sc, hreader, hw, hagree, hsame⟩ := hprice.sameOp h.consistent hf hdb
      have hboth := (Scope.handle_alike req hsame).request hagree faults'
      have hlater : Reachable (Issued.run ⟨.post req, env', faults'⟩ db).2 :=
        h.tail ⟨.post req, env', faults', hf, rfl⟩
      refine ⟨rfl, fun hu => ?_, hlater, hread hlater hreader hw hboth.2⟩
      have hcaller : sc.reader req.caller = true := by
        rw [hreader]
        exact hu
      show (engine.request (handle { req with op := op' }) env' faults' db').1.map _
        = (engine.request (handle req) env' faults' db).1.map _
      rw [similar_eq.mp (hboth.1.mono fun r r' hr => hr hcaller)]
  | read req =>
      have hstate : ∀ db, (Issued.run ⟨.read req, env', faults'⟩ db).2 = db :=
        fun db => engine.exec_uses (handleRead_service req) _
      refine ⟨rfl, fun hu => ?_, ?_, ?_⟩
      · have halike : (Scope.of u db).Alike Eq env' (handleRead req) (handleRead req) :=
          Scope.handleRead_alike (Scope.of_whole u db) hu
        have hboth := halike.request hdb faults'
        show (engine.request (handleRead req) env' faults' db').1.map _
          = (engine.request (handleRead req) env' faults' db).1.map _
        rw [similar_eq.mp hboth.1]
      · rw [hstate]
        exact h
      · rw [hstate, hstate]
        exact hdb

/-! ## §5. Whole runs. -/

/-- **Bids are confidential between competitors.**  Two runs from a common state
issue the same calls, in the same environments, and differ only in the amounts,
currencies and messages of offers and counterproposals on negotiations in which
`u` takes no part.  Then `u` receives the same in both. -/
theorem bids_confidential (u : Id) {db : Db} (h : Reachable db) {xs ys : List Issued}
    (hids : FreshIds db xs) (hcalls : SameCalls u db xs ys) :
    received u db ys = received u db xs := by
  have hrun : ∀ (xs ys : List Issued) (db db' : Db), Reachable db → FreshIds db xs →
      SameCalls u db xs ys → (Scope.of u db).Agree db db' →
      received u db' ys = received u db xs := by
    intro xs
    induction xs with
    | nil =>
        intro ys db db' _ _ hcalls _
        cases ys with
        | nil => rfl
        | cons y ys => exact hcalls.elim
    | cons x xs ih =>
        intro ys db db' h hids hcalls hdb
        cases ys with
        | nil => exact hcalls.elim
        | cons y ys =>
            obtain ⟨hcall, henv, hfaults, hcalls⟩ := hcalls
            obtain ⟨hsame, hanswer, hlater, hagree⟩ := hcall.run h hids.1 henv hfaults hdb
            have hrest := ih ys _ _ hlater hids.2 hcalls hagree
            rw [received, received, hsame, hrest]
            cases hu : x.what.mayBe u with
            | true => rw [if_pos rfl, if_pos rfl, hanswer hu]
            | false => rfl
  refine hrun xs ys db db h hids hcalls ?_
  exact Scope.Agree.refl (Scope.of_covers u h.consistent) (unagreed_of_consistent h.consistent)

end

def asking (amount : Amount) (hpos : 0 < amount) (hdigits : amount < 10 ^ 14) : CounterIn where
  amount := amount
  amount_pos := hpos
  amount_digits := hdigits
  message_max := none_short

/-- The client asks the second supplier for another price; then the first supplier
lists its negotiations. -/
def haggling (price : CounterIn) : List Issued :=
  let asked : Issued :=
    ⟨.post (plain 1 (.counter 2 (asking 85 (by decide) (by decide)))), .following market, calm⟩
  [{ asked with what := .post (plain 1 (.counter 2 price)) },
    ⟨.read ⟨2, .listNegotiations {}⟩, .following (asked.run market).2, calm⟩]

/-- The first supplier cannot tell 85 from 80. -/
theorem bids_confidential_market :
    received 2 market (haggling (asking 80 (by decide) (by decide)))
      = received 2 market (haggling (asking 85 (by decide) (by decide))) := by
  refine bids_confidential 2 market_reachable ?_ ?_
  · exact ⟨Env.following_fresh _, Env.following_fresh _, trivial⟩
  · refine ⟨.post _ (.counter _ _ ?_), rfl, rfl, .read _, rfl, rfl, trivial⟩
    show market.party 2 2 = false
    decide +kernel

end Procurement
