/-
  Procurement.Runs.Listings
  ─────────────────────────
  **LISTINGS AND PER-ITEM ACCESS AGREE.**

  A listing filters by the role of the caller, `get_negotiation` compares
  ids, and `make_offer` looks at the status.  They agree because of who can be
  where: owners are clients, suppliers are suppliers, and a user has one role
  (`Outline.WellFormed`).
-/
import Procurement.Routers.Reads
import Procurement.Runs.History

namespace Procurement

open Procurement.Framework
open Procurement.Framework.Program

/-! ## §1. Pages. -/

section
variable {ρ : Type} {key : ρ → Id} {rows : List ρ} {row : ρ}

/-- Every row is on some page. -/
theorem exists_page (key : ρ → Id) (h : row ∈ rows) : ∃ p : Page, row ∈ page key p.limit p.offset rows := by
  have hsorted : row ∈ rows.insertionSort fun a b => key b ≤ key a :=
    (List.perm_insertionSort _ rows).mem_iff.mpr h
  obtain ⟨i, hi, hrow⟩ := List.mem_iff_getElem.mp hsorted
  -- the page of one row that starts there
  refine ⟨{ limit := 1, offset := i }, ?_⟩
  unfold page
  rw [List.drop_eq_getElem_cons hi, hrow]
  exact List.mem_cons_self ..

/-- Without an offset, a limit that exceeds the table shows it all. -/
theorem mem_page_all {limit : Nat} (h : rows.length ≤ limit) :
    row ∈ page key limit 0 rows ↔ row ∈ rows := by
  unfold page
  rw [List.drop_zero, List.take_of_length_le (by rw [List.length_insertionSort]; exact h)]
  exact (List.perm_insertionSort _ rows).mem_iff

end

/-! ## §2. Who sees what. -/

namespace Consistent

variable {db : Db} {user : User}

theorem owner_client (h : Consistent db) (hu : user ∈ db.users) {r : ProductRequest}
    (hr : r ∈ db.requests) (hid : user.id = r.clientId) : user.role = .client :=
  h.outline.role_unique hu hid (h.outline.owned r.ownership (List.mem_map_of_mem hr))

theorem supplier_supplier (h : Consistent db) (hu : user ∈ db.users) {n : Negotiation}
    (hn : n ∈ db.negotiations) (hid : user.id = n.supplierId) : user.role = .supplier :=
  h.outline.role_unique hu hid (h.outline.supplied n.thread (List.mem_map_of_mem hn))

/-- The rows that the listing selects are those the caller takes part in. -/
theorem mem_listedNegotiations (h : Consistent db) (hu : user ∈ db.users) {n : Negotiation}
    (hn : n ∈ db.negotiations) {r : ProductRequest} (hr : db.request n.requestId = some r) :
    n ∈ db.listedNegotiations user ↔ user.id = r.clientId ∨ user.id = n.supplierId := by
  unfold Db.listedNegotiations
  by_cases hrole : user.role = .supplier
  · rw [if_pos hrole, List.mem_filter]
    simp only [hn, true_and, decide_eq_true_eq]
    constructor
    · exact fun hs => Or.inr hs.symm
    · rintro (hc | hs)
      · -- an owner is a client
        have hclient := h.owner_client hu (lookup_mem hr) hc
        rw [hrole] at hclient
        exact absurd hclient (by simp)
      · exact hs.symm
  · rw [if_neg hrole, List.mem_filter]
    simp only [hn, true_and, hr, Option.any_some, decide_eq_true_eq]
    constructor
    · exact fun hc => Or.inl hc.symm
    · rintro (hc | hs)
      · exact hc.symm
      · exact absurd (h.supplier_supplier hu hn hs) hrole

/-- **A negotiation is listed exactly when it can be read.** -/
theorem listed_iff_negotiationFor (h : Consistent db) (hu : user ∈ db.users) (i : Id) :
    (∃ n ∈ db.listedNegotiations user, n.id = i) ↔ ∃ n, db.negotiationFor user i = .ok n := by
  constructor
  · rintro ⟨n, hlisted, rfl⟩
    have hn : n ∈ db.negotiations := by
      unfold Db.listedNegotiations at hlisted
      split at hlisted <;> exact List.mem_of_mem_filter hlisted
    obtain ⟨r, _, hreq, _⟩ := h.client hn
    have hpart := (h.mem_listedNegotiations hu hn hreq).mp hlisted
    exact ⟨n, Db.negotiationFor_iff.mpr ⟨h.negotiation_of_mem hn, r, hreq, hpart⟩⟩
  · rintro ⟨n, hn⟩
    obtain ⟨hrow, r, hreq, hpart⟩ := Db.negotiationFor_iff.mp hn
    exact ⟨n, (h.mem_listedNegotiations hu (lookup_mem hrow) hreq).mpr hpart, lookup_key hrow⟩

/-- A client's listing has the requests he can read. -/
theorem listed_iff_requestFor (h : Consistent db) (hrole : user.role = .client) (i : Id) :
    (∃ r ∈ db.listedRequests user, r.id = i) ↔ ∃ r, db.requestFor user i = .ok r := by
  unfold Db.listedRequests Db.requestFor
  rw [if_pos hrole]
  constructor
  · rintro ⟨r, hr, rfl⟩
    rw [List.mem_filter] at hr
    have hown : r.clientId = user.id := by simpa using hr.2
    rw [h.request_of_mem hr.1]
    exact ⟨r, if_neg fun hno => hno.2 hown⟩
  · rintro ⟨q, hq⟩
    cases hrow : db.request i with
    | none =>
        rw [hrow] at hq
        exact absurd hq (by simp)
    | some r =>
        simp only [hrow] at hq
        by_cases hown : r.clientId = user.id
        · exact ⟨r, List.mem_filter.mpr ⟨lookup_mem hrow, by simpa using hown⟩, lookup_key hrow⟩
        · rw [if_pos ⟨hrole, hown⟩] at hq
          exact absurd hq (by simp)

end Consistent

/-! ## §3. Which error an offer ends with. -/

/-- The first guard of `make_offer` that refuses. -/
def Db.offerRefusal (db : Db) (supplier : User) (requestId : Id) : Option Error :=
  match db.request requestId with
  | none => some (.notFound "Request not found")
  | some req =>
      if req.status ≠ .opened then some (.conflict "Request is not open for offers")
      else
        match db.thread requestId supplier.id with
        | some _ => some (.conflict "You already have a negotiation on this request")
        | none => none

section
variable {db : Db} {user : User}

theorem makeOffer_refused {α : Type} {env : Env} {i : Id} {data : OfferIn} {e : Error}
    (h : db.offerRefusal user i = some e) (k : Negotiation → Prog α) :
    Gets db env (makeOffer user i data >>= k) (.raise e) := by
  unfold Db.offerRefusal at h
  simp only [makeOffer, send_bind, call_bind]
  refine .select (r := db.request i) rfl rfl rfl ?_
  cases hreq : db.request i with
  | none =>
      rw [hreq] at h
      obtain rfl := Option.some.inj h
      exact .refl _
  | some req =>
      simp only [hreq] at h
      by_cases ho : req.status ≠ .opened
      · rw [if_pos ho] at h
        obtain rfl := Option.some.inj h
        simp only [if_pos ho]
        exact .refl _
      · rw [if_neg ho] at h
        simp only [if_neg ho, call_bind]
        refine .select (r := db.thread i user.id) rfl rfl rfl ?_
        cases hthread : db.thread i user.id with
        | none =>
            rw [hthread] at h
            exact absurd h (by simp)
        | some n =>
            rw [hthread] at h
            obtain rfl := Option.some.inj h
            exact .refl _

/-- An offer without a key, by a supplier, ends with the error of the first
guard that refuses, and goes through when none does. -/
theorem offer_answers (req : HttpRequest) {i : Id} {data : OfferIn} (hkey : req.key = none)
    (hop : req.op = .makeOffer i data) (hu : db.user req.caller = some user)
    (hrole : user.role = .supplier) (env : Env) :
    (∀ e, db.offerRefusal user i = some e → ((Call.post req).run env calm db).1 = .error e)
      ∧ (db.offerRefusal user i = none → ∃ a, ((Call.post req).run env calm db).1 = .ok a) := by
  have hpermits : req.Permits user := by
    intro r hr
    rw [hop] at hr
    exact hrole.trans (Option.some.inj hr)
  have hunused : ∀ k, req.usedKey = some k → db.idempotencyKey k = none :=
    fun k hk => absurd hk (usedKey_ne hkey k)
  constructor
  · intro e he
    have hraise : Gets db env (handle req) (.raise e) := by
      refine handle_reaches (pinned hu) hpermits (pinned hunused) ?_
      rw [hop]
      simp only [Op.produce, Program.bind_assoc]
      exact makeOffer_refused he _
    show (engine.request (handle req) env calm db).1.map _ = _
    rw [request_of_reaches hraise]
    rfl
  · intro hnone
    -- the guards in the order of the source: the request, its status, the thread
    unfold Db.offerRefusal at hnone
    cases hreq : db.request i with
    | none =>
        rw [hreq] at hnone
        exact absurd hnone (by simp)
    | some r =>
        obtain rfl : r.id = i := lookup_key hreq
        simp only [hreq] at hnone
        by_cases ho : r.status = .opened
        · rw [if_neg (not_not.mpr ho)] at hnone
          cases hthread : db.thread r.id user.id with
          | some n =>
              rw [hthread] at hnone
              exact absurd hnone (by simp)
          | none =>
              have hread : OfferReading r user.id false db := ⟨hreq, by rw [hthread]; rfl⟩
              have hx : Executes req user env _ db :=
                ⟨hu, hpermits, hunused, by rw [hop]; exact .makeOffer data hread ho⟩
              show ∃ a, (engine.request (handle req) env calm db).1.map _ = .ok a
              rw [executes_calm hx]
              exact ⟨_, rfl⟩
        · rw [if_pos ho] at hnone
          exact absurd hnone (by simp)

/-- A supplier's listing has the requests that only a negotiation of his own
can keep him from. -/
theorem Consistent.listed_iff_offerRefusal (h : Consistent db) (hrole : user.role = .supplier)
    (i : Id) :
    (∃ r ∈ db.listedRequests user, r.id = i) ↔ db.offerRefusal user i = none
      ∨ db.offerRefusal user i = some (.conflict "You already have a negotiation on this request") := by
  have hlisted : db.listedRequests user = db.requests.filter fun r => r.status = .opened := by
    unfold Db.listedRequests
    rw [if_neg (by simp [hrole])]
  rw [hlisted]
  unfold Db.offerRefusal
  constructor
  · rintro ⟨r, hr, rfl⟩
    rw [List.mem_filter] at hr
    have ho : r.status = .opened := by simpa using hr.2
    rw [h.request_of_mem hr.1]
    simp only [if_neg (not_not.mpr ho)]
    cases db.thread r.id user.id with
    | none => exact Or.inl rfl
    | some n => exact Or.inr rfl
  · intro hrefusal
    cases hreq : db.request i with
    | none =>
        rw [hreq] at hrefusal
        exact absurd hrefusal (by simp)
    | some r =>
        simp only [hreq] at hrefusal
        by_cases ho : r.status = .opened
        · exact ⟨r, List.mem_filter.mpr ⟨lookup_mem hreq, by simpa using ho⟩, lookup_key hreq⟩
        · rw [if_pos ho] at hrefusal
          exact absurd hrefusal (by simp)

end

/-! ## §4. The endpoints. -/

/-- What a read answers in the state `db`, when nothing fails. -/
def ReadRequest.response (read : ReadRequest) (env : Env) (db : Db) : Except Error ReadBody :=
  (engine.request (handleRead read) env calm db).1

/-- Some page of the caller's negotiations shows the id. -/
def ListsNegotiation (env : Env) (db : Db) (caller i : Id) : Prop :=
  ∃ (p : Page) (bodies : List Body) (out : NegotiationOut),
    ReadRequest.response ⟨caller, .listNegotiations p⟩ env db = .ok (.items bodies)
      ∧ .negotiation out ∈ bodies ∧ out.id = i

/-- Some page of the caller's requests shows the id. -/
def ListsRequest (env : Env) (db : Db) (caller i : Id) : Prop :=
  ∃ (p : Page) (bodies : List Body) (out : ProductRequestOut),
    ReadRequest.response ⟨caller, .listRequests p⟩ env db = .ok (.items bodies)
      ∧ .productRequest out ∈ bodies ∧ out.id = i

section
variable {db : Db} {user : User} {env : Env}

theorem response_eq (hu : db.user user.id = some user) (op : ReadOp) :
    ReadRequest.response ⟨user.id, op⟩ env db = op.answer db user := by
  unfold ReadRequest.response
  rw [handleRead_answers]
  show ReadRequest.answer db ⟨user.id, op⟩ = _
  unfold ReadRequest.answer
  simp only [hu]

/-- What the pages of negotiations show are the rows of the SELECT. -/
theorem listsNegotiation_iff (hu : db.user user.id = some user) (i : Id) :
    ListsNegotiation env db user.id i ↔ ∃ n ∈ db.listedNegotiations user, n.id = i := by
  constructor
  · rintro ⟨p, bodies, out, hresp, hout, rfl⟩
    rw [response_eq hu] at hresp
    obtain rfl := ReadBody.items.inj (Except.ok.inj hresp)
    obtain ⟨n, hn, hno⟩ := List.mem_map.mp hout
    obtain rfl := Body.negotiation.inj hno
    exact ⟨n, mem_of_mem_page hn, rfl⟩
  · rintro ⟨n, hn, rfl⟩
    obtain ⟨p, hp⟩ := exists_page Negotiation.id hn
    exact ⟨p, _, db.out n, response_eq hu _, List.mem_map.mpr ⟨n, hp, rfl⟩, rfl⟩

theorem listsRequest_iff (hu : db.user user.id = some user) (i : Id) :
    ListsRequest env db user.id i ↔ ∃ r ∈ db.listedRequests user, r.id = i := by
  constructor
  · rintro ⟨p, bodies, out, hresp, hout, rfl⟩
    rw [response_eq hu] at hresp
    obtain rfl := ReadBody.items.inj (Except.ok.inj hresp)
    obtain ⟨r, hr, hro⟩ := List.mem_map.mp hout
    obtain rfl := Body.productRequest.inj hro
    exact ⟨r, mem_of_mem_page hr, rfl⟩
  · rintro ⟨r, hr, rfl⟩
    obtain ⟨p, hp⟩ := exists_page ProductRequest.id hr
    exact ⟨p, _, _, response_eq hu _, List.mem_map.mpr ⟨r, hp, rfl⟩, rfl⟩

/-- Without pages: one call of the service with a limit beyond the table. -/
theorem listsNegotiation_iff_unpaged (hu : db.user user.id = some user) {limit : Nat}
    (hl : db.negotiations.length ≤ limit) (i : Id) :
    ListsNegotiation env db user.id i
      ↔ ∃ rows, (engine.request (listNegotiations user limit 0) env calm db).1 = .ok rows
        ∧ ∃ n ∈ rows, n.id = i := by
  have hrun : (engine.request (listNegotiations user limit 0) env calm db).1
      = .ok (page Negotiation.id limit 0 (db.listedNegotiations user)) := by
    unfold listNegotiations Db.listedNegotiations
    split <;> rfl
  have hlen : (db.listedNegotiations user).length ≤ limit := by
    unfold Db.listedNegotiations
    split <;> exact le_trans (List.length_filter_le _ _) hl
  rw [listsNegotiation_iff hu, hrun]
  constructor
  · rintro ⟨n, hn, hid⟩
    exact ⟨_, rfl, n, (mem_page_all hlen).mpr hn, hid⟩
  · rintro ⟨rows, hrows, n, hn, hid⟩
    obtain rfl := Except.ok.inj hrows
    exact ⟨n, (mem_page_all hlen).mp hn, hid⟩

theorem listsRequest_iff_unpaged (hu : db.user user.id = some user) {limit : Nat}
    (hl : db.requests.length ≤ limit) (i : Id) :
    ListsRequest env db user.id i
      ↔ ∃ rows, (engine.request (listRequests user limit 0) env calm db).1 = .ok rows
        ∧ ∃ r ∈ rows, r.id = i := by
  have hrun : (engine.request (listRequests user limit 0) env calm db).1
      = .ok (page ProductRequest.id limit 0 (db.listedRequests user)) := by
    unfold listRequests Db.listedRequests
    split <;> rfl
  have hlen : (db.listedRequests user).length ≤ limit := by
    unfold Db.listedRequests
    split <;> exact le_trans (List.length_filter_le _ _) hl
  rw [listsRequest_iff hu, hrun]
  constructor
  · rintro ⟨r, hr, hid⟩
    exact ⟨_, rfl, r, (mem_page_all hlen).mpr hr, hid⟩
  · rintro ⟨rows, hrows, r, hr, hid⟩
    obtain rfl := Except.ok.inj hrows
    exact ⟨r, (mem_page_all hlen).mp hr, hid⟩

end

/-- **Listings and per-item access agree**, in every reachable state, for every
registered user and every id.  The pages of a listing together show what one
call of the service without a page shows. -/
theorem listings_agree {db : Db} (h : Reachable db) {user : User} (hu : user ∈ db.users)
    (env : Env) (i : Id) :
    (ListsNegotiation env db user.id i
      ↔ ∃ body, ReadRequest.response ⟨user.id, .getNegotiation i⟩ env db = .ok body)
    ∧ (user.role = .client →
        (ListsRequest env db user.id i
          ↔ ∃ body, ReadRequest.response ⟨user.id, .getRequest i⟩ env db = .ok body))
    ∧ (user.role = .supplier → ∀ (path : String) (data : OfferIn),
        (ListsRequest env db user.id i
          ↔ (∃ a, ((Call.post ⟨user.id, none, path, .makeOffer i data⟩).run env calm db).1 = .ok a)
            ∨ ((Call.post ⟨user.id, none, path, .makeOffer i data⟩).run env calm db).1
              = .error (.conflict "You already have a negotiation on this request")))
    ∧ (∀ limit, db.negotiations.length ≤ limit →
        (ListsNegotiation env db user.id i
          ↔ ∃ rows, (engine.request (listNegotiations user limit 0) env calm db).1 = .ok rows
            ∧ ∃ n ∈ rows, n.id = i))
    ∧ (∀ limit, db.requests.length ≤ limit →
        (ListsRequest env db user.id i
          ↔ ∃ rows, (engine.request (listRequests user limit 0) env calm db).1 = .ok rows
            ∧ ∃ r ∈ rows, r.id = i)) := by
  have hc := h.consistent
  have hrow : db.user user.id = some user := lookup_of_mem hc.userIds hu
  refine ⟨?_, ?_, ?_, fun limit hl => listsNegotiation_iff_unpaged hrow hl i,
    fun limit hl => listsRequest_iff_unpaged hrow hl i⟩
  · rw [listsNegotiation_iff hrow, hc.listed_iff_negotiationFor hu, response_eq hrow]
    show _ ↔ ∃ body, (db.negotiationFor user i).map _ = .ok body
    cases db.negotiationFor user i <;> simp [Except.map]
  · intro hrole
    rw [listsRequest_iff hrow, hc.listed_iff_requestFor hrole, response_eq hrow]
    show _ ↔ ∃ body, (db.requestFor user i).map _ = .ok body
    cases db.requestFor user i <;> simp [Except.map]
  · intro hrole path data
    obtain ⟨hrefused, hgo⟩ := offer_answers ⟨user.id, none, path, .makeOffer i data⟩ rfl rfl hrow
      hrole env
    rw [listsRequest_iff hrow, hc.listed_iff_offerRefusal hrole]
    cases hr : db.offerRefusal user i with
    | none => simp [hgo hr]
    | some e => simp [hrefused e hr]

/-- The first supplier of the market sees request 1, on which he already has a
negotiation. -/
theorem listings_agree_market :
    ListsRequest (.following market) market 2 1 := by
  have hseen : ∀ db, Reachable db → (∃ u ∈ db.users, u.id = 2 ∧ u.role = .supplier) →
      ((Call.post ⟨2, none, "", .makeOffer 1 (bid 80 (by decide) (by decide))⟩).run
          (.following db) calm db).1
        = .error (.conflict "You already have a negotiation on this request") →
      ListsRequest (.following db) db 2 1 := by
    rintro db hdb ⟨u, hu, hid, hrole⟩ hconflict
    rw [← hid] at hconflict ⊢
    exact ((listings_agree hdb hu (.following db) 1).2.2.1 hrole "" _).mpr (Or.inr hconflict)
  exact hseen market market_reachable (by decide +kernel) (by decide +kernel)

end Procurement
