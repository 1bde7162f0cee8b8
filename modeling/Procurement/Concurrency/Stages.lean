/-
  Procurement.Concurrency.Stages
  ──────────────────────────────
  **WHERE A REQUEST CAN STAND.**

  At a few statements the answer is news: at the lookup of the key, at the
  statement that takes a lock, at one that draws an id, at the SELECT of the
  siblings.  Between two of them a request is on a way that no commit of another
  transaction can turn: what it has read is protected by the rows it owns, and
  the rest of the way is fixed (`Heading`).  A `Goal` is the end of such a way.

  A way also knows its territory, the rows it may still lock.  Outside the
  superseding loop of an acceptance the business rows of the territory are owned
  already; inside, they are all rows of one request.
-/
import Procurement.Concurrency.Ready

namespace Procurement

open Procurement.Framework
open Procurement.Framework.Program

/-! ## §1. Goals. -/

/-- The caller has been loaded and has the role of the route. -/
structure Admitted (db : Db) (req : HttpRequest) (user : User) : Prop where
  caller : db.user req.caller = some user
  permits : req.Permits user

theorem Admitted.rely {own : Row → Prop} {db db' : Db} {req : HttpRequest} {user : User}
    (h : Admitted db req user) (hr : Rely own db db') : Admitted db' req user where
  caller := by
    unfold Db.user
    rw [hr.users]
    exact h.caller
  permits := h.permits

/-- The points where a way through the territory `T` ends. -/
inductive Goal (own : Row → Prop) (db : Db) (req : HttpRequest) (env : Env) (T : Row → Prop) :
    At Response → Prop where
  /-- An offer has inserted its rows, and renders them. -/
  | render {user : User} {r : ProductRequest} {data : OfferIn} (hu : Admitted db req user)
      (hop : req.op = .makeOffer r.id data) (hreq : own (.request r.id))
      (h : OfferReading r user.id false db) (ho : r.status = .opened) :
      Goal own db req env T
        ⟨negotiationOut (env.offered user r.id) >>= finish req user, env.afterOffer,
          offerWrites env user r.id data⟩
  /-- A counterproposal is going to draw its id. -/
  | insert {user : User} {neg : Negotiation} {client : Id} {ps : List Proposal} {last : Proposal}
      {data : CounterIn} (hu : Admitted db req user) (hop : req.op = .counter neg.id data)
      (hneg : own (.negotiation neg.id)) (h : Reading neg client ps db)
      (hm : MayRespond user neg client ps last) :
      Goal own db req env T
        ⟨counterProposing user neg last data >>= fun n => negotiationOut n >>= finish req user,
          env, []⟩
  /-- An acceptance has staged its UPDATE, and is going to lock the request. -/
  | lock {user : User} {neg : Negotiation} {client : Id} {ps : List Proposal} {last : Proposal}
      (hu : Admitted db req user) (hop : req.op = .accept neg.id)
      (hneg : own (.negotiation neg.id)) (h : Reading neg client ps db)
      (hm : MayRespond user neg client ps last)
      (hT : ∀ row, T row → row.Business → row = .negotiation neg.id) :
      Goal own db req env T
        ⟨.call (.getRequestForUpdate neg.requestId) fun r =>
            acceptLocked user neg last r >>= fun n => negotiationOut n >>= finish req user,
          env, [.decide neg.id (.accepted last.amount)]⟩
  /-- An acceptance is going to select the siblings. -/
  | select {user : User} {neg : Negotiation} {client : Id} {ps : List Proposal} {last : Proposal}
      {r : ProductRequest} (hu : Admitted db req user) (hop : req.op = .accept neg.id)
      (hneg : own (.negotiation neg.id)) (hreq : own (.request r.id))
      (h : Reading neg client ps db) (hm : MayRespond user neg client ps last)
      (hrow : db.request neg.requestId = some r)
      (hT : ∀ row, T row → row.Business → row = .negotiation neg.id ∨ row = .request r.id) :
      Goal own db req env T
        ⟨.call (.activeSiblings r.id neg.id) fun l =>
            acceptSuperseding user neg last r l >>= fun n => negotiationOut n >>= finish req user,
          env, [.decide neg.id (.accepted last.amount)]⟩
  /-- The operation is done, and the key is going to be saved. -/
  | finish {user : User} {o : Produced} (hu : Admitted db req user)
      (h : Ready own db user env req.op o) :
      Goal own db req env T ⟨finish req user o.body, o.env, o.writes⟩
  | commit {user : User} {o : Produced} (hu : Admitted db req user)
      (h : Ready own db user env req.op o)
      (hk : ∀ k, req.usedKey = some k → own (.key k) ∧ db.idempotencyKey k = none) :
      Goal own db req env T
        ⟨.commit (.ret ⟨req.op.statusCode, o.body⟩), o.env, committedWrites req user o⟩
  | raise (e : Error) (env' : Env) (ws : List Write) : Goal own db req env T ⟨.raise e, env', ws⟩
  | ret (r : Response) (env' : Env) : Goal own db req env T ⟨.ret r, env', []⟩

section
variable {own own' : Row → Prop} {db db' : Db} {req : HttpRequest} {env : Env} {p goal : At Response}
  {T : Row → Prop} {F : Db → Prop}

theorem Goal.mono (h : Goal own db req env T p) (hown : ∀ row, own row → own' row) :
    Goal own' db req env T p := by
  cases h with
  | render hu hop hreq h ho => exact .render hu hop (hown _ hreq) h ho
  | insert hu hop hneg h hm => exact .insert hu hop (hown _ hneg) h hm
  | lock hu hop hneg h hm hT => exact .lock hu hop (hown _ hneg) h hm hT
  | select hu hop hneg hreq h hm hrow hT =>
      exact .select hu hop (hown _ hneg) (hown _ hreq) h hm hrow hT
  | finish hu h => exact .finish hu (h.mono hown)
  | commit hu h hk =>
      exact .commit hu (h.mono hown) fun k hkk => ⟨hown _ (hk k hkk).1, (hk k hkk).2⟩
  | raise e env' ws => exact .raise e env' ws
  | ret r env' => exact .ret r env'

/-- No commit of another transaction moves a goal. -/
theorem Goal.rely (h : Goal own db req env T p) (hr : Rely own db db') :
    Goal own db' req env T p := by
  cases h with
  | render hu hop hreq h ho => exact .render (hu.rely hr) hop hreq (h.rely hr hreq) ho
  | insert hu hop hneg h hm => exact .insert (hu.rely hr) hop hneg (h.rely hr hneg) hm
  | lock hu hop hneg h hm hT => exact .lock (hu.rely hr) hop hneg (h.rely hr hneg) hm hT
  -- the row of the request is locked by now, so it is kept whole
  | @select user neg client ps last r hu hop hneg hreq h hm hrow hT =>
      have hid : r.id = neg.requestId := lookup_key hrow
      have hrow' : db'.request neg.requestId = some r :=
        hr.request _ _ (by rw [← hid]; exact hreq) hrow
      exact .select (hu.rely hr) hop hneg hreq (h.rely hr hneg) hm hrow' hT
  | finish hu h => exact .finish (hu.rely hr) (h.rely hr)
  | commit hu h hk =>
      refine .commit (hu.rely hr) (h.rely hr) fun k hkk => ?_
      obtain ⟨ho, hnone⟩ := hk k hkk
      exact ⟨ho, hr.key k ho hnone⟩
  | raise e env' ws => exact .raise e env' ws
  | ret r env' => exact .ret r env'

/-! ## §2. Territories. -/

/-- The row of the request, or of a negotiation on it. -/
def Row.On (row : Row) (requestId : Id) (db : Db) : Prop :=
  row = .request requestId
    ∨ ∃ n ∈ db.negotiations, n.requestId = requestId ∧ row = .negotiation n.id

/-- An acceptance has staged its UPDATE, and the business rows of `T` are rows
of its request. -/
def Superseding (db : Db) (ws : List Write) (T : Row → Prop) : Prop :=
  ∃ neg ∈ db.negotiations, (∃ a, .decide neg.id (.accepted a) ∈ ws)
    ∧ ∀ row, T row → row.Business → row.On neg.requestId db

/-- The territory `T` of a request that has staged `ws`. -/
structure Territory (own : Row → Prop) (db : Db) (ws : List Write) (T : Row → Prop) : Prop where
  rows : ∀ i, T (.negotiation i) → ∃ n ∈ db.negotiations, n.id = i
  held : ∀ row, own row → row.Business → T row
  content : (∀ row, T row → row.Business → own row) ∨ Superseding db ws T

theorem Row.On.rely {row : Row} {i : Id} (h : row.On i db) (hr : Rely own db db') :
    row.On i db' := by
  rcases h with h | ⟨n, hn, hreq, hrow⟩
  · exact Or.inl h
  · obtain ⟨n', hn', hid, hreq', _⟩ := hr.stays n hn
    exact Or.inr ⟨n', hn', hreq'.trans hreq, by rw [hrow, hid]⟩

theorem Superseding.rely {ws : List Write} (h : Superseding db ws T)
    (hr : Rely own db db') : Superseding db' ws T := by
  obtain ⟨neg, hneg, ⟨a, ha⟩, hT⟩ := h
  obtain ⟨neg', hneg', hid, hreq, _⟩ := hr.stays neg hneg
  refine ⟨neg', hneg', ⟨a, by rw [hid]; exact ha⟩, ?_⟩
  intro row ht hb
  rw [hreq]
  exact (hT row ht hb).rely hr

theorem Territory.rely {ws : List Write} (h : Territory own db ws T)
    (hr : Rely own db db') : Territory own db' ws T where
  rows := by
    intro i hi
    obtain ⟨n, hn, hid⟩ := h.rows i hi
    obtain ⟨n', hn', hid', _⟩ := hr.stays n hn
    exact ⟨n', hn', hid'.trans hid⟩
  held := h.held
  content := by
    rcases h.content with hc | hs
    · exact Or.inl hc
    · exact Or.inr (hs.rely hr)

/-- A statement that locks no business row outside the territory. -/
theorem Territory.step {ws vs : List Write} {c : Cmd} (h : Territory own db ws T)
    (hown : ∀ row, own' row ↔ own row ∨ c.locks (engine.view ws db) = some row)
    (hc : ∀ row, c.locks (engine.view ws db) = some row → row.Business → T row) :
    Territory own' db (ws ++ vs) T where
  rows := h.rows
  held := by
    intro row ho hb
    rcases (hown row).mp ho with ho | hl
    · exact h.held row ho hb
    · exact hc row hl hb
  content := by
    rcases h.content with hcont | ⟨neg, hneg, ⟨a, ha⟩, hT⟩
    · exact Or.inl fun row ht hb => (hown row).mpr (Or.inl (hcont row ht hb))
    · exact Or.inr ⟨neg, hneg, ⟨a, List.mem_append_left _ ha⟩, hT⟩

/-! ## §3. Ways. -/

/-- The request at `p` is on its way to `goal`: the fact `F`, which no other
transaction can change, leads there through the territory `T`. -/
structure Heading (own : Row → Prop) (db : Db) (req : HttpRequest) (env : Env)
    (p goal : At Response) (T : Row → Prop) (F : Db → Prop) : Prop where
  fact : F db
  kept : ∀ d d', Rely own d d' → F d → F d'
  reaches : engine.Reaches (Within T) F p goal
  goal : Goal own db req env T goal
  territory : Territory own db p.staged T

theorem Heading.rely (h : Heading own db req env p goal T F)
    (hr : Rely own db db') : Heading own db' req env p goal T F where
  fact := h.kept _ _ hr h.fact
  kept := h.kept
  reaches := h.reaches
  goal := h.goal.rely hr
  territory := h.territory.rely hr

/-- The way of length zero. -/
theorem Heading.here (hg : Goal own db req env T p)
    (ht : Territory own db p.staged T) : Heading own db req env p p T fun _ => True where
  fact := trivial
  kept := fun _ _ _ h => h
  reaches := .refl p
  goal := hg
  territory := ht

/-- Where a request can stand, given the rows it owns. -/
inductive Stage (own : Row → Prop) (db : Db) (req : HttpRequest) (env : Env) :
    At Response → Prop where
  | start (hfree : ∀ row, ¬ own row) : Stage own db req env ⟨handle req, env, []⟩
  | lookup {user : User} {k : String} (hu : Admitted db req user) (hk : req.usedKey = some k)
      (hfree : ∀ row, ¬ own row) :
      Stage own db req env ⟨.call (.getKey k) (lookedUp req user), env, []⟩
  | produce {user : User} (hu : Admitted db req user) (hfree : ∀ row, ¬ own row) :
      Stage own db req env ⟨req.op.produce user >>= finish req user, env, []⟩
  | heading {p goal : At Response} {T : Row → Prop} {F : Db → Prop}
      (h : Heading own db req env p goal T F) : Stage own db req env p

/-- **No commit of another transaction moves a request.** -/
theorem Stage.rely (h : Stage own db req env p) (hr : Rely own db db') :
    Stage own db' req env p := by
  cases h with
  | start hfree => exact .start hfree
  | lookup hu hk hfree => exact .lookup (hu.rely hr) hk hfree
  | produce hu hfree => exact .produce (hu.rely hr) hfree
  | heading h => exact .heading (h.rely hr)

end

end Procurement
