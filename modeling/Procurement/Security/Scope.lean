/-
  Procurement.Security.Scope
  ──────────────────────────
  **TWO DATABASES THAT CANNOT BE TOLD APART.**

  A `Scope` says what two databases are compared on: which requests and
  negotiations count, and in which of these the prices are secret from the
  readers.  `Agree` is that comparison.  Every statement of the services is
  answered alike on databases that agree (§3), and keeps them in agreement when
  it writes (§4); a write outside the scope may happen on one side only (§5).

      Security.Isolation         everything about one request, no secrets
      Security.Confidentiality   every request, the prices of the others secret
-/
import Procurement.Framework.Slice
import Procurement.Runs.Outline

namespace Procurement

open Procurement.Framework

/-! ## §1. Scopes. -/

structure Scope where
  /-- the users from whom secrets are kept -/
  reader : Id → Bool
  /-- the requests that readers opened -/
  own : Id → Bool
  request : Id → Bool
  negotiation : Id → Bool
  /-- the negotiations whose prices may differ -/
  secret : Id → Bool

/-- What stands in place of a body that is kept from the readers. -/
def Body.hidden : Body := .negotiation ⟨0, 0, 0, .active, none, none, 0⟩

namespace Scope

variable (sc : Scope)

def blur (n : Negotiation) : Negotiation :=
  if sc.secret n.id then { n with agreedAmount := none } else n

def blurProposal (p : Proposal) : Proposal :=
  if sc.secret p.negotiationId then { p with amount := 0, currency := "", message := none } else p

def blurKey (k : IdempotencyKey) : IdempotencyKey :=
  if sc.reader k.userId then k else { k with responseBody := .hidden }

/-- The blur leaves the parties, the status and the dates of a row. -/
theorem blur_eq (n : Negotiation) : ∃ a, sc.blur n = { n with agreedAmount := a } := by
  unfold blur
  split
  · exact ⟨none, rfl⟩
  · exact ⟨n.agreedAmount, rfl⟩

@[simp] theorem blur_id (n : Negotiation) : (sc.blur n).id = n.id := by
  obtain ⟨a, h⟩ := sc.blur_eq n
  rw [h]

@[simp] theorem blur_requestId (n : Negotiation) : (sc.blur n).requestId = n.requestId := by
  obtain ⟨a, h⟩ := sc.blur_eq n
  rw [h]

@[simp] theorem blur_supplierId (n : Negotiation) : (sc.blur n).supplierId = n.supplierId := by
  obtain ⟨a, h⟩ := sc.blur_eq n
  rw [h]

@[simp] theorem blur_status (n : Negotiation) : (sc.blur n).status = n.status := by
  obtain ⟨a, h⟩ := sc.blur_eq n
  rw [h]

variable {sc}

/-- What is not secret stays as it is. -/
theorem blur_of_shown {n : Negotiation} (h : sc.secret n.id = false) : sc.blur n = n := by
  unfold blur
  rw [h]
  rfl

/-- A negotiation without an agreed amount has nothing to blur. -/
theorem blur_of_unagreed {n : Negotiation} (h : n.agreedAmount = none) : sc.blur n = n := by
  unfold blur
  split
  · rw [← h]
  · rfl

/-- The proposals of a negotiation that is not secret stay as they are. -/
theorem blurProposal_of_shown {p : Proposal} (h : sc.secret p.negotiationId = false) :
    sc.blurProposal p = p := by
  unfold blurProposal
  rw [h]
  rfl

@[simp] theorem blurProposal_id (p : Proposal) : (sc.blurProposal p).id = p.id := by
  unfold blurProposal
  split <;> rfl

@[simp] theorem blurProposal_negotiationId (p : Proposal) :
    (sc.blurProposal p).negotiationId = p.negotiationId := by
  unfold blurProposal
  split <;> rfl

@[simp] theorem blurProposal_actorId (p : Proposal) : (sc.blurProposal p).actorId = p.actorId := by
  unfold blurProposal
  split <;> rfl

@[simp] theorem blurKey_key (k : IdempotencyKey) : (sc.blurKey k).key = k.key := by
  unfold blurKey
  split <;> rfl

@[simp] theorem blurKey_userId (k : IdempotencyKey) : (sc.blurKey k).userId = k.userId := by
  unfold blurKey
  split <;> rfl

/-- Whatever is blurred, the rest of the row is there. -/
theorem blur_agreed (sc : Scope) (n : Negotiation) (a : Option Amount) :
    { sc.blur n with agreedAmount := a } = { n with agreedAmount := a } := by
  unfold blur
  split <;> rfl

/-- Rows with the same blur differ in their agreed amount, where it is secret. -/
theorem blur_eq_blur {n n' : Negotiation} (h : sc.blur n = sc.blur n') :
    ∃ a, n' = { n with agreedAmount := a } ∧ (sc.secret n.id = false → a = n.agreedAmount) := by
  refine ⟨n'.agreedAmount, ?_, ?_⟩
  · rw [← blur_agreed sc n, h, blur_agreed]
  · intro hs
    have hid : n.id = n'.id := by simpa using congrArg Negotiation.id h
    have hs' : sc.secret n'.id = false := hid ▸ hs
    rw [blur_of_shown hs, blur_of_shown hs'] at h
    rw [h]

/-! ## §2. Agreement. -/

/-- The scope fits the rows of the database. -/
structure Covers (sc : Scope) (db : Db) : Prop where
  closed : ∀ n ∈ db.negotiations, sc.negotiation n.id = sc.request n.requestId
  shown : ∀ n ∈ db.negotiations,
    sc.secret n.id = (!sc.reader n.supplierId && !sc.own n.requestId)
  owned : ∀ r ∈ db.requests, sc.own r.id = sc.reader r.clientId

end Scope

/-- Nothing is agreed while it is negotiated. -/
def Db.Unagreed (db : Db) : Prop :=
  ∀ n ∈ db.negotiations, n.status = .active → n.agreedAmount = none

/-- In the scope, and up to secrets, the two databases hold the same rows. -/
structure Scope.Agree (sc : Scope) (db db' : Db) : Prop where
  users : db.users = db'.users
  requests : Sliced (fun r => sc.request r.id) id db.requests db'.requests
  negotiations : Sliced (fun n => sc.request n.requestId) sc.blur db.negotiations db'.negotiations
  proposals : Sliced (fun p => sc.negotiation p.negotiationId) sc.blurProposal db.proposals
    db'.proposals
  keys : db.idempotencyKeys.map sc.blurKey = db'.idempotencyKeys.map sc.blurKey
  within : ∀ n ∈ db'.negotiations, ∃ m ∈ db.negotiations, m.thread = n.thread
  covers : sc.Covers db
  unagreed : db.Unagreed
  unagreed' : db'.Unagreed

namespace Scope

variable {sc : Scope} {db db' : Db}

/-- A database agrees with itself in every scope that fits it. -/
theorem Agree.refl (hc : sc.Covers db) (hu : db.Unagreed) : sc.Agree db db where
  users := rfl
  requests := Sliced.refl _ _ _
  negotiations := Sliced.refl _ _ _
  proposals := Sliced.refl _ _ _
  keys := rfl
  within := fun n hn => ⟨n, hn, rfl⟩
  covers := hc
  unagreed := hu
  unagreed' := hu

/-- The scope fits the negotiations of the second database too. -/
theorem Agree.covers' (h : sc.Agree db db') {n : Negotiation} (hn : n ∈ db'.negotiations) :
    sc.negotiation n.id = sc.request n.requestId
      ∧ sc.secret n.id = (!sc.reader n.supplierId && !sc.own n.requestId) := by
  obtain ⟨m, hm, hthread⟩ := h.within n hn
  obtain ⟨hid, hrid, hsid⟩ := Thread.mk.inj hthread
  rw [← hid, ← hrid, ← hsid]
  exact ⟨h.covers.closed m hm, h.covers.shown m hm⟩

/-- Two rows for one negotiation of the scope. -/
structure Same (sc : Scope) (i : Id) (n n' : Negotiation) : Prop where
  blurred : sc.blur n = sc.blur n'
  id : n.id = i
  inside : sc.request n.requestId = true
  shown : sc.secret i = (!sc.reader n.supplierId && !sc.own n.requestId)

/-- Two proposals for one proposal of the scope. -/
structure SameProposal (sc : Scope) (i : Id) (p p' : Proposal) : Prop where
  actor : p.actorId = p'.actorId
  price : sc.secret i = false → p = p'

/-! ## §3. Reads. -/

namespace Agree

/-- All users are in every scope. -/
theorem user (h : sc.Agree db db') (i : Id) : db.user i = db'.user i := by
  unfold Db.user
  rw [h.users]

/-- So are their emails. -/
theorem userByEmail (h : sc.Agree db db') (email : String) :
    db.userByEmail email = db'.userByEmail email := by
  unfold Db.userByEmail
  rw [h.users]

/-- A request of the scope is the same. -/
theorem request (h : sc.Agree db db') {i : Id} (hi : sc.request i = true) :
    db.request i = db'.request i := by
  have hinside : ∀ r : ProductRequest, decide (r.id = i) = true → sc.request r.id = true := by
    intro r hr
    rw [of_decide_eq_true hr]
    exact hi
  have hnarrow := h.requests.narrow (q := fun r => decide (r.id = i)) (fun r _ => hinside r)
    (fun r _ => hinside r) (fun _ => rfl)
  have hfound := hnarrow.find?
  rw [Option.map_id_fun] at hfound
  exact hfound

/-- A selection of negotiations inside the scope. -/
theorem select (h : sc.Agree db db') {q : Negotiation → Bool}
    (hq : ∀ n, q n → sc.negotiation n.id = sc.request n.requestId → sc.request n.requestId = true)
    (hb : ∀ n, q (sc.blur n) = q n) : Sliced q sc.blur db.negotiations db'.negotiations :=
  h.negotiations.narrow (fun n hn hqn => hq n hqn (h.covers.closed n hn))
    (fun n hn hqn => hq n hqn (h.covers' hn).1) hb

/-- A negotiation of the scope. -/
theorem negotiation (h : sc.Agree db db') {i : Id} (hi : sc.negotiation i = true) :
    Option.Rel (sc.Same i) (db.negotiation i) (db'.negotiation i) := by
  have hfound := (h.select (q := fun n => decide (n.id = i))
    (by
      intro n hn hclosed
      rw [← hclosed, of_decide_eq_true hn]
      exact hi)
    (by simp)).find?
  refine Sliced.rel_of_map_eq hfound fun n n' hn _ hblur => ?_
  have hmem : n ∈ db.negotiations := lookup_mem hn
  obtain rfl : n.id = i := lookup_key hn
  exact ⟨hblur, rfl, (h.covers.closed n hmem).symm.trans hi, h.covers.shown n hmem⟩

/-- Whether a supplier has a negotiation on a request of the scope. -/
theorem thread (h : sc.Agree db db') {rid : Id} (hr : sc.request rid = true) (sid : Id) :
    (db.thread rid sid).isSome = (db'.thread rid sid).isSome := by
  have hfound := (h.select (q := fun n => decide (n.requestId = rid ∧ n.supplierId = sid))
    (by
      intro n hn _
      rw [(of_decide_eq_true hn).1]
      exact hr)
    (by simp)).find?
  have hsome := congrArg Option.isSome hfound
  rwa [Option.isSome_map, Option.isSome_map] at hsome

/-- The active siblings are the same rows: there is nothing to blur in them. -/
theorem activeSiblings (h : sc.Agree db db') {rid : Id} (hr : sc.request rid = true) (w : Id) :
    db.activeSiblings rid w = db'.activeSiblings rid w := by
  have hslice := h.select
    (q := fun n => decide (n.requestId = rid ∧ n.status = .active ∧ n.id ≠ w))
    (by
      intro n hn _
      rw [(of_decide_eq_true hn).1]
      exact hr)
    (by simp)
  exact hslice.eq (fun n hn hq => blur_of_unagreed (h.unagreed n hn (of_decide_eq_true hq).2.1))
    (fun n hn hq => blur_of_unagreed (h.unagreed' n hn (of_decide_eq_true hq).2.1))

/-- The proposals of a negotiation of the scope. -/
theorem proposalsOf (h : sc.Agree db db') {i : Id} (hi : sc.negotiation i = true) :
    Sliced (fun p => decide (p.negotiationId = i)) sc.blurProposal db.proposals db'.proposals := by
  have hinside : ∀ p : Proposal, decide (p.negotiationId = i) = true →
      sc.negotiation p.negotiationId = true := by
    intro p hp
    rw [of_decide_eq_true hp]
    exact hi
  exact h.proposals.narrow (fun p _ => hinside p) (fun p _ => hinside p) (by simp)

/-- The chains agree but for the prices. -/
theorem chain (h : sc.Agree db db') {i : Id} (hi : sc.negotiation i = true) :
    (db.chain i).map sc.blurProposal = (db'.chain i).map sc.blurProposal :=
  (h.proposalsOf hi).insertionSort (f := Proposal.id) (by simp)

/-- Outside the secrets they are the same. -/
theorem chain_eq (h : sc.Agree db db') {i : Id} (hi : sc.negotiation i = true)
    (hs : sc.secret i = false) : db.chain i = db'.chain i := by
  have hshown : ∀ p : Proposal, decide (p.negotiationId = i) = true → sc.blurProposal p = p := by
    intro p hp
    refine blurProposal_of_shown ?_
    rw [of_decide_eq_true hp]
    exact hs
  have heq := (h.proposalsOf hi).eq (fun p _ => hshown p) (fun p _ => hshown p)
  exact congrArg orderById heq

/-- The last proposals are there on both sides or on neither. -/
theorem lastProposal (h : sc.Agree db db') {i : Id} (hi : sc.negotiation i = true) :
    Option.Rel (sc.SameProposal i) (db.lastProposal i) (db'.lastProposal i) := by
  have hlast : (db.lastProposal i).map sc.blurProposal = (db'.lastProposal i).map sc.blurProposal :=
    (h.proposalsOf hi).argmax (f := Proposal.id) (by simp)
  have hof : ∀ (db : Db) p, db.lastProposal i = some p → p.negotiationId = i := by
    intro db p hp
    have hmem : p ∈ db.proposalsOf i := List.argmax_mem hp
    exact of_decide_eq_true (List.mem_filter.mp hmem).2
  refine Sliced.rel_of_map_eq hlast fun p p' hp hp' hblur => ?_
  refine ⟨by simpa using congrArg Proposal.actorId hblur, fun hs => ?_⟩
  rwa [blurProposal_of_shown (by rw [hof db p hp]; exact hs),
    blurProposal_of_shown (by rw [hof db' p' hp']; exact hs)] at hblur

/-- The record of a key. -/
theorem idempotencyKey (h : sc.Agree db db') (k : String) :
    (db.idempotencyKey k).map sc.blurKey = (db'.idempotencyKey k).map sc.blurKey := by
  unfold Db.idempotencyKey
  rw [← lookup_map sc.blurKey (by simp), ← lookup_map sc.blurKey (by simp), h.keys]

end Agree

end Scope

/-! ## §4. Writes on both sides. -/

/-- A decision does not move a negotiation to another thread. -/
theorem Decision.on_thread (d : Decision) (n : Negotiation) : (d.on n).thread = n.thread := by
  cases d <;> rfl

/-- A decision leaves rows as they were, or decided. -/
theorem mem_decide {i : Id} {d : Decision} {db : Db} {n : Negotiation}
    (h : n ∈ ((Write.decide i d).apply db).negotiations) :
    ∃ m ∈ db.negotiations, n.thread = m.thread ∧ (n = m ∨ n.status ≠ .active) := by
  obtain ⟨m, hm, rfl⟩ := List.mem_map.mp h
  refine ⟨m, hm, ?_⟩
  by_cases hi : m.id = i
  · rw [if_pos hi]
    refine ⟨d.on_thread m, Or.inr ?_⟩
    cases d <;> simp [Decision.on]
  · rw [if_neg hi]
    exact ⟨rfl, Or.inl rfl⟩

namespace Scope

variable {sc : Scope} {db db' : Db}

/-- New rows are what the scope says of their ids. -/
def Admits (sc : Scope) : Write → Prop
  | .insertRequest r => sc.own r.id = sc.reader r.clientId
  | .insertNegotiation n =>
      sc.negotiation n.id = sc.request n.requestId
        ∧ sc.secret n.id = (!sc.reader n.supplierId && !sc.own n.requestId)
        ∧ n.agreedAmount = none
  | _ => True

/-- A write that the scope admits keeps it fitting. -/
theorem Covers.apply (h : sc.Covers db) {w : Write} (hw : sc.Admits w) : sc.Covers (w.apply db) := by
  cases w with
  | insertUser | insertProposal | insertAudit | insertKey => exact ⟨h.closed, h.shown, h.owned⟩
  | insertRequest r =>
      refine ⟨h.closed, h.shown, fun q hq => ?_⟩
      rcases List.mem_append.mp hq with hq | hq
      · exact h.owned q hq
      · obtain rfl := List.mem_singleton.mp hq
        exact hw
  | insertNegotiation n =>
      refine ⟨fun m hm => ?_, fun m hm => ?_, h.owned⟩
      · rcases List.mem_append.mp hm with hm | hm
        · exact h.closed m hm
        · obtain rfl := List.mem_singleton.mp hm
          exact hw.1
      · rcases List.mem_append.mp hm with hm | hm
        · exact h.shown m hm
        · obtain rfl := List.mem_singleton.mp hm
          exact hw.2.1
  | decide i d =>
      refine ⟨fun n hn => ?_, fun n hn => ?_, h.owned⟩
      · obtain ⟨m, hm, hthread, _⟩ := mem_decide hn
        obtain ⟨hid, hrid, hsid⟩ := Thread.mk.inj hthread
        rw [hid, hrid]
        exact h.closed m hm
      · obtain ⟨m, hm, hthread, _⟩ := mem_decide hn
        obtain ⟨hid, hrid, hsid⟩ := Thread.mk.inj hthread
        rw [hid, hrid, hsid]
        exact h.shown m hm
  | closeRequest i =>
      refine ⟨h.closed, h.shown, fun q hq => ?_⟩
      obtain ⟨r, hr, rfl⟩ := List.mem_map.mp hq
      have howned := h.owned r hr
      split <;> exact howned

/-- A write that the scope admits agrees on an amount with a decision only. -/
theorem unagreed_apply (sc : Scope) {w : Write} (h : db.Unagreed) (hw : sc.Admits w) :
    (w.apply db).Unagreed := by
  cases w with
  | insertNegotiation n =>
      intro m hm hs
      rcases List.mem_append.mp hm with hm | hm
      · exact h m hm hs
      · obtain rfl := List.mem_singleton.mp hm
        exact hw.2.2
  | decide i d =>
      intro n hn hs
      obtain ⟨m, hm, _, rfl | hne⟩ := mem_decide hn
      · exact h n hm hs
      · exact absurd hs hne
  | _ => exact h

/-- The same decision, up to a secret amount. -/
inductive SameDecision (sc : Scope) (i : Id) : Decision → Decision → Prop where
  | accepted {a a' : Amount} (h : sc.secret i = false → a = a') :
      SameDecision sc i (.accepted a) (.accepted a')
  | rejected : SameDecision sc i .rejected .rejected

/-- Behind the blur the two decisions do the same. -/
theorem SameDecision.blur {i : Id} {d d' : Decision} (h : sc.SameDecision i d d')
    {n : Negotiation} (hi : n.id = i) :
    sc.blur (d.on n) = sc.blur (d.on (sc.blur n)) ∧ sc.blur (d'.on n) = sc.blur (d.on (sc.blur n)) := by
  cases hs : sc.secret i with
  | false =>
      have hn : sc.blur n = n := blur_of_shown (by rw [hi]; exact hs)
      rw [hn]
      cases h with
      | accepted h => exact ⟨rfl, by rw [h hs]⟩
      | rejected => exact ⟨rfl, rfl⟩
  | true =>
      have hblur : ∀ m : Negotiation, m.id = i → sc.blur m = { m with agreedAmount := none } := by
        intro m hm
        unfold Scope.blur
        rw [hm, hs]
        rfl
      have hon : ∀ (d : Decision) (m : Negotiation), m.id = i →
          sc.blur (d.on m) = { d.on m with agreedAmount := none } :=
        fun d m hm => hblur _ ((d.on_id m).trans hm)
      rw [hon d n hi, hon d' n hi, hon d _ ((sc.blur_id n).trans hi), hblur n hi]
      cases h with
      | accepted h => exact ⟨rfl, rfl⟩
      | rejected => exact ⟨rfl, rfl⟩

/-- Two writes that leave databases in agreement. -/
inductive Paired (sc : Scope) : Write → Write → Prop where
  | same {w : Write} (h : sc.Admits w) : Paired sc w w
  | insertProposal {p p' : Proposal} (h : sc.blurProposal p = sc.blurProposal p') :
      Paired sc (.insertProposal p) (.insertProposal p')
  | insertAudit (e e' : AuditLog) : Paired sc (.insertAudit e) (.insertAudit e')
  | insertKey {k k' : IdempotencyKey} (h : sc.blurKey k = sc.blurKey k') :
      Paired sc (.insertKey k) (.insertKey k')
  | decide {i : Id} {d d' : Decision} (h : sc.SameDecision i d d') :
      Paired sc (.decide i d) (.decide i d')

namespace Agree

/-- Two proposals with different secret prices keep the databases in agreement. -/
theorem insertProposal (h : sc.Agree db db') {p p' : Proposal}
    (hp : sc.blurProposal p = sc.blurProposal p') :
    sc.Agree ((Write.insertProposal p).apply db) ((Write.insertProposal p').apply db') := by
  have hid : p.negotiationId = p'.negotiationId := by
    simpa using congrArg Proposal.negotiationId hp
  exact { h with
    proposals := h.proposals.concat (by rw [hid]) hp
    covers := h.covers.apply (w := .insertProposal p) trivial }

/-- Two records that differ in secret prices keep the databases in agreement. -/
theorem insertKey (h : sc.Agree db db') {k k' : IdempotencyKey} (hk : sc.blurKey k = sc.blurKey k') :
    sc.Agree ((Write.insertKey k).apply db) ((Write.insertKey k').apply db') := by
  refine { h with keys := ?_, covers := h.covers.apply (w := .insertKey k) trivial }
  show (db.idempotencyKeys ++ [k]).map sc.blurKey = (db'.idempotencyKeys ++ [k']).map sc.blurKey
  rw [List.map_append, List.map_append, h.keys, List.map_singleton, List.map_singleton, hk]

/-- Two decisions that differ in a secret amount keep the databases in agreement. -/
theorem decide (h : sc.Agree db db') {i : Id} {d d' : Decision} (hd : sc.SameDecision i d d') :
    sc.Agree ((Write.decide i d).apply db) ((Write.decide i d').apply db') := by
  refine { h with
    negotiations := ?_
    within := ?_
    covers := h.covers.apply (w := .decide i d) trivial
    unagreed := unagreed_apply sc (w := .decide i d) h.unagreed trivial
    unagreed' := unagreed_apply sc (w := .decide i d') h.unagreed' trivial }
  · refine h.negotiations.map (fun n => if n.id = i then sc.blur (d.on n) else n) ?_ ?_ ?_ ?_
    · intro n
      by_cases hi : n.id = i
      · rw [if_pos hi, if_pos (by simpa using hi), (hd.blur hi).1]
      · rw [if_neg hi, if_neg (by simpa using hi)]
    · intro n
      by_cases hi : n.id = i
      · rw [if_pos hi, if_pos (by simpa using hi), (hd.blur hi).2]
      · rw [if_neg hi, if_neg (by simpa using hi)]
    · intro n
      split
      · cases d <;> rfl
      · rfl
    · intro n
      split
      · cases d' <;> rfl
      · rfl
  · intro n hn
    obtain ⟨m', hm', hthread, _⟩ := mem_decide hn
    obtain ⟨m, hm, hmm⟩ := h.within m' hm'
    refine ⟨_, List.mem_map_of_mem hm, ?_⟩
    rw [hthread, ← hmm]
    split
    · exact d.on_thread m
    · rfl

/-- The same write on both sides. -/
theorem same (h : sc.Agree db db') {w : Write} (hw : sc.Admits w) :
    sc.Agree (w.apply db) (w.apply db') := by
  have hcovers := h.covers.apply hw
  cases w with
  | insertUser u =>
      refine { h with users := ?_, covers := hcovers }
      show db.users ++ [u] = db'.users ++ [u]
      rw [h.users]
  | insertRequest r =>
      exact { h with requests := h.requests.concat rfl rfl, covers := hcovers }
  | insertNegotiation n =>
      refine { h with
        negotiations := h.negotiations.concat rfl rfl
        within := ?_
        covers := hcovers
        unagreed := unagreed_apply sc h.unagreed hw
        unagreed' := unagreed_apply sc h.unagreed' hw }
      intro m hm
      rcases List.mem_append.mp hm with hm | hm
      · obtain ⟨k, hk, hthread⟩ := h.within m hm
        exact ⟨k, List.mem_append_left _ hk, hthread⟩
      · exact ⟨m, List.mem_append_right _ hm, rfl⟩
  | insertProposal p => exact h.insertProposal rfl
  | insertAudit e => exact { h with covers := hcovers }
  | insertKey k => exact h.insertKey rfl
  | decide i d =>
      refine h.decide ?_
      cases d with
      | accepted a => exact .accepted fun _ => rfl
      | rejected => exact .rejected
  | closeRequest i =>
      refine { h with requests := ?_, covers := hcovers }
      refine h.requests.map (fun r => if r.id = i then { r with status := .closed } else r)
        (fun _ => rfl) (fun _ => rfl) ?_ ?_
      · intro r
        split <;> rfl
      · intro r
        split <;> rfl

/-- **Paired writes keep the agreement.** -/
theorem apply (h : sc.Agree db db') {w w' : Write} (hw : sc.Paired w w') :
    sc.Agree (w.apply db) (w'.apply db') := by
  cases hw with
  | same hw => exact h.same hw
  | insertProposal hp => exact h.insertProposal hp
  | insertAudit e e' => exact { h with covers := h.covers.apply (w := .insertAudit e) trivial }
  | insertKey hk => exact h.insertKey hk
  | decide hd => exact h.decide hd

end Agree

/-! ## §5. Writes on one side, and other scopes. -/

/-- A write that does not show in the scope. -/
def Outside (sc : Scope) : Write → Prop
  | .insertRequest r => sc.request r.id = false ∧ sc.Admits (.insertRequest r)
  | .insertNegotiation n => sc.request n.requestId = false ∧ sc.Admits (.insertNegotiation n)
  | .insertProposal p => sc.negotiation p.negotiationId = false
  | .insertAudit _ => True
  | .decide i _ => sc.negotiation i = false
  | .closeRequest i => sc.request i = false
  | .insertUser _ | .insertKey _ => False

/-- A write outside the scope, on the first side only. -/
theorem Agree.outside (h : sc.Agree db db') {w : Write} (hw : sc.Outside w) :
    sc.Agree (w.apply db) db' := by
  cases w with
  | insertUser | insertKey => exact hw.elim
  | insertRequest r =>
      exact { h with requests := h.requests.concat_left hw.1, covers := h.covers.apply hw.2 }
  | insertNegotiation n =>
      refine { h with
        negotiations := h.negotiations.concat_left hw.1
        within := ?_
        covers := h.covers.apply hw.2
        unagreed := unagreed_apply sc h.unagreed hw.2 }
      intro m hm
      obtain ⟨k, hk, hthread⟩ := h.within m hm
      exact ⟨k, List.mem_append_left _ hk, hthread⟩
  | insertProposal p =>
      exact { h with
        proposals := h.proposals.concat_left hw
        covers := h.covers.apply (w := .insertProposal p) trivial }
  | insertAudit e => exact { h with covers := h.covers.apply (w := .insertAudit e) trivial }
  | decide i d =>
      refine { h with
        negotiations := h.negotiations.map_left ?_ ?_
        within := ?_
        covers := h.covers.apply (w := .decide i d) trivial
        unagreed := unagreed_apply sc (w := .decide i d) h.unagreed trivial }
      · intro n
        split
        · cases d <;> rfl
        · rfl
      · intro n hn hin
        have hne : n.id ≠ i := by
          intro hi
          rw [← h.covers.closed n hn, hi, show sc.negotiation i = false from hw] at hin
          exact absurd hin (by simp)
        exact if_neg hne
      · intro n hn
        obtain ⟨m, hm, hthread⟩ := h.within n hn
        refine ⟨_, List.mem_map_of_mem hm, ?_⟩
        rw [← hthread]
        split
        · exact d.on_thread m
        · rfl
  | closeRequest i =>
      refine { h with requests := ?_, covers := h.covers.apply (w := .closeRequest i) trivial }
      refine h.requests.map_left ?_ ?_
      · intro r
        split <;> rfl
      · intro r _ hin
        have hne : r.id ≠ i := by
          intro hi
          rw [hi, show sc.request i = false from hw] at hin
          exact absurd hin (by simp)
        exact if_neg hne

/-- So for all the writes of a call. -/
theorem Agree.outside_view {ws : List Write} (hws : ∀ w ∈ ws, sc.Outside w)
    (h : sc.Agree db db') : sc.Agree (engine.view ws db) db' := by
  induction ws generalizing db with
  | nil => exact h
  | cons w ws ih =>
      rw [Engine.view_cons]
      exact ih (fun w' hw' => hws w' (List.mem_cons_of_mem _ hw'))
        (h.outside (hws w (List.mem_cons_self ..)))

/-- Databases that agree on a scope agree on every smaller one with the same
secrets among the rows that there are. -/
theorem Agree.rescope {sc' : Scope} (h : sc.Agree db db') (hreader : sc'.reader = sc.reader)
    (hrequest : sc'.request = sc.request)
    (hnegotiation : ∀ i, sc'.negotiation i = true → sc.negotiation i = true)
    (hsecret : ∀ n ∈ db.negotiations, sc'.secret n.id = sc.secret n.id)
    (hproposals : ∀ p ∈ db.proposals, sc'.secret p.negotiationId = sc.secret p.negotiationId)
    (hcovers : sc'.Covers db) : sc'.Agree db db' := by
  have hblur : ∀ n : Negotiation, sc'.secret n.id = sc.secret n.id →
      sc'.blur (sc.blur n) = sc'.blur n := by
    intro n hn
    unfold blur
    cases hs : sc.secret n.id with
    | false => rfl
    | true => simp [hn, hs]
  have hblurProposal : ∀ p : Proposal, sc'.secret p.negotiationId = sc.secret p.negotiationId →
      sc'.blurProposal (sc.blurProposal p) = sc'.blurProposal p := by
    intro p hp
    unfold blurProposal
    cases hs : sc.secret p.negotiationId with
    | false => rfl
    | true => simp [hp, hs]
  refine
    { users := h.users
      requests := by rw [hrequest]; exact h.requests
      negotiations := ?_
      proposals := ?_
      keys := ?_
      within := h.within
      covers := hcovers
      unagreed := h.unagreed
      unagreed' := h.unagreed' }
  · rw [hrequest]
    refine h.negotiations.reblur (fun n hn _ => hblur n (hsecret n hn)) fun n hn _ => ?_
    obtain ⟨m, hm, hthread⟩ := h.within n hn
    have hid : m.id = n.id := (Thread.mk.inj hthread).1
    exact hblur n (hid ▸ hsecret m hm)
  · have hsmaller := h.proposals.reblur (c := sc'.blurProposal)
      (fun p hp _ => hblurProposal p (hproposals p hp)) (by
        intro p' hp' hin
        obtain ⟨p, hp, _, hpp⟩ := h.proposals.exists_mem hp' hin
        have hid : p.negotiationId = p'.negotiationId := by
          simpa using congrArg Proposal.negotiationId hpp
        exact hblurProposal p' (hid ▸ hproposals p hp))
    exact hsmaller.narrow (fun p _ => hnegotiation _) (fun p _ => hnegotiation _) (by simp)
  · have hkey : sc'.blurKey = sc.blurKey := by
      funext k
      unfold blurKey
      rw [hreader]
    rw [hkey]
    exact h.keys

end Scope

end Procurement
