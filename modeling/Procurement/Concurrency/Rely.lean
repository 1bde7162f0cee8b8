/-
  Procurement.Concurrency.Rely
  ────────────────────────────
  **WHAT A LOCK IS WORTH.**

  `Rely own db db'`: whatever the other transactions commit between `db` and
  `db'`, a transaction that owns the rows `own` finds its negotiations, their
  proposals, its request and the set of negotiations on it as they were.  The
  siblings of an acceptance are not locked while they are selected: of them it
  may rely on less, that an active one is at worst rejected in the meantime.

  `Delta` is the shape of what operations do to the tables: an operation that
  leaves the owned rows alone is within the rely (`Delta.rely`).
-/
import Procurement.Concurrency.Transactions
import Procurement.Runs.Trail

namespace Procurement

open Procurement.Framework

/-! ## §1. Rely. -/

/-- A row of a negotiation, and what has become of it: nothing, or it has been
rejected. -/
def Kept (n n' : Negotiation) : Prop := n' = n ∨ n.status = .active ∧ n'.status = .rejected

structure Rely (own : Row → Prop) (db db' : Db) : Prop where
  users : db'.users = db.users
  owner : ∀ i r, db.request i = some r → ∃ r', db'.request i = some r' ∧ r'.clientId = r.clientId
  request : ∀ i r, own (.request i) → db.request i = some r → db'.request i = some r
  negotiation : ∀ i n, own (.negotiation i) → db.negotiation i = some n →
    db'.negotiation i = some n ∧ db'.proposalsOf i = db.proposalsOf i
  thread : ∀ r s, own (.request r) → (db'.thread r s).isSome = (db.thread r s).isSome
  stays : ∀ n ∈ db.negotiations, ∃ n' ∈ db'.negotiations,
    n'.id = n.id ∧ n'.requestId = n.requestId ∧ (own (.request n.requestId) → Kept n n')
  comes : ∀ n' ∈ db'.negotiations, own (.request n'.requestId) → ∃ n ∈ db.negotiations,
    n.id = n'.id ∧ n.requestId = n'.requestId ∧ Kept n n'
  key : ∀ k, own (.key k) → db.idempotencyKey k = none → db'.idempotencyKey k = none

theorem Rely.mono {own own' : Row → Prop} {db db' : Db} (h : ∀ row, own' row → own row)
    (hr : Rely own db db') : Rely own' db db' where
  users := hr.users
  owner := hr.owner
  request := fun i r ho => hr.request i r (h _ ho)
  negotiation := fun i n ho => hr.negotiation i n (h _ ho)
  thread := fun r s ho => hr.thread r s (h _ ho)
  stays := by
    intro n hn
    obtain ⟨n', hn', hid, hreq, hkept⟩ := hr.stays n hn
    exact ⟨n', hn', hid, hreq, fun ho => hkept (h _ ho)⟩
  comes := fun n' hn' ho => hr.comes n' hn' (h _ ho)
  key := fun k ho => hr.key k (h _ ho)

/-- What an operation does to the tables: rows of requests and negotiations are
rewritten, and rows are added. -/
structure Delta (db db' : Db) where
  onRequest : ProductRequest → ProductRequest
  onNegotiation : Negotiation → Negotiation
  newRequests : List ProductRequest
  newNegotiations : List Negotiation
  newProposals : List Proposal
  users_eq : db'.users = db.users
  requests_eq : db'.requests = db.requests.map onRequest ++ newRequests
  negotiations_eq : db'.negotiations = db.negotiations.map onNegotiation ++ newNegotiations
  proposals_eq : db'.proposals = db.proposals ++ newProposals
  keys_eq : db'.idempotencyKeys = db.idempotencyKeys
  ownership : ∀ r, (onRequest r).ownership = r.ownership
  threads : ∀ n, (onNegotiation n).thread = n.thread

namespace Delta

variable {own : Row → Prop} {db db' : Db} (d : Delta db db')
include d

theorem request_id (r : ProductRequest) : (d.onRequest r).id = r.id :=
  congrArg Ownership.id (d.ownership r)

theorem negotiation_id (n : Negotiation) : (d.onNegotiation n).id = n.id :=
  congrArg Thread.id (d.threads n)

theorem negotiation_requestId (n : Negotiation) : (d.onNegotiation n).requestId = n.requestId :=
  congrArg Thread.requestId (d.threads n)

/-- A request that was there is read rewritten. -/
theorem request {i : Id} {r : ProductRequest} (hr : db.request i = some r) :
    db'.request i = some (d.onRequest r) := by
  unfold Db.request at hr ⊢
  rw [d.requests_eq]
  apply lookup_append_of_some
  rw [lookup_map _ d.request_id, hr]
  rfl

theorem negotiation {i : Id} {n : Negotiation} (hn : db.negotiation i = some n) :
    db'.negotiation i = some (d.onNegotiation n) := by
  unfold Db.negotiation at hn ⊢
  rw [d.negotiations_eq]
  apply lookup_append_of_some
  rw [lookup_map _ d.negotiation_id, hn]
  rfl

/-- Without new proposals a negotiation keeps its chain. -/
theorem proposalsOf {i : Id} (h : ∀ p ∈ d.newProposals, p.negotiationId ≠ i) :
    db'.proposalsOf i = db.proposalsOf i := by
  have hnone : d.newProposals.filter (fun p => p.negotiationId = i) = [] := by
    rw [List.filter_eq_nil_iff]
    intro p hp hpi
    exact h p hp (by simpa using hpi)
  unfold Db.proposalsOf
  rw [d.proposals_eq, List.filter_append, hnone, List.append_nil]

/-- Without new negotiations a request keeps its threads. -/
theorem thread_isSome {r s : Id} (h : ∀ n ∈ d.newNegotiations, n.requestId ≠ r) :
    (db'.thread r s).isSome = (db.thread r s).isSome := by
  unfold Db.thread
  have hnone : d.newNegotiations.find?
      (fun n => decide (n.requestId = r ∧ n.supplierId = s)) = none := by
    rw [List.find?_eq_none]
    intro n hn hrs
    have hrs' : n.requestId = r ∧ n.supplierId = s := by simpa using hrs
    exact h n hn hrs'.1
  have hpred : (fun n : Negotiation => decide (n.requestId = r ∧ n.supplierId = s))
      ∘ d.onNegotiation = fun n => decide (n.requestId = r ∧ n.supplierId = s) := by
    funext n
    have hsup : (d.onNegotiation n).supplierId = n.supplierId :=
      congrArg Thread.supplierId (d.threads n)
    simp only [Function.comp, d.negotiation_requestId, hsup]
  rw [d.negotiations_eq, List.find?_append, hnone, Option.or_none, List.find?_map, hpred,
    Option.isSome_map]

/-- **An operation that leaves the owned rows alone** is within the rely. -/
theorem rely (hrequest : ∀ r ∈ db.requests, own (.request r.id) → d.onRequest r = r)
    (hnegotiation : ∀ n ∈ db.negotiations, own (.negotiation n.id) → d.onNegotiation n = n)
    (hkept : ∀ n ∈ db.negotiations, own (.request n.requestId) → Kept n (d.onNegotiation n))
    (hnew : ∀ n ∈ d.newNegotiations, ¬ own (.request n.requestId))
    (hproposal : ∀ p ∈ d.newProposals, own (.negotiation p.negotiationId) →
      db.negotiation p.negotiationId = none) : Rely own db db' where
  users := d.users_eq
  owner := fun i r hr => ⟨_, d.request hr, congrArg Ownership.clientId (d.ownership r)⟩
  request := by
    intro i r ho hr
    rw [d.request hr, hrequest r (lookup_mem hr) (by rw [lookup_key hr]; exact ho)]
  negotiation := by
    intro i n ho hn
    refine ⟨?_, d.proposalsOf ?_⟩
    · rw [d.negotiation hn, hnegotiation n (lookup_mem hn) (by rw [lookup_key hn]; exact ho)]
    · -- a new proposal on an owned negotiation would be on a new one
      intro p hp hpi
      have hno := hproposal p hp (by rw [hpi]; exact ho)
      rw [hpi, hn] at hno
      exact absurd hno (by simp)
  thread := fun r s ho => d.thread_isSome fun n hn he => hnew n hn (by rw [he]; exact ho)
  -- every row is rewritten in its place, new ones are on requests not owned
  stays := by
    intro n hn
    refine ⟨d.onNegotiation n, ?_, d.negotiation_id n, d.negotiation_requestId n, hkept n hn⟩
    rw [d.negotiations_eq]
    exact List.mem_append_left _ (List.mem_map_of_mem hn)
  comes := by
    intro n' hn' ho
    rw [d.negotiations_eq] at hn'
    rcases List.mem_append.mp hn' with hn' | hn'
    · obtain ⟨n, hn, rfl⟩ := List.mem_map.mp hn'
      rw [d.negotiation_requestId] at ho
      exact ⟨n, hn, (d.negotiation_id n).symm, (d.negotiation_requestId n).symm, hkept n hn ho⟩
    · exact absurd ho (hnew n' hn')
  key := by
    intro k _ hk
    unfold Db.idempotencyKey at hk ⊢
    rw [d.keys_eq]
    exact hk

end Delta

/-- The row of a key is nobody else's key. -/
theorem Rely.withKeys {own : Row → Prop} {db db' : Db} (h : Rely own db db')
    {ks : List IdempotencyKey} (hks : ∀ r ∈ ks, ¬ own (.key r.key)) :
    Rely own db { db' with idempotencyKeys := db'.idempotencyKeys ++ ks } where
  users := h.users
  owner := h.owner
  request := h.request
  negotiation := h.negotiation
  thread := h.thread
  stays := h.stays
  comes := h.comes
  key := by
    intro k ho hk
    have hk' := h.key k ho hk
    unfold Db.idempotencyKey at hk' ⊢
    rw [lookup_append_of_none _ hk', lookup_eq_none]
    intro r hr he
    exact hks r hr (by rw [he]; exact ho)

end Procurement
