/-
  Procurement.Runs.Requests
  ─────────────────────────
  **THE LIFE OF A REQUEST.**

  A request is open or closed; it is closed exactly when one of its
  negotiations has been accepted, and then all the others are rejected.  An
  acceptance that goes through finds its request open.
-/
import Procurement.Runs.Consistency

namespace Procurement

open Procurement.Framework

/-! ## §1. Winners. -/

/-- The accepted negotiations of a request. -/
def Db.winners (db : Db) (requestId : Id) : List Negotiation :=
  (db.negotiationsOf requestId).filter fun n => n.status = .accepted

theorem mem_winners {db : Db} {i : Id} {n : Negotiation} :
    n ∈ db.winners i ↔ n ∈ db.negotiationsOf i ∧ n.status = .accepted := by
  simp [Db.winners]

/-- A list without repetitions whose members are all equal to one of them has
one member. -/
theorem length_eq_one {α : Type} {l : List α} {a : α} (hn : l.Nodup) (ha : a ∈ l)
    (hall : ∀ b ∈ l, b = a) : l.length = 1 := by
  have hperm : l.Perm [a] := by
    rw [List.perm_ext_iff_of_nodup hn (List.nodup_singleton a)]
    intro b
    rw [List.mem_singleton]
    exact ⟨hall b, fun hb => hb ▸ ha⟩
  exact hperm.length_eq

namespace Consistent

variable {db : Db}

theorem nodup_negotiationsOf (h : Consistent db) (i : Id) : (db.negotiationsOf i).Nodup :=
  (List.Nodup.of_map _ h.negotiationIds).filter _

/-- A closed request has one winner, an open one has none. -/
theorem winners (h : Consistent db) {r : ProductRequest} (hr : r ∈ db.requests) :
    (r.status = .opened ∧ db.winners r.id = [])
      ∨ (r.status = .closed ∧ (db.winners r.id).length = 1
        ∧ ∀ n ∈ db.negotiationsOf r.id, n.status ≠ .accepted → n.status = .rejected) := by
  rcases h.settled.requests r hr with ⟨ho, hnone⟩ | ⟨hc, w, hw, hwa, hall⟩
  · left
    refine ⟨ho, List.eq_nil_iff_forall_not_mem.mpr ?_⟩
    intro n hn
    obtain ⟨hn, hacc⟩ := mem_winners.mp hn
    exact hnone n hn hacc
  · right
    refine ⟨hc, ?_, ?_⟩
    · have hnodup : (db.winners r.id).Nodup := (h.nodup_negotiationsOf r.id).filter _
      refine length_eq_one hnodup (mem_winners.mpr ⟨hw, hwa⟩) ?_
      intro n hn
      obtain ⟨hn, hacc⟩ := mem_winners.mp hn
      by_contra hne
      -- a second winner would have another id, and those are rejected
      have hid : n.id ≠ w.id := fun hid =>
        hne (h.negotiation_eq (mem_negotiationsOf.mp hn).1 (mem_negotiationsOf.mp hw).1 hid)
      rw [hall n hn hid] at hacc
      exact absurd hacc (by simp)
    · intro n hn hne
      refine hall n hn ?_
      intro hid
      obtain rfl : n = w :=
        h.negotiation_eq (mem_negotiationsOf.mp hn).1 (mem_negotiationsOf.mp hw).1 hid
      exact hne hwa

/-- No two negotiations of a request have the same supplier. -/
theorem suppliers_nodup (h : Consistent db) (i : Id) :
    ((db.negotiationsOf i).map Negotiation.supplierId).Nodup := by
  refine List.Nodup.map_on ?_ (h.nodup_negotiationsOf i)
  intro n hn m hm hsup
  obtain ⟨hn, hni⟩ := mem_negotiationsOf.mp hn
  obtain ⟨hm, hmi⟩ := mem_negotiationsOf.mp hm
  exact h.negotiation_eq hn hm (h.outline.single n.thread (List.mem_map_of_mem hn) m.thread
    (List.mem_map_of_mem hm) (hni.trans hmi.symm) hsup)

end Consistent

/-! ## §2. The life of a request. -/

/-- What an acceptance does to the requests: it closes its own, which was
open. -/
theorem accept_closes {db : Db} (h : Consistent db) {req : HttpRequest} {n : Id}
    (hop : req.op = .accept n) {user : User} {env : Env} {o : Produced}
    (hx : Executes req user env o db) :
    ∃ neg r, db.negotiation n = some neg ∧ r ∈ db.requests ∧ r.id = neg.requestId
      ∧ r.status = .opened
      ∧ (engine.view (committedWrites req user o) db).requests
          = update ProductRequest.id db.requests r.id fun r => { r with status := .closed } := by
  have hp := hx.produces
  rw [hop] at hp
  cases hp with
  | @accept neg client ps last r hread hm hrow =>
      have hr : r ∈ db.requests := lookup_mem hrow
      have hid : r.id = neg.requestId := lookup_key hrow
      have hneg : neg ∈ db.negotiations := lookup_mem hread.row
      refine ⟨neg, r, hread.row, hr, hid, (h.open_of_active hneg hm.active hr hid).1, ?_⟩
      rw [view_committed]
      show (engine.view (acceptWrites env user neg last r _) db).requests = _
      rw [view_accept _ _ _ _ _ _ _ winner_not_sibling]

/-- **The life of a request.**  In every reachable state a request is open
without a winner, or closed with exactly one winner and every other negotiation
rejected; no supplier negotiates twice on it; and an acceptance, whatever
becomes of it, changes nothing or turns its request from open to closed. -/
theorem request_lifecycle {db : Db} (h : Reachable db) :
    (∀ r ∈ db.requests,
      (r.status = .opened ∨ r.status = .closed)
      ∧ (r.status = .closed ↔ (db.winners r.id).length = 1)
      ∧ (r.status = .opened ↔ ∀ n ∈ db.negotiationsOf r.id, n.status ≠ .accepted)
      ∧ (r.status = .closed →
          ∀ n ∈ db.negotiationsOf r.id, n.status ≠ .accepted → n.status = .rejected)
      ∧ ((db.negotiationsOf r.id).map Negotiation.supplierId).Nodup)
    ∧ ∀ (req : HttpRequest) (n : Id) (env : Env) (f : Nat → Bool), req.op = .accept n →
        ((Call.post req).run env f db).2 = db
          ∨ ∃ neg r, db.negotiation n = some neg ∧ r ∈ db.requests ∧ r.id = neg.requestId
            ∧ r.status = .opened
            ∧ ((Call.post req).run env f db).2.requests
              = update ProductRequest.id db.requests r.id fun r => { r with status := .closed } := by
  have hc := h.consistent
  constructor
  · intro r hr
    have hempty : db.winners r.id = [] ↔ ∀ n ∈ db.negotiationsOf r.id, n.status ≠ .accepted := by
      unfold Db.winners
      rw [List.filter_eq_nil_iff]
      simp
    rcases hc.winners hr with ⟨ho, hnil⟩ | ⟨hcl, hone, hrej⟩
    · refine ⟨Or.inl ho, ?_, ?_, ?_, hc.suppliers_nodup r.id⟩
      · rw [ho, hnil]
        simp
      · exact ⟨fun _ => hempty.mp hnil, fun _ => ho⟩
      · intro hcl
        rw [ho] at hcl
        exact absurd hcl (by simp)
    · refine ⟨Or.inr hcl, ⟨fun _ => hone, fun _ => hcl⟩, ?_, fun _ => hrej, hc.suppliers_nodup r.id⟩
      constructor
      · intro ho
        rw [hcl] at ho
        exact absurd ho (by simp)
      · intro hall
        rw [hempty.mpr hall] at hone
        exact absurd hone (by simp)
  · intro req n env f hop
    -- only an executed acceptance writes anything
    show (engine.request (handle req) env f db).2 = db ∨ _
    show (engine.request (handle req) env f db).2 = db ∨ ∃ neg r, _ ∧ _ ∧ _ ∧ _
      ∧ (engine.request (handle req) env f db).2.requests = _
    rcases handle_cases req env f db with ⟨e, hrun⟩ | ⟨user, record, _, hrun⟩ | ⟨user, o, hx, hrun⟩
    · exact Or.inl (congrArg Prod.snd hrun)
    · exact Or.inl (congrArg Prod.snd hrun)
    · rw [hrun]
      exact Or.inr (accept_closes hc hop hx)

/-! ## §3. A market. -/

def registration (email : String) (role : Role) : Call :=
  .register
    { email, password := "password", fullName := "name", role
      password_min := by decide
      password_max := by decide
      fullName_min := by decide
      fullName_max := by decide }

def chairs : ProductRequestIn where
  productName := "chairs"
  productName_min := by decide
  productName_max := by decide
  description_max := by decide
  quantity_min := by decide

theorem none_short : ∀ m ∈ (none : Option String), m.length ≤ 500 := by simp

def bid (amount : Amount) (hpos : 0 < amount) (hdigits : amount < 10 ^ 14) : OfferIn where
  amount := amount
  amount_pos := hpos
  amount_digits := hdigits
  currency_length := by decide
  message_max := none_short

/-- A call without a key. -/
def plain (caller : Id) (op : Op) : HttpRequest := { caller, key := none, path := "", op }

/-- Client 1 asks for chairs, the suppliers 2 and 3 bid 100 and 90. -/
def market : Db :=
  let db := Db.empty.after (registration "client" .client)
  let db := db.after (registration "first" .supplier)
  let db := db.after (registration "second" .supplier)
  let db := db.after (.post (plain 1 (.createRequest chairs)))
  let db := db.after (.post (plain 2 (.makeOffer 1 (bid 100 (by decide) (by decide)))))
  db.after (.post (plain 3 (.makeOffer 1 (bid 90 (by decide) (by decide)))))

theorem market_reachable : Reachable market := by
  unfold market
  refine Reachable.after (Reachable.after (Reachable.after ?_ _) _) _
  refine Reachable.after (Reachable.after (Reachable.after ?_ _) _) _
  exact Relation.ReflTransGen.refl

/-- Two active negotiations, 1 and 2, on the open request 1. -/
example : market.negotiations.map (fun n => (n.id, n.requestId, n.supplierId, n.status))
    = [(1, 1, 2, .active), (2, 1, 3, .active)] := by decide +kernel

/-- The client accepts the first bid. -/
theorem request_lifecycle_market :
    ((market.after (.post (plain 1 (.accept 1)))).winners 1).length = 1 := by
  have hclosed : ∀ db, Reachable db → (∃ r ∈ db.requests, r.id = 1 ∧ r.status = .closed) →
      (db.winners 1).length = 1 := by
    rintro db hdb ⟨r, hr, hid, hclosed⟩
    rw [← hid]
    exact ((request_lifecycle hdb).1 r hr).2.1.mp hclosed
  exact hclosed _ (market_reachable.after _) (by decide +kernel)

end Procurement
