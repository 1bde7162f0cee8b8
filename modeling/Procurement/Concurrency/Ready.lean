/-
  Procurement.Concurrency.Ready
  ─────────────────────────────
  **AN OPERATION THAT HOLDS ITS LOCKS.**

  `Ready own db user env op o`: the operation has passed its guards, owns the
  rows they were about, and has staged the writes of `o`.  Three facts about it:

    • `Ready.rely`   — it stays ready whatever others commit;
    • `Ready.relied` — its own commit is within the rely of the others;
    • `Ready.serial` — started on the state it commits to, the operation goes
      through, answers the same and leaves the same rows.

  An acceptance has selected siblings that may have been rejected since.  To
  reject them once more is no news for the tables; for the audit trail it is.
-/
import Procurement.Concurrency.Rely

namespace Procurement

open Procurement.Framework

/-! ## §1. Siblings, selected a while ago. -/

/-- What a list of siblings selected under the lock of the request is still
worth: it names rows of the request that are active or rejected, and all active
ones but the winner. -/
structure Siblings (neg : Negotiation) (req : ProductRequest) (l : List Negotiation) (db : Db) :
    Prop where
  nodup : (l.map Negotiation.id).Nodup
  winner : neg.id ∉ l.map Negotiation.id
  rows : ∀ i ∈ l.map Negotiation.id, ∃ n ∈ db.negotiations,
    n.id = i ∧ n.requestId = req.id ∧ (n.status = .active ∨ n.status = .rejected)
  all : ∀ n ∈ db.negotiations, n.requestId = req.id → n.status = .active → n.id ≠ neg.id →
    n.id ∈ l.map Negotiation.id

/-- The list as it is selected. -/
theorem Siblings.selected {db : Db} (hc : Consistent db) (env : Env) (neg : Negotiation)
    (req : ProductRequest) :
    Siblings neg req (env.order (db.activeSiblings req.id neg.id)) db where
  nodup := nodup_sibling_ids hc env req.id neg.id
  winner := winner_not_sibling
  rows := by
    intro i hi
    obtain ⟨n, hn, hid⟩ := List.mem_map.mp hi
    have hn' := mem_activeSiblings.mp ((env.order_perm _).mem_iff.mp hn)
    exact ⟨n, hn'.1, hid, hn'.2.1, Or.inl hn'.2.2.1⟩
  all := fun n hn hreq ha hne => (hc.mem_sibling_ids hn).mpr ⟨hreq, ha, hne⟩

/-- While its request is locked, the siblings that were selected stay siblings. -/
theorem Siblings.rely {own : Row → Prop} {db db' : Db} {neg : Negotiation} {req : ProductRequest}
    {l : List Negotiation} (h : Siblings neg req l db) (hr : Rely own db db')
    (ho : own (.request req.id)) : Siblings neg req l db' where
  nodup := h.nodup
  winner := h.winner
  rows := by
    intro i hi
    obtain ⟨n, hn, hid, hreq, hstatus⟩ := h.rows i hi
    obtain ⟨n', hn', hid', hreq', hkept⟩ := hr.stays n hn
    refine ⟨n', hn', hid'.trans hid, hreq'.trans hreq, ?_⟩
    rcases hkept (by rw [hreq]; exact ho) with rfl | ⟨_, hrej⟩
    · exact hstatus
    · exact Or.inr hrej
  all := by
    intro n' hn' hreq ha hne
    obtain ⟨n, hn, hid, hreq', hkept⟩ := hr.comes n' hn' (by rw [hreq]; exact ho)
    rcases hkept with rfl | ⟨_, hrej⟩
    · exact h.all n' hn hreq ha hne
    · -- an active row has not been rejected
      rw [ha] at hrej
      exact absurd hrej (by simp)

/-! ## §2. Ready operations. -/

/-- While its row is locked, what was read of a negotiation stays. -/
theorem Reading.rely {own : Row → Prop} {db db' : Db} {neg : Negotiation} {client : Id}
    {ps : List Proposal} (h : Reading neg client ps db) (hr : Rely own db db')
    (ho : own (.negotiation neg.id)) : Reading neg client ps db' where
  row := (hr.negotiation _ _ ho h.row).1
  owner := by
    obtain ⟨req, hreq, hclient⟩ := h.owner
    obtain ⟨req', hreq', hclient'⟩ := hr.owner _ _ hreq
    exact ⟨req', hreq', hclient'.trans hclient⟩
  proposals := (hr.negotiation _ _ ho h.row).2.trans h.proposals

/-- While the request is locked, what an offer has read stays. -/
theorem OfferReading.rely {own : Row → Prop} {db db' : Db} {req : ProductRequest} {s : Id}
    {taken : Bool} (h : OfferReading req s taken db) (hr : Rely own db db')
    (ho : own (.request req.id)) : OfferReading req s taken db' where
  row := hr.request _ _ ho h.row
  thread := (hr.thread _ _ ho).trans h.thread

inductive Ready (own : Row → Prop) (db : Db) (user : User) (env : Env) : Op → Produced → Prop where
  | createRequest (data : ProductRequestIn) :
      Ready own db user env (.createRequest data) (createProduced user env data)
  | makeOffer {req : ProductRequest} (data : OfferIn) (hreq : own (.request req.id))
      (h : OfferReading req user.id false db) (ho : req.status = .opened) :
      Ready own db user env (.makeOffer req.id data) (offerProduced user env req.id data [])
  | accept {neg : Negotiation} {client : Id} {ps : List Proposal} {last : Proposal}
      {req : ProductRequest} {l : List Negotiation} (hneg : own (.negotiation neg.id))
      (hreq : own (.request req.id)) (h : Reading neg client ps db)
      (hm : MayRespond user neg client ps last) (hrow : db.request neg.requestId = some req)
      (hl : Siblings neg req l db) :
      Ready own db user env (.accept neg.id) (acceptProduced user env neg ps last req l)
  | reject {neg : Negotiation} {client : Id} {ps : List Proposal} {last : Proposal}
      (hneg : own (.negotiation neg.id)) (h : Reading neg client ps db)
      (hm : MayRespond user neg client ps last) :
      Ready own db user env (.reject neg.id) (rejectProduced user env neg ps)
  | counter {neg : Negotiation} {client : Id} {ps : List Proposal} {last : Proposal}
      (data : CounterIn) (hneg : own (.negotiation neg.id)) (h : Reading neg client ps db)
      (hm : MayRespond user neg client ps last)
      (hlater : ∀ q ∈ ps, q.id < (env.stamp .proposals).id) :
      Ready own db user env (.counter neg.id data) (counterProduced user env neg ps last data)

/-- The superseding loop rejects each of its siblings. -/
theorem mem_supersedeWrites {w : Id} {n : Negotiation} {l : List Negotiation} {env : Env}
    (h : n ∈ l) : .decide n.id .rejected ∈ supersedeWrites w env l := by
  induction l generalizing env with
  | nil => exact absurd h List.not_mem_nil
  | cons m l ih =>
      rcases List.mem_cons.mp h with rfl | h
      · exact List.mem_cons_self ..
      · exact List.mem_cons_of_mem _ (List.mem_cons_of_mem _ (ih h))

/-- So does the acceptance around it. -/
theorem loser_mem_acceptWrites {user : User} {env : Env} {neg : Negotiation} {last : Proposal}
    {req : ProductRequest} {l : List Negotiation} {n : Negotiation} (h : n ∈ l) :
    .decide n.id .rejected ∈ acceptWrites env user neg last req l := by
  unfold acceptWrites supersedingWrites
  have hloop : .decide n.id .rejected ∈ supersedeWrites neg.id env l := mem_supersedeWrites h
  exact List.mem_cons_of_mem _ (List.mem_cons_of_mem _ (List.mem_append_left _ hloop))

namespace Ready

variable {own own' : Row → Prop} {db db' : Db} {user : User} {env : Env} {op : Op} {o : Produced}

/-- An operation that is ready with fewer locks is ready with more. -/
theorem mono (h : Ready own db user env op o) (hown : ∀ row, own row → own' row) :
    Ready own' db user env op o := by
  cases h with
  | createRequest data => exact .createRequest data
  | makeOffer data hreq h ho => exact .makeOffer data (hown _ hreq) h ho
  | accept hneg hreq h hm hrow hl => exact .accept (hown _ hneg) (hown _ hreq) h hm hrow hl
  | reject hneg h hm => exact .reject (hown _ hneg) h hm
  | counter data hneg h hm hlater => exact .counter data (hown _ hneg) h hm hlater

/-- **Whatever others commit, it stays ready.** -/
theorem rely (h : Ready own db user env op o) (hr : Rely own db db') :
    Ready own db' user env op o := by
  cases h with
  | createRequest data => exact .createRequest data
  | makeOffer data hreq h ho => exact .makeOffer data hreq (h.rely hr hreq) ho
  | @accept neg client ps last req l hneg hreq h hm hrow hl =>
      have hid : req.id = neg.requestId := lookup_key hrow
      have hrow' : db'.request neg.requestId = some req :=
        hr.request _ _ (by rw [← hid]; exact hreq) hrow
      exact .accept hneg hreq (h.rely hr hneg) hm hrow' (hl.rely hr hreq)
  | reject hneg h hm => exact .reject hneg (h.rely hr hneg) hm
  | counter data hneg h hm hlater => exact .counter data hneg (h.rely hr hneg) hm hlater

/-- An operation inserts no keys. -/
theorem insertedKeys (h : Ready own db user env op o) : insertedKeys o.writes = [] := by
  cases h with
  | accept hneg hreq h hm hrow hl => exact insertedKeys_accept env _
  | _ => rfl

end Ready

/-! ## §3. What a ready operation commits. -/

namespace Rely

variable {own : Row → Prop} {db : Db} {user : User} {env : Env}

/-- A new request is nothing that others rely on. -/
theorem createRequest (data : ProductRequestIn) :
    Rely own db (engine.view (createWrites env user data) db) := by
  let d : Delta db (engine.view (createWrites env user data) db) :=
    { onRequest := id, onNegotiation := id
      newRequests := [env.createdRequest user data], newNegotiations := [], newProposals := []
      users_eq := rfl
      requests_eq := by rw [List.map_id]; rfl
      negotiations_eq := by rw [List.map_id, List.append_nil]; rfl
      proposals_eq := (List.append_nil _).symm
      keys_eq := rfl
      ownership := fun _ => rfl
      threads := fun _ => rfl }
  apply d.rely
  · exact fun _ _ _ => rfl
  · exact fun _ _ _ => rfl
  · exact fun _ _ _ => Or.inl rfl
  · exact fun n hn => absurd hn List.not_mem_nil
  · exact fun p hp => absurd hp List.not_mem_nil

/-- An offer touches no rows of those who have not locked its request. -/
theorem makeOffer {rid : Id} (data : OfferIn) (hfree : ¬ own (.request rid))
    (hunused : (env.offered user rid).id ∉ db.ids .negotiations) :
    Rely own db (engine.view (offerWrites env user rid data) db) := by
  let d : Delta db (engine.view (offerWrites env user rid data) db) :=
    { onRequest := id, onNegotiation := id
      newRequests := [], newNegotiations := [env.offered user rid]
      newProposals := [env.opening user rid data]
      users_eq := rfl
      requests_eq := by rw [List.map_id, List.append_nil]; rfl
      negotiations_eq := by rw [List.map_id]; rfl
      proposals_eq := rfl
      keys_eq := rfl
      ownership := fun _ => rfl
      threads := fun _ => rfl }
  apply d.rely
  · exact fun _ _ _ => rfl
  · exact fun _ _ _ => rfl
  · exact fun _ _ _ => Or.inl rfl
  · intro n hn
    obtain rfl := List.mem_singleton.mp hn
    exact hfree
  · -- the opening belongs to the new negotiation
    intro p hp _
    obtain rfl := List.mem_singleton.mp hp
    exact lookup_eq_none.mpr fun n hn hid => hunused (List.mem_map.mpr ⟨n, hn, hid⟩)

/-- A rejection changes the one row that it has locked. -/
theorem reject {neg : Negotiation} (hc : Consistent db) (hneg : neg ∈ db.negotiations)
    (ha : neg.status = .active) (hfree : ¬ own (.negotiation neg.id)) :
    Rely own db (engine.view (rejectWrites env user neg) db) := by
  let d : Delta db (engine.view (rejectWrites env user neg) db) :=
    { onRequest := id
      onNegotiation := fun n => if n.id = neg.id then Decision.rejected.on n else n
      newRequests := [], newNegotiations := [], newProposals := []
      users_eq := rfl
      requests_eq := by rw [List.map_id, List.append_nil]; rfl
      negotiations_eq := (List.append_nil _).symm
      proposals_eq := (List.append_nil _).symm
      keys_eq := rfl
      ownership := fun _ => rfl
      threads := fun n => Consistent.rejected_thread n neg.id }
  apply d.rely
  · exact fun _ _ _ => rfl
  · intro n _ ho
    have hne : ¬ n.id = neg.id := fun he => hfree (by rw [← he]; exact ho)
    exact if_neg hne
  · intro n hn _
    show Kept n (if n.id = neg.id then Decision.rejected.on n else n)
    by_cases he : n.id = neg.id
    -- a sibling may be rejected beside the acceptance that has selected it
    · obtain rfl := hc.negotiation_eq hn hneg he
      rw [if_pos rfl]
      exact Or.inr ⟨ha, rfl⟩
    · rw [if_neg he]
      exact Or.inl rfl
  · exact fun n hn => absurd hn List.not_mem_nil
  · exact fun p hp => absurd hp List.not_mem_nil

/-- A counter changes a chain whose row it has locked. -/
theorem counter {neg : Negotiation} {last : Proposal} (data : CounterIn)
    (hfree : ¬ own (.negotiation neg.id)) :
    Rely own db (engine.view (counterWrites env user neg last data) db) := by
  let d : Delta db (engine.view (counterWrites env user neg last data) db) :=
    { onRequest := id, onNegotiation := id
      newRequests := [], newNegotiations := [], newProposals := [env.countered user neg last data]
      users_eq := rfl
      requests_eq := by rw [List.map_id, List.append_nil]; rfl
      negotiations_eq := by rw [List.map_id, List.append_nil]; rfl
      proposals_eq := rfl
      keys_eq := rfl
      ownership := fun _ => rfl
      threads := fun _ => rfl }
  apply d.rely
  · exact fun _ _ _ => rfl
  · exact fun _ _ _ => rfl
  · exact fun _ _ _ => Or.inl rfl
  · exact fun n hn => absurd hn List.not_mem_nil
  · intro p hp ho
    obtain rfl := List.mem_singleton.mp hp
    exact absurd ho hfree

/-- An acceptance changes its request and the negotiations on it, all of which it has locked.
-/
theorem accept {neg : Negotiation} {last : Proposal} {req : ProductRequest} {l : List Negotiation}
    (hc : Consistent db) (hneg : neg ∈ db.negotiations) (hid : req.id = neg.requestId)
    (hl : Siblings neg req l db) (hrequest : ¬ own (.request req.id))
    (hwinner : ¬ own (.negotiation neg.id))
    (hlosers : ∀ i ∈ l.map Negotiation.id, ¬ own (.negotiation i)) :
    Rely own db (engine.view (acceptWrites env user neg last req l) db) := by
  rw [view_accept _ _ _ _ _ _ _ hl.winner]
  -- no row is new: the request is closed and its negotiations are decided
  let d : Delta db
      { db with
        requests := update ProductRequest.id db.requests req.id fun r => { r with status := .closed }
        negotiations := db.negotiations.map
          (decided neg.id last.amount (l.map Negotiation.id))
        auditLog := db.auditLog ++ supersedeEntries neg.id env l
          ++ [(env.afterSupersede l).entry .negotiationAccepted .negotiation
            (some neg.id) (some user.id) (.agreed last.amount)] } :=
    { onRequest := fun q => if q.id = req.id then { q with status := .closed } else q
      onNegotiation := decided neg.id last.amount (l.map Negotiation.id)
      newRequests := [], newNegotiations := [], newProposals := []
      users_eq := rfl
      requests_eq := (List.append_nil _).symm
      negotiations_eq := (List.append_nil _).symm
      proposals_eq := (List.append_nil _).symm
      keys_eq := rfl
      ownership := by intro q; split <;> rfl
      threads := Consistent.decided_thread _ _ _ }
  apply d.rely
  · intro q _ ho
    -- a row that the other has locked is none of these
    have hne : ¬ q.id = req.id := fun he => hrequest (by rw [← he]; exact ho)
    exact if_neg hne
  · intro n _ ho
    show decided _ _ _ n = n
    have hne : ¬ n.id = neg.id := fun he => hwinner (by rw [← he]; exact ho)
    have hnl : n.id ∉ l.map Negotiation.id := fun hi => hlosers _ hi ho
    unfold decided
    rw [if_neg hne, if_neg hnl]
  · -- all rows it writes are rows of its request
    intro n hn ho
    have hother : n.requestId ≠ req.id := fun he => hrequest (by rw [← he]; exact ho)
    have hne : ¬ n.id = neg.id := by
      intro he
      obtain rfl := hc.negotiation_eq hn hneg he
      exact hother hid.symm
    have hnl : n.id ∉ l.map Negotiation.id := by
      intro hi
      obtain ⟨m, hm, hmid, hmreq, _⟩ := hl.rows _ hi
      obtain rfl := hc.negotiation_eq hm hn hmid
      exact hother hmreq
    left
    show decided _ _ _ n = n
    unfold decided
    rw [if_neg hne, if_neg hnl]
  · exact fun n hn => absurd hn List.not_mem_nil
  · exact fun p hp => absurd hp List.not_mem_nil

end Rely

namespace Ready

variable {own own' : Row → Prop} {db : Db} {user : User} {env : Env} {o : Produced}

/-- **Its commit is within the rely of the others.** -/
theorem relied {req : HttpRequest} (h : Ready own db user env req.op o) (hc : Consistent db)
    (hguard : ∀ wr ∈ committedWrites req user o, ∀ row, wr.guard = some row → own row)
    (hunused : ∀ n, .insertNegotiation n ∈ o.writes → n.id ∉ db.ids .negotiations)
    (hdisjoint : ∀ row, own row → ¬ own' row) :
    Rely own' db (engine.view (committedWrites req user o) db) := by
  rw [view_committed]
  apply Rely.withKeys
  · have hfree : ∀ wr ∈ o.writes, ∀ row, wr.guard = some row → ¬ own' row :=
      fun wr hwr row hrow => hdisjoint _ (hguard wr (List.mem_append_left _ hwr) row hrow)
    clear hguard
    generalize req.op = op at h
    cases h with
    | createRequest data => exact Rely.createRequest data
    | makeOffer data hreq h ho =>
        exact Rely.makeOffer data (hdisjoint _ hreq) (hunused _ (List.mem_cons_self ..))
    | reject hneg h hm => exact Rely.reject hc (lookup_mem h.row) hm.active (hdisjoint _ hneg)
    | counter data hneg h hm hlater => exact Rely.counter data (hdisjoint _ hneg)
    | accept hneg hreq h hm hrow hl =>
        refine Rely.accept hc (lookup_mem h.row) (lookup_key hrow) hl (hdisjoint _ hreq)
          (hdisjoint _ hneg) ?_
        intro i hi
        obtain ⟨n, hn, rfl⟩ := List.mem_map.mp hi
        exact hfree (.decide n.id .rejected) (loser_mem_acceptWrites hn) _ rfl
  · intro r hr
    obtain ⟨wr, hwr, hrow⟩ := List.mem_filterMap.mp hr
    cases wr with
    | insertKey r' =>
        obtain rfl := Option.some.inj hrow
        exact hdisjoint _ (hguard _ (List.mem_append_right _ hwr) _ rfl)
    | _ => exact absurd hrow (by simp)

end Ready

/-! ## §4. The same operation, alone. -/

/-- Everything but the audit trail: the users, the requests, the negotiations,
the proposals and the stored responses. -/
def Db.business (db : Db) : Db := { db with auditLog := [] }

/-- The business tables are written from the business tables. -/
theorem view_business (ws : List Write) (db : Db) :
    (engine.view ws db).business = (engine.view ws db.business).business := by
  induction ws generalizing db with
  | nil => rfl
  | cons w ws ih =>
      rw [Engine.view_cons, Engine.view_cons, ih, ih (engine.apply w db.business)]
      congr 2
      cases w <;> rfl

/-- The same writes lead from the same business state to the same. -/
theorem view_business_congr (ws : List Write) {a b : Db} (h : a.business = b.business) :
    (engine.view ws a).business = (engine.view ws b).business := by
  rw [view_business ws a, view_business ws b, h]

/-- Two databases of the same business differ in entries only. -/
theorem eq_of_business {a b : Db} (h : a.business = b.business) :
    b = { a with auditLog := b.auditLog } := by
  cases a
  cases b
  simp only [Db.business, Db.mk.injEq] at h
  obtain ⟨rfl, rfl, rfl, rfl, _, rfl⟩ := h
  rfl

/-- No guard reads the audit trail. -/
theorem Produces.business {a b : Db} {user : User} {env : Env} {op : Op} {o : Produced}
    (h : Produces a user env op o) (hab : a.business = b.business) : Produces b user env op o := by
  have hb := eq_of_business hab
  generalize b.auditLog = log at hb
  subst hb
  cases h with
  | createRequest data => exact .createRequest data
  | makeOffer data h ho => exact .makeOffer data ⟨h.row, h.thread⟩ ho
  | accept h hm hrow => exact .accept ⟨h.row, h.owner, h.proposals⟩ hm hrow
  | reject h hm => exact .reject ⟨h.row, h.owner, h.proposals⟩ hm
  | counter data h hm => exact .counter data ⟨h.row, h.owner, h.proposals⟩ hm

/-- What is executed depends on the business tables only. -/
theorem Executes.business {a b : Db} {req : HttpRequest} {user : User} {env : Env} {o : Produced}
    (h : Executes req user env o a) (hab : a.business = b.business) :
    Executes req user env o b := by
  have hp := h.produces.business hab
  have hb := eq_of_business hab
  generalize b.auditLog = log at hb
  subst hb
  exact ⟨h.caller, h.permits, h.unused, hp⟩

/-- So does consistency. -/
theorem Consistent.business {a b : Db} (h : Consistent a) (hab : a.business = b.business) :
    Consistent b := by
  have hb := eq_of_business hab
  generalize b.auditLog = log at hb
  subst hb
  exact ⟨h.outline, h.settled.requests, h.settled.amounts⟩

/-- An acceptance writes no new rows but audit entries. -/
theorem mem_acceptWrites {user : User} {env : Env} {neg : Negotiation} {last : Proposal}
    {req : ProductRequest} {l : List Negotiation} {wr : Write}
    (h : wr ∈ acceptWrites env user neg last req l) :
    wr.stamp = none ∨ ∃ e, wr = .insertAudit e := by
  have hloop : ∀ (env : Env) (l : List Negotiation), wr ∈ supersedeWrites neg.id env l →
      wr.stamp = none ∨ ∃ e, wr = .insertAudit e := by
    intro env l
    induction l generalizing env with
    | nil => exact fun h => absurd h List.not_mem_nil
    | cons m l ih =>
        intro h
        rcases List.mem_cons.mp h with rfl | h
        · exact Or.inl rfl
        · rcases List.mem_cons.mp h with rfl | h
          · exact Or.inr ⟨_, rfl⟩
          · exact ih _ h
  rcases List.mem_cons.mp h with rfl | h
  · exact Or.inl rfl
  · rcases List.mem_cons.mp h with rfl | h
    · exact Or.inl rfl
    · rcases List.mem_append.mp h with h | h
      · exact hloop env l h
      · exact Or.inr ⟨_, List.mem_singleton.mp h⟩

/-- They are admissible in every state. -/
theorem acceptWrites_admissible (user : User) (env : Env) (neg : Negotiation) (last : Proposal)
    (req : ProductRequest) (l : List Negotiation) (db : Db) :
    Admissible (acceptWrites env user neg last req l) db := by
  have hno : ∀ wr ∈ acceptWrites env user neg last req l, wr.stamp ≠ none →
      ∃ e, wr = .insertAudit e := by
    intro wr hwr hs
    rcases mem_acceptWrites hwr with hnone | he
    · exact absurd hnone hs
    · exact he
  refine ⟨?_, ?_, ?_⟩
  · intro r hr
    obtain ⟨e, he⟩ := hno _ hr (by simp [Write.stamp])
    exact absurd he (by simp)
  · intro n hn
    obtain ⟨e, he⟩ := hno _ hn (by simp [Write.stamp])
    exact absurd he (by simp)
  · intro p hp
    obtain ⟨e, he⟩ := hno _ hp (by simp [Write.stamp])
    exact absurd he (by simp)

/-- The rows an acceptance leaves do not depend on when it selected its
siblings: what has been rejected since is rejected anyway. -/
theorem Siblings.decided_eq {db : Db} {env : Env} {neg n : Negotiation} {req : ProductRequest}
    {l : List Negotiation} (h : Siblings neg req l db) (hc : Consistent db) {agreed : Amount}
    (hn : n ∈ db.negotiations) :
    decided neg.id agreed ((env.order (db.activeSiblings req.id neg.id)).map Negotiation.id) n
      = decided neg.id agreed (l.map Negotiation.id) n := by
  unfold decided
  by_cases hw : n.id = neg.id
  · rw [if_pos hw, if_pos hw]
  · rw [if_neg hw, if_neg hw]
    have hsibling : n.id ∈ (env.order (db.activeSiblings req.id neg.id)).map Negotiation.id
        ↔ n.requestId = req.id ∧ n.status = .active ∧ n.id ≠ neg.id := hc.mem_sibling_ids hn
    by_cases hi : n.id ∈ l.map Negotiation.id
    · rw [if_pos hi]
      obtain ⟨m, hm, hmid, hmreq, hstatus⟩ := h.rows _ hi
      obtain rfl := hc.negotiation_eq hm hn hmid
      rcases hstatus with ha | hrej
      · rw [if_pos (hsibling.mpr ⟨hmreq, ha, hw⟩)]
      · -- rejected since: it is written, but nothing changes
        have hnot : ¬ m.status = .active := by
          rw [hrej]
          simp
        rw [if_neg fun hmem => hnot (hsibling.mp hmem).2.1]
        unfold Decision.on
        rw [← hrej]
    · have hnot : n.id ∉ (env.order (db.activeSiblings req.id neg.id)).map Negotiation.id := by
        intro hmem
        obtain ⟨hr, ha, _⟩ := hsibling.mp hmem
        exact hi (h.all n hn hr ha hw)
      rw [if_neg hi, if_neg hnot]

namespace Ready

variable {own : Row → Prop} {db : Db} {user : User} {env : Env} {op : Op} {o : Produced}

/-- **On the state it commits to, the operation goes through**, with the same
response and the same rows. -/
theorem serial (h : Ready own db user env op o) (hc : Consistent db)
    (hunused : ∀ wr ∈ o.writes, ∀ t i, wr.stamp = some (t, i) → i ∉ db.ids t) :
    ∃ o', Produces db user env op o' ∧ o'.body = o.body ∧ Admissible o'.writes db
      ∧ (engine.view o'.writes db).business = (engine.view o.writes db).business := by
  have hrequests : ∀ r, .insertRequest r ∈ o.writes → r.id ∉ db.ids .requests :=
    fun r hr => hunused _ hr _ _ rfl
  have hnegotiations : ∀ n, .insertNegotiation n ∈ o.writes → n.id ∉ db.ids .negotiations :=
    fun n hn => hunused _ hn _ _ rfl
  cases h with
  | createRequest data =>
      refine ⟨_, .createRequest data, rfl, ⟨hrequests, hnegotiations, ?_⟩, rfl⟩
      intro p hp
      exact absurd hp (by simp [createProduced, createWrites])
  | @makeOffer req data hreq h ho =>
      have hnone : db.proposalsOf (env.offered user req.id).id = [] :=
        hc.proposalsOf_new (hnegotiations _ (List.mem_cons_self ..))
      have hp : Produces db user env (.makeOffer req.id data) _ := .makeOffer data h ho
      -- the id of the thread is new, so the bid opens an empty chain
      rw [hnone] at hp
      refine ⟨_, hp, rfl, ⟨hrequests, hnegotiations, ?_⟩, rfl⟩
      intro p hp q hq
      have hp' : p = env.opening user req.id data := by
        simpa [offerProduced, offerWrites] using hp
      subst hp'
      have hq' : q ∈ db.proposalsOf (env.offered user req.id).id := hq
      rw [hnone] at hq'
      exact absurd hq' List.not_mem_nil
  | reject hneg h hm =>
      refine ⟨_, .reject h hm, rfl, ⟨hrequests, hnegotiations, ?_⟩, rfl⟩
      intro p hp
      exact absurd hp (by simp [rejectProduced, rejectWrites])
  | @counter neg client ps last data hneg h hm hlater =>
      refine ⟨_, .counter data h hm, rfl, ⟨hrequests, hnegotiations, ?_⟩, rfl⟩
      intro p hp q hq
      have hp' : p = env.countered user neg last data := by
        simpa [counterProduced, counterWrites] using hp
      subst hp'
      have hq' : q ∈ db.proposalsOf neg.id := hq
      rw [h.proposals] at hq'
      -- its proposal is later than all it has read, and nobody has added one since
      exact hlater q hq'
  | @accept neg client ps last req l hneg hreq h hm hrow hl =>
      refine ⟨_, .accept h hm hrow, rfl, acceptWrites_admissible .., ?_⟩
      show (engine.view (acceptWrites env user neg last req _) db).business
        = (engine.view (acceptWrites env user neg last req l) db).business
      -- the siblings it has read against those of now: each ends in the same row
      rw [view_accept _ _ _ _ _ _ _ winner_not_sibling, view_accept _ _ _ _ _ _ _ hl.winner]
      unfold Db.business
      congr 1
      exact List.map_congr_left fun n hn => hl.decided_eq hc hn

end Ready

end Procurement
