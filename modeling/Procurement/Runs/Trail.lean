/-
  Procurement.Runs.Trail
  ──────────────────────
  **THE TRAIL OF CLOSED NEGOTIATIONS.**

  An entry closes a negotiation when it records its acceptance, its rejection
  or its supersession.  `Traced`: a negotiation that is not active has exactly
  one closing entry, of the action that matches its status; an active one has
  none.

  An acceptance writes one entry for each sibling it was shown.  It keeps the
  trail when those siblings are still active at its commit
  (`Traced.accept`), which in a serial run they are.
-/
import Procurement.Runs.Consistency

namespace Procurement

open Procurement.Framework

/-! ## §1. Closing entries. -/

def AuditAction.closes : AuditAction → Bool
  | .negotiationAccepted | .negotiationRejected | .negotiationSuperseded => true
  | _ => false

/-- The entry closes negotiation `n`. -/
def AuditLog.Closes (e : AuditLog) (n : Id) : Prop :=
  e.action.closes = true ∧ e.entityType = .negotiation ∧ e.entityId = some n

instance (e : AuditLog) (n : Id) : Decidable (e.Closes n) := by
  unfold AuditLog.Closes
  infer_instance

def closingsIn (log : List AuditLog) (n : Id) : List AuditLog := log.filter fun e => e.Closes n

def Db.closings (db : Db) (n : Id) : List AuditLog := closingsIn db.auditLog n

/-- The closing entries that a status asks for. -/
def ClosedOnce : NegotiationStatus → List AuditLog → Prop
  | .active, es => es = []
  | .accepted, es => ∃ e, es = [e] ∧ e.action = .negotiationAccepted
  | .rejected, es =>
      ∃ e, es = [e] ∧ (e.action = .negotiationRejected ∨ e.action = .negotiationSuperseded)

structure Traced (db : Db) : Prop where
  closings : ∀ n ∈ db.negotiations, ClosedOnce n.status (db.closings n.id)
  known : ∀ i, i ∉ db.negotiations.map Negotiation.id → db.closings i = []

theorem Traced.empty : Traced Db.empty where
  closings := fun n hn => absurd hn (by simp [Db.empty])
  known := fun _ _ => rfl

theorem closingsIn_append (l m : List AuditLog) (n : Id) :
    closingsIn (l ++ m) n = closingsIn l n ++ closingsIn m n := List.filter_append ..

theorem closingsIn_singleton (e : AuditLog) (n : Id) :
    closingsIn [e] n = if e.Closes n then [e] else [] := by
  unfold closingsIn
  by_cases h : e.Closes n <;> simp [h]

/-- An entry that closes nothing. -/
theorem closingsIn_open {e : AuditLog} (h : e.action.closes = false) (n : Id) :
    closingsIn [e] n = [] := by
  rw [closingsIn_singleton, if_neg]
  intro hc
  rw [hc.1] at h
  exact absurd h (by simp)

/-- An entry that closes negotiation `m`. -/
theorem closingsIn_about {e : AuditLog} {m : Id} (h : e.Closes m) (n : Id) :
    closingsIn [e] n = if m = n then [e] else [] := by
  rw [closingsIn_singleton]
  by_cases hn : m = n
  · rw [if_pos hn, if_pos]
    rw [← hn]
    exact h
  · rw [if_neg hn, if_neg]
    exact fun hc => hn (Option.some.inj (h.2.2.symm.trans hc.2.2))

/-- The superseding loop adds one entry for each of its siblings. -/
theorem closingsIn_supersede (w : Id) (siblings : List Negotiation) :
    ∀ (env : Env) (n : Id), (siblings.map Negotiation.id).Nodup →
      (n ∉ siblings.map Negotiation.id → closingsIn (supersedeEntries w env siblings) n = [])
      ∧ (n ∈ siblings.map Negotiation.id →
        ∃ e, closingsIn (supersedeEntries w env siblings) n = [e]
          ∧ e.action = .negotiationSuperseded) := by
  induction siblings with
  | nil =>
      intro env n _
      exact ⟨fun _ => rfl, fun h => absurd h (by simp)⟩
  | cons sib siblings ih =>
      intro env n hnodup
      rw [List.map_cons, List.nodup_cons] at hnodup
      obtain ⟨hnone, hone⟩ := ih (env.pop .auditLog) n hnodup.2
      have hsplit : closingsIn (supersedeEntries w env (sib :: siblings)) n
          = (if sib.id = n then [env.entry .negotiationSuperseded .negotiation (some sib.id) none
              (.winner w)] else [])
            ++ closingsIn (supersedeEntries w (env.pop .auditLog) siblings) n := by
        show closingsIn ([_] ++ _) n = _
        rw [closingsIn_append, closingsIn_about ⟨rfl, rfl, rfl⟩]
      rw [hsplit, List.map_cons]
      constructor
      · intro hn
        rw [List.mem_cons, not_or] at hn
        rw [if_neg fun he => hn.1 he.symm, hnone hn.2]
        rfl
      · intro hn
        by_cases he : sib.id = n
        · -- the entry of this round, and none later
          rw [if_pos he, hnone (he ▸ hnodup.1)]
          exact ⟨_, rfl, rfl⟩
        · rw [List.mem_cons] at hn
          rcases hn with hn | hn
          · exact absurd hn.symm he
          · rw [if_neg he]
            exact hone hn

/-! ## §2. Every operation keeps the trail. -/

namespace Traced

variable {db : Db} {env : Env} {user : User}

/-- A commit whose only entry closes nothing. -/
theorem grow (h : Traced db) {db' : Db} {e : AuditLog} (he : e.action.closes = false)
    (hlog : db'.auditLog = db.auditLog ++ [e]) (hsame : db'.negotiations = db.negotiations) :
    Traced db' := by
  have hclosings : ∀ i, db'.closings i = db.closings i := by
    intro i
    unfold Db.closings
    rw [hlog, closingsIn_append, closingsIn_open he, List.append_nil]
  refine ⟨?_, ?_⟩
  · intro n hn
    rw [hsame] at hn
    rw [hclosings]
    exact h.closings n hn
  · intro i hi
    rw [hsame] at hi
    rw [hclosings]
    exact h.known i hi

theorem makeOffer (h : Traced db) {requestId : Id} {data : OfferIn}
    (hfresh : (env.stamp .negotiations).id ∉ db.ids .negotiations) :
    Traced (engine.view (offerWrites env user requestId data) db) := by
  have hclosings : ∀ i, (engine.view (offerWrites env user requestId data) db).closings i
      = db.closings i := by
    intro i
    show closingsIn (db.auditLog ++ [_]) i = _
    rw [closingsIn_append, closingsIn_open rfl, List.append_nil]
    rfl
  refine ⟨?_, ?_⟩
  · intro n hn
    rw [hclosings]
    rcases List.mem_append.mp hn with hn | hn
    · exact h.closings n hn
    -- the new negotiation is active, and no entry has named its id before
    · obtain rfl : n = env.offered user requestId := by simpa using hn
      exact h.known _ hfresh
  · intro i hi
    rw [hclosings]
    refine h.known i ?_
    intro hmem
    refine hi ?_
    show i ∈ (db.negotiations ++ [_]).map Negotiation.id
    rw [List.map_append]
    exact List.mem_append_left _ hmem

theorem reject (h : Traced db) {neg : Negotiation} (hneg : neg ∈ db.negotiations)
    (hids : (db.negotiations.map Negotiation.id).Nodup) (ha : neg.status = .active) :
    Traced (engine.view (rejectWrites env user neg) db) := by
  have hclosings : ∀ i, (engine.view (rejectWrites env user neg) db).closings i
      = db.closings i ++ if neg.id = i then [env.entry .negotiationRejected .negotiation
          (some neg.id) (some user.id) .empty] else [] := by
    intro i
    show closingsIn (db.auditLog ++ [_]) i = _
    rw [closingsIn_append, closingsIn_about ⟨rfl, rfl, rfl⟩]
    rfl
  refine ⟨?_, ?_⟩
  · intro n hn
    obtain ⟨m, hm, rfl⟩ := List.mem_map.mp hn
    have hid : (if m.id = neg.id then Decision.rejected.on m else m).id = m.id := by
      split <;> rfl
    rw [hclosings, hid]
    have hstands := h.closings m hm
    by_cases hmn : m.id = neg.id
    -- it was active, so the entry of this rejection is its first
    · obtain rfl : m = neg := List.inj_on_of_nodup_map hids hm hneg hmn
      rw [ha] at hstands
      rw [if_pos rfl, if_pos rfl, show db.closings m.id = [] from hstands]
      exact ⟨_, rfl, Or.inl rfl⟩
    · rw [if_neg hmn, if_neg fun he => hmn he.symm, List.append_nil]
      exact hstands
  · intro i hi
    have hkeys : (engine.view (rejectWrites env user neg) db).negotiations.map Negotiation.id
        = db.negotiations.map Negotiation.id := by
      exact map_key_update _ fun _ => rfl
    rw [hkeys] at hi
    have hne : neg.id ≠ i := by
      rintro rfl
      exact hi (List.mem_map_of_mem hneg)
    rw [hclosings, if_neg hne, List.append_nil]
    exact h.known i hi

/-- **An acceptance whose siblings are still active** keeps the trail. -/
theorem accept (h : Traced db) {neg : Negotiation} {last : Proposal} {req : ProductRequest}
    {siblings : List Negotiation} (hneg : neg ∈ db.negotiations)
    (hids : (db.negotiations.map Negotiation.id).Nodup) (ha : neg.status = .active)
    (hnodup : (siblings.map Negotiation.id).Nodup)
    (hw : neg.id ∉ siblings.map Negotiation.id)
    (hactive : ∀ i ∈ siblings.map Negotiation.id,
      ∃ n ∈ db.negotiations, n.id = i ∧ n.status = .active) :
    Traced (engine.view (acceptWrites env user neg last req siblings) db) := by
  rw [view_accept _ _ _ _ _ _ _ hw]
  have hsup := closingsIn_supersede neg.id siblings env
  have hacc : ∀ i, closingsIn [(env.afterSupersede siblings).entry .negotiationAccepted
      .negotiation (some neg.id) (some user.id) (.agreed last.amount)] i
        = if neg.id = i then [(env.afterSupersede siblings).entry .negotiationAccepted
            .negotiation (some neg.id) (some user.id) (.agreed last.amount)] else [] :=
    closingsIn_about ⟨rfl, rfl, rfl⟩
  refine ⟨?_, ?_⟩
  · intro n hn
    obtain ⟨m, hm, rfl⟩ := List.mem_map.mp hn
    have hstands := h.closings m hm
    show ClosedOnce _ (closingsIn (db.auditLog ++ _ ++ [_]) _)
    rw [decided_id, closingsIn_append, closingsIn_append, hacc]
    unfold decided
    by_cases hmn : m.id = neg.id
    · -- the winner
      obtain rfl : m = neg := List.inj_on_of_nodup_map hids hm hneg hmn
      rw [ha] at hstands
      rw [if_pos rfl, if_pos rfl, (hsup m.id hnodup).1 hw,
        show closingsIn db.auditLog m.id = [] from hstands]
      exact ⟨_, rfl, rfl⟩
    · have hne : ¬ neg.id = m.id := fun he => hmn he.symm
      rw [if_neg hmn, if_neg hne, List.append_nil]
      by_cases hl : m.id ∈ siblings.map Negotiation.id
      · -- a loser
        obtain ⟨n, hn', hni, hna⟩ := hactive _ hl
        obtain rfl : n = m := List.inj_on_of_nodup_map hids hn' hm hni
        rw [hna] at hstands
        obtain ⟨e, he, hact⟩ := (hsup n.id hnodup).2 hl
        rw [if_pos hl, he, show closingsIn db.auditLog n.id = [] from hstands]
        exact ⟨e, rfl, Or.inr hact⟩
      · rw [if_neg hl, (hsup m.id hnodup).1 hl, List.append_nil]
        exact hstands
  · intro i hi
    have hkeys : (db.negotiations.map (decided neg.id last.amount
        (siblings.map Negotiation.id))).map Negotiation.id = db.negotiations.map Negotiation.id :=
      map_key_map _ (decided_id _ _ _)
    have hi' : i ∉ db.negotiations.map Negotiation.id := hkeys ▸ hi
    have hne : neg.id ≠ i := by
      rintro rfl
      exact hi' (List.mem_map_of_mem hneg)
    have hnl : i ∉ siblings.map Negotiation.id := by
      intro hl
      obtain ⟨n, hn, hni, _⟩ := hactive i hl
      exact hi' (List.mem_map.mpr ⟨n, hn, hni⟩)
    show closingsIn (db.auditLog ++ _ ++ [_]) i = []
    rw [closingsIn_append, closingsIn_append, hacc, if_neg hne, (hsup i hnodup).1 hnl]
    rw [show closingsIn db.auditLog i = [] from h.known i hi']
    rfl

end Traced

theorem nodup_sibling_ids {db : Db} (h : Consistent db) (env : Env) (rid w : Id) :
    ((env.order (db.activeSiblings rid w)).map Negotiation.id).Nodup := by
  have hperm := (env.order_perm (db.activeSiblings rid w)).map Negotiation.id
  rw [hperm.nodup_iff]
  exact List.Nodup.sublist (List.Sublist.map _ (List.filter_sublist)) h.negotiationIds

/-- Every operation that goes through keeps the trail. -/
theorem Traced.produces {db : Db} {env : Env} {user : User} {op : Op} {o : Produced}
    (h : Traced db) (hc : Consistent db) (hp : Produces db user env op o)
    (hfresh : (env.stamp .negotiations).id ∉ db.ids .negotiations) :
    Traced (engine.view o.writes db) := by
  cases hp with
  | createRequest data => exact h.grow rfl rfl rfl
  | makeOffer data hread ho => exact h.makeOffer hfresh
  | reject hread hm => exact h.reject (lookup_mem hread.row) hc.negotiationIds hm.active
  | counter data hread hm => exact h.grow rfl rfl rfl
  | accept hread hm hrow =>
      refine h.accept (lookup_mem hread.row) hc.negotiationIds hm.active
        (nodup_sibling_ids hc env _ _) winner_not_sibling ?_
      intro i hi
      obtain ⟨n, hn, hni⟩ := List.mem_map.mp hi
      have hn' := mem_activeSiblings.mp ((env.order_perm _).mem_iff.mp hn)
      exact ⟨n, hn'.1, hni, hn'.2.2.1⟩

/-- **In every reachable state each negotiation has its closing entry, once.** -/
theorem Reachable.traced {db : Db} (h : Reachable db) : Traced db := by
  refine h.invariant Traced.empty ?_
  intro db db' hr ht hs
  cases hs.cases with
  | nothing => exact ht
  | registered env data hf hfree => exact ht.grow rfl rfl rfl
  | executed hf hx =>
      rw [view_committed]
      have hp := ht.produces hr.consistent hx.produces (hf.unused .negotiations 0)
      exact ⟨hp.closings, hp.known⟩

end Procurement
