/-
  Procurement.Security.Isolation
  ──────────────────────────────
  **PRODUCT REQUESTS ARE ISOLATED FROM EACH OTHER.**

  Pick a product request `R` and delete from a run the calls that are about
  other requests: the calls that are left get the same answers, and `R` ends up
  with the same row, the same negotiations and the same chains.

  The scope is `R` with its negotiations, and nothing in it is secret.  A call
  that is left runs on both databases (`handle_alike`); one that is deleted
  writes outside the scope (`Produces.outside`).  The scope itself is read off
  the full run, so it shrinks when a negotiation is opened elsewhere: its id
  leaves the scope (`Scope.only_shrinks`).
-/
import Procurement.Runs.History
import Procurement.Runs.Retries
import Procurement.Security.Lockstep

namespace Procurement

open Procurement.Framework

/-! ## §1. Runs without the calls about other requests. -/

/-- The id names a negotiation of another request. -/
def Db.elsewhere (db : Db) (R i : Id) : Bool :=
  db.negotiations.any fun n => n.id = i ∧ n.requestId ≠ R

/-- The operation targets another request, or a negotiation of another request.
`creations` says whether the creation of another request counts. -/
def Op.elsewhere (creations : Bool) (R : Id) (db : Db) (env : Env) : Op → Bool
  | .createRequest _ => creations && (env.stamp .requests).id ≠ R
  | .makeOffer i _ => i ≠ R
  | .accept i | .reject i | .counter i _ => db.elsewhere R i

def Posted.elsewhere (p : Posted) (creations : Bool) (R : Id) (db : Db) : Bool :=
  p.req.op.elsewhere creations R db p.env

/-- The run without the calls about other requests; `db` is the state of the
full run. -/
def without (creations : Bool) (R : Id) : Db → List Posted → List Posted
  | _, [] => []
  | db, p :: ps =>
      if p.elsewhere creations R db then without creations R (p.run db).2 ps
      else p :: without creations R (p.run db).2 ps

/-- The answers that the calls left over have in the full run. -/
def remaining (creations : Bool) (R : Id) : Db → List Posted → List (Except Error Response)
  | _, [] => []
  | db, p :: ps =>
      if p.elsewhere creations R db then remaining creations R (p.run db).2 ps
      else (p.run db).1 :: remaining creations R (p.run db).2 ps

/-- The ids handed out to each call are fresh and increasing. -/
def Numbered : Db → List Posted → Prop
  | _, [] => True
  | db, p :: ps => Fresh p.env db ∧ Numbered (p.run db).2 ps

theorem Posted.step {p : Posted} {db : Db} (h : Fresh p.env db) : Step db (p.run db).2 :=
  ⟨.post p.req, p.env, p.faults, h, rfl⟩

/-! ## §2. The scope of one request. -/

/-- Request `R` and its negotiations.  An id that no row has yet is in the scope. -/
def Scope.only (R : Id) (db : Db) : Scope where
  reader _ := true
  own _ := true
  request i := i = R
  negotiation i := !db.elsewhere R i
  secret _ := false

theorem elsewhere_eq_false {db : Db} {R i : Id} :
    db.elsewhere R i = false ↔ ∀ n ∈ db.negotiations, n.id = i → n.requestId = R := by
  unfold Db.elsewhere
  rw [List.any_eq_false]
  refine forall₂_congr fun n _ => ?_
  simp

theorem unagreed_of_consistent {db : Db} (h : Consistent db) : db.Unagreed :=
  fun _ hn ha => h.agreed_none hn ha

/-- The scope read off a later state fits the rows of an earlier one. -/
theorem Scope.only_covers {db later : Db} (R : Id) (hc : Consistent later)
    (hkeep : ∀ n ∈ db.negotiations, ∃ m ∈ later.negotiations, m.thread = n.thread) :
    (Scope.only R later).Covers db where
  closed := by
    intro n hn
    obtain ⟨m, hm, hthread⟩ := hkeep n hn
    obtain ⟨hid, hrid, _⟩ := Thread.mk.inj hthread
    show (!later.elsewhere R n.id) = decide (n.requestId = R)
    by_cases hR : n.requestId = R
    · have hin : later.elsewhere R n.id = false := by
        rw [elsewhere_eq_false]
        intro k hk hkid
        obtain rfl : k = m := hc.negotiation_eq hk hm (hkid.trans hid.symm)
        exact hrid.trans hR
      rw [hin, decide_eq_true hR]
      rfl
    · have hout : later.elsewhere R n.id = true := by
        cases he : later.elsewhere R n.id with
        | true => rfl
        | false => exact absurd (hrid.symm.trans (elsewhere_eq_false.mp he m hm hid)) hR
      rw [hout, decide_eq_false hR]
      rfl
  shown := fun _ _ => rfl
  owned := fun _ _ => rfl

/-- What is in the scope later is in it now. -/
theorem Scope.only_shrinks {db later : Db} {R i : Id}
    (hkeep : ∀ n ∈ db.negotiations, ∃ m ∈ later.negotiations, m.thread = n.thread)
    (hi : (Scope.only R later).negotiation i = true) : (Scope.only R db).negotiation i = true := by
  have hlater : later.elsewhere R i = false := by simpa [Scope.only] using hi
  have hnow : db.elsewhere R i = false := by
    rw [elsewhere_eq_false]
    intro n hn hid
    obtain ⟨m, hm, hthread⟩ := hkeep n hn
    obtain ⟨hmid, hmrid, _⟩ := Thread.mk.inj hthread
    rw [← hmrid]
    exact elsewhere_eq_false.mp hlater m hm (hmid.trans hid)
  exact congrArg not hnow

/-! ## §3. A call that is deleted. -/

/-- An acceptance on another request writes outside the scope. -/
theorem acceptWrites_outside {sc : Scope} {env : Env} {user : User} {neg : Negotiation}
    {last : Proposal} {req : ProductRequest} {siblings : List Negotiation}
    (hneg : sc.negotiation neg.id = false) (hreq : sc.request req.id = false)
    (hsib : ∀ s ∈ siblings, sc.negotiation s.id = false) :
    ∀ w ∈ acceptWrites env user neg last req siblings, sc.Outside w := by
  have hloop : ∀ (env : Env) (siblings : List Negotiation),
      (∀ s ∈ siblings, sc.negotiation s.id = false) →
      ∀ w ∈ supersedeWrites neg.id env siblings, sc.Outside w := by
    intro env siblings
    induction siblings generalizing env with
    | nil => exact fun _ w hw => absurd hw List.not_mem_nil
    | cons sib siblings ih =>
        intro hs w hw
        rcases List.mem_cons.mp hw with rfl | hw
        · exact hs sib (List.mem_cons_self ..)
        rcases List.mem_cons.mp hw with rfl | hw
        · trivial
        · exact ih _ (fun s h => hs s (List.mem_cons_of_mem _ h)) w hw
  intro w hw
  rcases List.mem_cons.mp hw with rfl | hw
  · exact hneg
  rcases List.mem_cons.mp hw with rfl | hw
  · exact hreq
  rcases List.mem_append.mp hw with hw | hw
  · exact hloop env siblings hsib w hw
  · obtain rfl := List.mem_singleton.mp hw
    trivial

/-- **An operation on another request writes outside the scope of `R`.** -/
theorem Produces.outside {db later : Db} {user : User} {env : Env} {op : Op} {o : Produced}
    {creations : Bool} {R : Id} (h : Produces db user env op o)
    (helse : op.elsewhere creations R db env = true)
    (hcovers : (Scope.only R later).Covers db)
    (hlater : ∀ n ∈ (engine.view o.writes db).negotiations, n ∈ later.negotiations) :
    ∀ w ∈ o.writes, (Scope.only R later).Outside w := by
  -- the negotiation that a decision is about is outside, and so is its request
  have hdecision : ∀ neg : Negotiation, db.negotiation neg.id = some neg →
      db.elsewhere R neg.id = true →
      (Scope.only R later).negotiation neg.id = false
        ∧ (Scope.only R later).request neg.requestId = false := by
    intro neg hrow he
    obtain ⟨n, hn, hcond⟩ := List.any_eq_true.mp he
    obtain ⟨hid, hne⟩ := of_decide_eq_true hcond
    have hout : (Scope.only R later).negotiation neg.id = false := by
      rw [← hid, hcovers.closed n hn]
      exact decide_eq_false hne
    exact ⟨hout, by rw [← hcovers.closed neg (lookup_mem hrow)]; exact hout⟩
  cases h with
  | createRequest data =>
      intro w hw
      have hne : (env.stamp .requests).id ≠ R :=
        of_decide_eq_true (Bool.and_eq_true_iff.mp helse).2
      rcases List.mem_cons.mp hw with rfl | hw
      · exact ⟨decide_eq_false hne, rfl⟩
      · obtain rfl := List.mem_singleton.mp hw
        trivial
  | @makeOffer req data hread ho =>
      intro w hw
      have hne : req.id ≠ R := of_decide_eq_true helse
      -- the id of the new negotiation left the scope
      have hnew : (Scope.only R later).negotiation (env.offered user req.id).id = false := by
        have hmem : env.offered user req.id ∈ later.negotiations :=
          hlater _ (List.mem_append_right _ (List.mem_singleton_self _))
        have hin : later.elsewhere R (env.offered user req.id).id = true :=
          List.any_eq_true.mpr ⟨_, hmem, decide_eq_true ⟨rfl, hne⟩⟩
        show (!later.elsewhere R _) = false
        rw [hin]
        rfl
      have hreq : (Scope.only R later).request req.id = false := decide_eq_false hne
      rcases List.mem_cons.mp hw with rfl | hw
      · exact ⟨hreq, hnew.trans hreq.symm, rfl, rfl⟩
      rcases List.mem_cons.mp hw with rfl | hw
      · exact hnew
      · obtain rfl := List.mem_singleton.mp hw
        trivial
  | @accept neg client ps last req hread hm hrow =>
      obtain ⟨hneg, hreq⟩ := hdecision neg hread.row helse
      rw [← lookup_key hrow] at hreq
      refine acceptWrites_outside hneg hreq ?_
      intro s hs
      obtain ⟨hs, hrid, _⟩ := mem_activeSiblings.mp ((env.order_perm _).mem_iff.mp hs)
      rw [hcovers.closed s hs, hrid]
      exact hreq
  | @reject neg client ps last hread hm =>
      intro w hw
      rcases List.mem_cons.mp hw with rfl | hw
      · exact (hdecision neg hread.row helse).1
      · obtain rfl := List.mem_singleton.mp hw
        trivial
  | @counter neg client ps last data hread hm =>
      intro w hw
      rcases List.mem_cons.mp hw with rfl | hw
      · exact (hdecision neg hread.row helse).1
      · obtain rfl := List.mem_singleton.mp hw
        trivial

section
variable {db db' : Db} {R : Id} {creations : Bool} {p : Posted}

/-- The call runs in the full run only. -/
theorem Posted.deleted (h : Reachable db) (hf : Fresh p.env db) (hk : p.req.key = none)
    (helse : p.elsewhere creations R db = true) (hdb : (Scope.only R db).Agree db db') :
    (Scope.only R (p.run db).2).Agree (p.run db).2 db' := by
  have hstep : Step db (p.run db).2 := Posted.step hf
  have hc : Consistent (p.run db).2 := Reachable.consistent (h.tail hstep)
  have hcovers := Scope.only_covers R hc hstep.keeps_threads
  -- in front of the call, on the scope behind it
  have hagree : (Scope.only R (p.run db).2).Agree db db' :=
    hdb.rescope rfl rfl (fun i => Scope.only_shrinks hstep.keeps_threads) (fun _ _ => rfl)
      (fun _ _ => rfl) hcovers
  rcases p.cases db with ⟨e, hrun⟩ | ⟨_, _, _, hrun⟩ | ⟨user, o, hx, hrun⟩
  · rw [hrun] at hagree ⊢
    exact hagree
  · rw [hrun] at hagree ⊢
    exact hagree
  · rw [hrun, committedWrites_unkeyed hk] at hagree hcovers ⊢
    exact hagree.outside_view (hx.produces.outside helse hcovers fun n hn => hn)

/-- The call runs in both. -/
theorem Posted.left_over (h : Reachable db) (hf : Fresh p.env db)
    (helse : p.elsewhere creations R db = false) (hdb : (Scope.only R db).Agree db db') :
    (p.run db').1 = (p.run db).1
      ∧ (Scope.only R (p.run db).2).Agree (p.run db).2 (p.run db').2 := by
  have hop : (Scope.only R db).SameOp p.env p.req.caller p.req.op p.req.op := by
    unfold Posted.elsewhere at helse
    cases hop : p.req.op with
    | createRequest data => exact .createRequest rfl
    | makeOffer i data =>
        rw [hop] at helse
        have hi : i = R := by
          by_contra hne
          exact absurd helse (by simp [Op.elsewhere, hne])
        refine .makeOffer (decide_eq_true hi) ?_ rfl fun _ => rfl
        -- nobody has the new id yet
        have hnew : db.elsewhere R (p.env.stamp .negotiations).id = false := by
          rw [elsewhere_eq_false]
          intro n hn hid
          exact absurd (List.mem_map.mpr ⟨n, hn, hid⟩) (hf.unused .negotiations 0)
        show (!db.elsewhere R _) = true
        rw [hnew]
        rfl
    | accept i =>
        rw [hop] at helse
        exact .accept (congrArg not helse)
    | reject i =>
        rw [hop] at helse
        exact .reject (congrArg not helse)
    | counter i data =>
        rw [hop] at helse
        exact .counter (congrArg not helse) fun _ => rfl
  have hboth := (Scope.handle_alike p.req hop).request hdb p.faults
  have hstep : Step db (p.run db).2 := Posted.step hf
  have hc : Consistent (p.run db).2 := Reachable.consistent (h.tail hstep)
  constructor
  · exact (similar_eq.mp (hboth.1.mono fun r r' hr => hr rfl)).symm
  · -- what is behind the call, on the scope in front of it and then on the new one
    have hagree : (Scope.only R db).Agree (p.run db).2 (p.run db').2 := hboth.2
    exact hagree.rescope rfl rfl (fun i => Scope.only_shrinks hstep.keeps_threads)
      (fun _ _ => rfl) (fun _ _ => rfl) (Scope.only_covers R hc fun n hn => ⟨n, hn, rfl⟩)

end

/-! ## §4. Whole runs. -/

/-- The two runs side by side: the full one, and the one without the calls about
other requests. -/
theorem run_without (R : Id) (creations : Bool) {ps : List Posted} {db db' : Db}
    (h : Reachable db) (hkeys : ∀ p ∈ ps, p.req.key = none) (hids : Numbered db ps)
    (hdb : (Scope.only R db).Agree db db') :
    answers db' (without creations R db ps) = remaining creations R db ps
      ∧ (Scope.only R (stateAfter db ps)).Agree (stateAfter db ps)
          (stateAfter db' (without creations R db ps)) := by
  induction ps generalizing db db' with
  | nil => exact ⟨rfl, hdb⟩
  | cons p ps ih =>
      obtain ⟨hf, hids⟩ := hids
      have hlater : Reachable (p.run db).2 := h.tail (Posted.step hf)
      have hk : p.req.key = none := hkeys p (List.mem_cons_self ..)
      have hks : ∀ q ∈ ps, q.req.key = none := fun q hq => hkeys q (List.mem_cons_of_mem _ hq)
      cases helse : p.elsewhere creations R db with
      | true =>
          rw [without, remaining, if_pos helse, if_pos helse]
          exact ih hlater hks hids (Posted.deleted h hf hk helse hdb)
      | false =>
          have hne : ¬ p.elsewhere creations R db = true := by simp [helse]
          rw [without, remaining, if_neg hne, if_neg hne]
          obtain ⟨hanswer, hagree⟩ := Posted.left_over h hf helse hdb
          obtain ⟨hrest, hend⟩ := ih hlater hks hids hagree
          refine ⟨?_, hend⟩
          show (p.run db').1 :: answers (p.run db').2 _ = _
          rw [hanswer, hrest]

/-- What agreement on one request says about it. -/
theorem Scope.Agree.same_request {R : Id} {db db' : Db} (h : (Scope.only R db).Agree db db')
    (hc : (Scope.only R db).Covers db) :
    db'.request R = db.request R ∧ db'.negotiationsOf R = db.negotiationsOf R
      ∧ ∀ n ∈ db.negotiationsOf R, db'.chain n.id = db.chain n.id := by
  refine ⟨(h.request (decide_eq_true rfl)).symm, ?_, ?_⟩
  · exact (h.negotiations.eq (fun _ _ _ => rfl) (fun _ _ _ => rfl)).symm
  · intro n hn
    obtain ⟨hn, hR⟩ := mem_negotiationsOf.mp hn
    have hin : (Scope.only R db).negotiation n.id = true := by
      rw [hc.closed n hn]
      exact decide_eq_true hR
    exact (h.chain_eq hin rfl).symm

/-- **Product requests are isolated from each other.**  Take any run of calls from a
reachable state and delete every call that targets a request other than `R` or a
negotiation of another request (and, as `creations` says, also those that create
another request).  Each call left over has the answer it has in the full run, and
`R` ends with the same row, the same negotiations and the same chains. -/
theorem requests_isolated {db : Db} (h : Reachable db) (R : Id) (creations : Bool)
    {ps : List Posted} (hkeys : ∀ p ∈ ps, p.req.key = none) (hids : Numbered db ps) :
    answers db (without creations R db ps) = remaining creations R db ps
      ∧ (stateAfter db (without creations R db ps)).request R = (stateAfter db ps).request R
      ∧ (stateAfter db (without creations R db ps)).negotiationsOf R
          = (stateAfter db ps).negotiationsOf R
      ∧ ∀ n ∈ (stateAfter db ps).negotiationsOf R,
          (stateAfter db (without creations R db ps)).chain n.id
            = (stateAfter db ps).chain n.id := by
  have hstart : (Scope.only R db).Agree db db :=
    Scope.Agree.refl (Scope.only_covers R h.consistent fun n hn => ⟨n, hn, rfl⟩)
      (unagreed_of_consistent h.consistent)
  obtain ⟨hanswers, hend⟩ := run_without R creations h hkeys hids hstart
  exact ⟨hanswers, hend.same_request hend.covers⟩

/-- The client of the market opens a second request, the first supplier bids on it,
and the client accepts the first bid on the first one. -/
def secondRequest : List Posted :=
  let created : Posted := ⟨plain 1 (.createRequest chairs), .following market, calm⟩
  let bidden : Posted :=
    ⟨plain 2 (.makeOffer 2 (bid 70 (by decide) (by decide))), .following (created.run market).2, calm⟩
  [created, bidden,
    ⟨plain 1 (.accept 1), .following (bidden.run (created.run market).2).2, calm⟩]

/-- Of these three calls only the acceptance is left for the first request. -/
theorem requests_isolated_market :
    answers market (without true 1 market secondRequest) = remaining true 1 market secondRequest := by
  have hkeys : ∀ p ∈ secondRequest, p.req.key = none := by
    intro p hp
    rcases List.mem_cons.mp hp with rfl | hp
    · rfl
    rcases List.mem_cons.mp hp with rfl | hp
    · rfl
    · obtain rfl := List.mem_singleton.mp hp
      rfl
  have hids : Numbered market secondRequest :=
    ⟨Env.following_fresh _, Env.following_fresh _, Env.following_fresh _, trivial⟩
  exact (requests_isolated market_reachable 1 true hkeys hids).1

end Procurement
