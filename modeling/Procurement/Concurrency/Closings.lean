/-
  Procurement.Concurrency.Closings
  ────────────────────────────────
  **CLOSED ONCE, UNLESS OVERTAKEN.**

  An acceptance selects its siblings without locking them, and later rejects
  each by primary key with an entry of its own.  A sibling that has been
  rejected in between gets a second closing entry (`closed_twice`).

  As long as every UPDATE to `rejected` finds its row still active
  (`FindsActive`), every negotiation is closed once, in every committed state
  (`closed_once`): the row is locked from that UPDATE on, so it is active still
  when the entry is committed.
-/
import Procurement.Concurrency.Serializability

namespace Procurement

open Procurement.Framework

variable {calls : Nat → HttpRequest} {envs : Nat → Env} {w w' : Concurrent} {i : Nat}

/-! ## §1. Active rows. -/

/-- The negotiation is active in the committed state. -/
def Db.IsActive (db : Db) (n : Id) : Prop := ∃ m ∈ db.negotiation n, m.status = .active

instance (db : Db) (n : Id) : Decidable (db.IsActive n) := by
  unfold Db.IsActive
  infer_instance

/-- An UPDATE to `rejected` finds its row active. -/
def FindsActive (w : Concurrent) : Event → Prop
  | .step i => match w.sends i with
    | some (.decide n .rejected) => w.committed.IsActive n
    | _ => True
  | .abort _ => True

instance (w : Concurrent) (e : Event) : Decidable (FindsActive w e) := by
  cases e with
  | step i =>
      show Decidable (match w.sends i with
        | some (.decide n .rejected) => w.committed.IsActive n
        | _ => True)
      split <;> infer_instance
  | abort i => exact .isTrue trivial

theorem FindsActive.row {n : Id} (h : FindsActive w (.step i))
    (hs : w.sends i = some (.decide n .rejected)) : w.committed.IsActive n := by
  have hmatch : match w.sends i with
    | some (.decide n .rejected) => w.committed.IsActive n
    | _ => True := h
  rw [hs] at hmatch
  exact hmatch

/-- The trail of the committed state, and the rejections staged on top of it. -/
structure Closing (w : Concurrent) : Prop where
  traced : Traced w.committed
  active : ∀ i n, .decide n .rejected ∈ (w.txs i).staged → w.committed.IsActive n

/-- **A commit keeps the trail** when the rejections it stages are of active
negotiations. -/
theorem Ready.traced {own : Row → Prop} {db : Db} {user : User} {env : Env} {op : Op} {o : Produced}
    (h : Ready own db user env op o) (hc : Consistent db) (ht : Traced db)
    (hunused : ∀ n, .insertNegotiation n ∈ o.writes → n.id ∉ db.ids .negotiations)
    (hactive : ∀ n, .decide n .rejected ∈ o.writes → db.IsActive n) :
    Traced (engine.view o.writes db) := by
  cases h with
  | createRequest data => exact ht.grow rfl rfl rfl
  | makeOffer data hreq h ho => exact ht.makeOffer (hunused _ (List.mem_cons_self ..))
  | reject hneg h hm => exact ht.reject (lookup_mem h.row) hc.negotiationIds hm.active
  | counter data hneg h hm hlater => exact ht.grow rfl rfl rfl
  | accept hneg hreq h hm hrow hl =>
      refine ht.accept (lookup_mem h.row) hc.negotiationIds hm.active hl.nodup hl.winner ?_
      intro i hi
      obtain ⟨n, hn, rfl⟩ := List.mem_map.mp hi
      -- each loser is rejected by a staged write, which has found it active
      obtain ⟨m, hm, ha⟩ := hactive n.id (loser_mem_acceptWrites hn)
      exact ⟨m, lookup_mem hm, lookup_key hm, ha⟩

/-! ## §2. Every event keeps it. -/

/-- An event that commits nothing and stages no rejection. -/
theorem Closing.keep (h : Closing w) (hsame : w'.committed = w.committed)
    (hstaged : ∀ j n, .decide n .rejected ∈ (w'.txs j).staged →
      .decide n .rejected ∈ (w.txs j).staged) : Closing w' where
  traced := by
    rw [hsame]
    exact h.traced
  active := by
    intro j n hn
    rw [hsame]
    exact h.active j n (hstaged j n hn)

theorem Closing.ended (h : Closing w) {o : Except Error Response}
    (htxs : w'.txs = Function.update w.txs i (.done o)) (hsame : w'.committed = w.committed) :
    Closing w' := by
  refine h.keep hsame fun j n hn => ?_
  rw [htxs] at hn
  exact (mem_staged_emptied rfl hn).2

theorem Closing.move (h : Closing w) (hs : Sound calls envs w) {e : Event}
    (hok : FindsActive w e) (hm : Moves w e w') : Closing w' := by
  cases hm with
  | aborted i p ht => exact h.ended rfl rfl
  | returned i a env ws ht => exact h.ended rfl rfl
  | raised i e env ws ht => exact h.ended rfl rfl
  | refused i c k env ws last e ht hl ha => exact h.ended rfl rfl
  | committed i k env ws ht =>
      -- the commit of a ready operation, whose rejections are all of active rows
      obtain ⟨user, o, o', hready, _, _, _, hws, _⟩ := hs.commit ht
      have hstaged : ∀ wr ∈ o.writes, wr ∈ (w.txs i).staged := by
        intro wr hwr
        rw [ht]
        show wr ∈ ws
        rw [hws]
        exact List.mem_append_left _ hwr
      refine ⟨?_, ?_⟩
      · show Traced (engine.view ws w.committed)
        have ht' := hready.traced hs.consistent h.traced
          (fun n hn => hs.orderly.unused (hstaged _ hn) rfl)
          (fun n hn => h.active i n (hstaged _ hn))
        rw [hws, view_committed]
        exact ⟨ht'.closings, ht'.known⟩
      · intro j n hn
        -- the row is locked by the request that rejects it
        obtain ⟨hji, hn⟩ := mem_staged_emptied rfl hn
        obtain ⟨m, hrow, ha⟩ := h.active j n hn
        have hown : Owns w j (.negotiation n) := hs.orderly.guarded hn rfl
        exact ⟨m, ((hs.committed_rely ht hji).negotiation n m hown hrow).1, ha⟩
  | answered i c k env ws last r ht hf hl ha =>
      refine ⟨h.traced, ?_⟩
      intro j n hn
      rcases mem_staged_added (c.writes env) (by rw [ht]; rfl) hn with hold | ⟨rfl, hnew⟩
      · exact h.active j n hold
      · -- this very UPDATE
        obtain rfl : c = .decide n .rejected := Cmd.eq_decide hnew
        refine hok.row ?_
        unfold World.sends
        rw [ht]

/-! ## §3. Closed once. -/

/-- The closing entries of a negotiation match its status. -/
def ClosedByStatus (db : Db) (n : Negotiation) : Prop :=
  (db.closings n.id).length ≤ 1
    ∧ ((db.closings n.id).length = 1 ↔ n.status ≠ .active)
    ∧ ∀ e ∈ db.closings n.id,
        (e.action = .negotiationAccepted ∧ n.status = .accepted)
          ∨ ((e.action = .negotiationRejected ∨ e.action = .negotiationSuperseded)
            ∧ n.status = .rejected)

theorem Traced.closedByStatus {db : Db} (h : Traced db) {n : Negotiation}
    (hn : n ∈ db.negotiations) : ClosedByStatus db n := by
  have hc := h.closings n hn
  unfold ClosedByStatus
  cases hs : n.status with
  | active =>
      rw [hs] at hc
      have hnil : db.closings n.id = [] := hc
      rw [hnil]
      exact ⟨by simp, by simp, by simp⟩
  | accepted =>
      rw [hs] at hc
      obtain ⟨e, he, ha⟩ := hc
      rw [he]
      refine ⟨le_rfl, by simp, ?_⟩
      intro e' he'
      obtain rfl := List.mem_singleton.mp he'
      exact Or.inl ⟨ha, rfl⟩
  | rejected =>
      rw [hs] at hc
      obtain ⟨e, he, ha⟩ := hc
      rw [he]
      refine ⟨le_rfl, by simp, ?_⟩
      intro e' he'
      obtain rfl := List.mem_singleton.mp he'
      exact Or.inr ⟨ha, rfl⟩

/-- **Each negotiation is closed once**, in every committed state of every run in
which no UPDATE to `rejected` finds a row that is closed already. -/
theorem closed_once {db : Db} (h : Reachable db) (calls : Nat → HttpRequest) (envs : Nat → Env)
    {w : Concurrent} (hrun : World.Run engine rowLocks FindsActive (db.opened calls envs) w) :
    ∀ n ∈ w.committed.negotiations, ClosedByStatus w.committed n := by
  have hinv : Sound calls envs w ∧ Closing w := by
    refine World.Run.invariant (P := fun w => Sound calls envs w ∧ Closing w)
      engine rowLocks ?_ hrun ?_
    · intro w e w' hw hok hm
      exact ⟨hw.1.move hm, hw.2.move hw.1 hok hm⟩
    · refine ⟨.opened h.consistent, h.traced, ?_⟩
      intro i n hn
      exact absurd hn List.not_mem_nil
  exact fun n hn => hinv.2.traced.closedByStatus hn

/-- The acceptance and the rejection in turns: the rejection of negotiation 2 begins behind
the acceptance, and has ended when the acceptance selects its siblings. -/
def inTurns : List Event :=
  eventsOf 0 4 ++ eventsOf 1 6 ++ eventsOf 0 3 ++ eventsOf 1 5 ++ eventsOf 0 8

/-- Both negotiations are closed in the end, each of them once. -/
theorem closed_once_market :
    ∃ w, World.Run engine rowLocks FindsActive (market.opened decisions decisionEnvs) w
      ∧ w.log.map Prod.fst = [1, 0]
      ∧ w.committed.negotiations.map Negotiation.status = [.accepted, .rejected]
      ∧ ∀ n ∈ w.committed.negotiations, ClosedByStatus w.committed n := by
  have hrun : ((market.opened decisions decisionEnvs).runs engine rowLocks FindsActive inTurns).map
      (fun w => (w.log.map Prod.fst, w.committed.negotiations.map Negotiation.status))
        = some ([1, 0], [.accepted, .rejected]) := by decide +kernel
  obtain ⟨w, hw, hends⟩ := Option.map_eq_some_iff.mp hrun
  obtain ⟨hlog, hstatus⟩ := Prod.mk.inj hends
  have hreach := World.Run.of_runs engine rowLocks hw
  exact ⟨w, hreach, hlog, hstatus, closed_once market_reachable decisions decisionEnvs hreach⟩

/-- In the overlap, negotiation 2 is rejected by the rejection, and superseded by
the acceptance that had selected it before. -/
theorem closed_twice :
    ∃ w, World.Run engine rowLocks World.anyStep (market.opened decisions decisionEnvs) w
      ∧ ∃ n ∈ w.committed.negotiations, ¬ ClosedByStatus w.committed n := by
  have hrun : ((market.opened decisions decisionEnvs).runs engine rowLocks World.anyStep
      overlap).any (fun w => w.committed.negotiations.any
        fun n => 1 < (w.committed.closings n.id).length) = true := by decide +kernel
  obtain ⟨w, hw, hany⟩ := (Option.any_eq_true _ _).mp hrun
  obtain ⟨n, hn, hlt⟩ := List.any_eq_true.mp hany
  refine ⟨w, World.Run.of_runs engine rowLocks hw, n, hn, ?_⟩
  intro hclosed
  have hle := hclosed.1
  have hlt' : 1 < (w.committed.closings n.id).length := by simpa using hlt
  omega

end Procurement
