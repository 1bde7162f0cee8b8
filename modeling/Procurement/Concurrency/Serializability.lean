/-
  Procurement.Concurrency.Serializability
  ───────────────────────────────────────
  **CONCURRENT REQUESTS ARE AS GOOD AS SERIAL ONES.**

  Whatever the interleaving, the committed business state is the one that the
  committed requests leave when they are run one at a time, in the order of
  their commits, with the ids they have drawn; and each of them is answered
  there what it was answered here.

  The audit trail is left out: an acceptance that was overtaken by a rejection
  of a sibling writes an entry that its serial run does not write.
-/
import Procurement.Concurrency.Sound

namespace Procurement

open Procurement.Framework

/-! ## §1. The serial run. -/

/-- The committed requests in the order of their commits, as a serial run. -/
def serially (calls : Nat → HttpRequest) (envs : Nat → Env) (log : List (Nat × List Write)) :
    List Posted :=
  log.map fun entry => ⟨calls entry.1, envs entry.1, calm⟩

/-- The committed state is the one behind the serial run, and the requests of
the log have the answers of that run. -/
structure Serialized (db : Db) (calls : Nat → HttpRequest) (envs : Nat → Env) (w : Concurrent) :
    Prop where
  business : w.committed.business = (stateAfter db (serially calls envs w.log)).business
  once : (w.log.map Prod.fst).Nodup
  answered : ∀ (m i : Nat) (ws : List Write), w.log[m]? = some (i, ws) →
    ∃ r : Response, (answers db (serially calls envs w.log))[m]? = some (Except.ok r)
      ∧ World.Replied engine.fault r (w.txs i)

variable {db : Db} {calls : Nat → HttpRequest} {envs : Nat → Env} {w w' : Concurrent} {i : Nat}

/-- A request that is going to commit has not committed yet. -/
theorem Serialized.not_logged (h : Serialized db calls envs w) {k : Prog Response} {env : Env}
    {ws : List Write} (ht : w.txs i = .running ⟨.commit k, env, ws⟩) :
    i ∉ w.log.map Prod.fst := by
  intro hi
  obtain ⟨entry, hentry, rfl⟩ := List.mem_map.mp hi
  obtain ⟨m, hm⟩ := List.mem_iff_getElem?.mp hentry
  obtain ⟨r, _, hr⟩ := h.answered m entry.1 entry.2 hm
  -- behind its commit a request only returns
  rw [ht] at hr
  exact absurd hr (by simp [World.Replied])

/-- **A commit is one more step of the serial run.** -/
theorem Serialized.commit (h : Serialized db calls envs w) (hs : Sound calls envs w)
    {k : Prog Response} {env : Env} {ws : List Write}
    (ht : w.txs i = .running ⟨.commit k, env, ws⟩) (hm : Moves w (.step i) w')
    (hcommitted : w'.committed = engine.view ws w.committed) (hlog : w'.log = w.log ++ [(i, ws)])
    (htx : w'.txs i = .running ⟨k, env, []⟩) : Serialized db calls envs w' := by
  obtain ⟨user, o, o', _, hx, _, hk, _, hbusiness⟩ := hs.commit ht
  have hserially : serially calls envs w'.log
      = serially calls envs w.log ++ [⟨calls i, envs i, calm⟩] := by
    rw [hlog]
    exact List.map_append
  -- alone, the request does on the serial state what it does here
  have hrun : Posted.run ⟨calls i, envs i, calm⟩ (stateAfter db (serially calls envs w.log))
      = (.ok ⟨(calls i).op.statusCode, o'.body⟩, engine.view (committedWrites (calls i) user o')
          (stateAfter db (serially calls envs w.log))) :=
    executes_calm (hx.business h.business)
  refine ⟨?_, ?_, ?_⟩
  · rw [hserially, stateAfter_concat, hrun, hcommitted, ← hbusiness]
    exact view_business_congr _ h.business
  · rw [hlog, List.map_append]
    exact nodup_concat h.once (h.not_logged ht)
  · intro m j vs hentry
    rw [hserially, answers_append]
    rw [hlog] at hentry
    rcases Nat.lt_or_ge m w.log.length with hlt | hge
    · -- an earlier commit
      rw [List.getElem?_append_left hlt] at hentry
      obtain ⟨r, hr, hreplied⟩ := h.answered m j vs hentry
      refine ⟨r, ?_, hreplied.move hm⟩
      rw [List.getElem?_append_left]
      · exact hr
      · rw [answers_length, serially, List.length_map]
        exact hlt
    -- the commit of this event
    · rw [List.getElem?_append_right hge] at hentry
      have hm0 : m = w.log.length := by
        by_contra hne
        rw [List.getElem?_eq_none (by simp; omega)] at hentry
        exact absurd hentry (by simp)
      subst hm0
      obtain ⟨rfl, rfl⟩ : i = j ∧ ws = vs := by simpa using hentry
      have hlen : (answers db (serially calls envs w.log)).length = w.log.length := by
        rw [answers_length, serially, List.length_map]
      refine ⟨⟨(calls i).op.statusCode, o'.body⟩, ?_, ?_⟩
      · rw [List.getElem?_append_right (by omega), hlen, Nat.sub_self]
        show some (Posted.run _ _).1 = _
        rw [hrun]
      · rw [htx]
        exact hk

/-- Any other event. -/
theorem Serialized.keep (h : Serialized db calls envs w) {e : Event} (hm : Moves w e w')
    (hcommitted : w'.committed = w.committed) (hlog : w'.log = w.log) :
    Serialized db calls envs w' where
  business := by
    rw [hcommitted, hlog]
    exact h.business
  once := by
    rw [hlog]
    exact h.once
  answered := by
    intro m j ws hentry
    rw [hlog] at hentry ⊢
    obtain ⟨r, hr, hreplied⟩ := h.answered m j ws hentry
    exact ⟨r, hr, hreplied.move hm⟩

theorem Serialized.move (h : Serialized db calls envs w) (hs : Sound calls envs w) {e : Event}
    (hm : Moves w e w') : Serialized db calls envs w' := by
  have hm' := hm
  cases hm with
  | committed i k env ws ht =>
      exact h.commit hs ht hm' rfl rfl (Function.update_self ..)
  | aborted i p ht => exact h.keep hm' rfl rfl
  | returned i a env ws ht => exact h.keep hm' rfl rfl
  | raised i e env ws ht => exact h.keep hm' rfl rfl
  | refused i c k env ws last e ht hl ha => exact h.keep hm' rfl rfl
  | answered i c k env ws last r ht hf hl ha => exact h.keep hm' rfl rfl

/-! ## §2. Serializability. -/

/-- **The committed business state is serializable.**  From any reachable state,
after any events of any number of requests: the users, the requests and their
statuses, the negotiations with their statuses and agreed amounts, the proposals
and the stored responses are those that the committed requests leave when they
are run one at a time in the order of their commits.  No request is committed
twice; every committed one succeeds in that run too, with the response it has
got here unless its connection was lost behind the commit. -/
theorem serializable {db : Db} (h : Reachable db) (calls : Nat → HttpRequest) (envs : Nat → Env)
    {w : Concurrent} (hrun : World.Run engine rowLocks World.anyStep (db.opened calls envs) w) :
    w.committed.business = (stateAfter db (serially calls envs w.log)).business
      ∧ (w.log.map Prod.fst).Nodup
      ∧ ∀ (m i : Nat) (ws : List Write), w.log[m]? = some (i, ws) →
          ∃ r : Response, (answers db (serially calls envs w.log))[m]? = some (Except.ok r)
            ∧ World.Replied engine.fault r (w.txs i) := by
  have hinv : Sound calls envs w ∧ Serialized db calls envs w := by
    refine World.Run.invariant (P := fun w => Sound calls envs w ∧ Serialized db calls envs w)
      engine rowLocks ?_ hrun ?_
    · intro w e w' hw _ hm
      exact ⟨hw.1.move hm, hw.2.move hw.1 hm⟩
    · refine ⟨.opened h.consistent, rfl, List.nodup_nil, ?_⟩
      intro m i ws hentry
      exact absurd hentry (by simp [Db.opened, World.start])
  exact ⟨hinv.2.business, hinv.2.once, hinv.2.answered⟩

/-! ## §3. An overlap. -/

/-- Ids that number on behind the rows of `db`, `n` of them left out. -/
def Db.numbering (db : Db) (n : Nat) : Env :=
  { Env.following db with supply := fun t k => ⟨(db.ids t).foldr max 0 + n + k + 1, k⟩ }

/-- `n` events of request `i`. -/
def eventsOf (i n : Nat) : List Event := List.replicate n (.step i)

/-- The client accepts the first bid of the market, and rejects the second. -/
def decisions : Nat → HttpRequest
  | 0 => plain 1 (.accept 1)
  | _ => plain 1 (.reject 2)

def decisionEnvs : Nat → Env
  | 0 => market.numbering 10
  | _ => market.numbering 0

/-- The acceptance selects its siblings, the rejection runs, the acceptance goes
on. -/
def overlap : List Event := eventsOf 0 8 ++ eventsOf 1 11 ++ eventsOf 0 10

/-- The overlap is serializable: first the rejection, then the acceptance. -/
theorem serializable_market :
    ∃ w, (market.opened decisions decisionEnvs).runs engine rowLocks World.anyStep overlap = some w
      ∧ w.log.map Prod.fst = [1, 0]
      ∧ w.committed.business
        = (stateAfter market (serially decisions decisionEnvs w.log)).business := by
  have hrun : ((market.opened decisions decisionEnvs).runs engine rowLocks World.anyStep overlap).map
      (fun w => w.log.map Prod.fst) = some [1, 0] := by decide +kernel
  obtain ⟨w, hw, hlog⟩ := Option.map_eq_some_iff.mp hrun
  have hreach := World.Run.of_runs engine rowLocks hw
  exact ⟨w, hw, hlog, (serializable market_reachable decisions decisionEnvs hreach).1⟩

end Procurement
