/-
  Procurement.Concurrency.Sound
  ─────────────────────────────
  **THE INVARIANT OF CONCURRENT REQUESTS.**

  `Sound`: the committed state is consistent, locks and sequences are in order,
  and every open request stands somewhere (`Stage`).  An event concerns one
  request; the others keep their rows, and what is committed is within their
  rely.

  A commit is the commit of a ready operation: it is what the request, alone on
  the state it commits to, would have committed (`Sound.commit`).
-/
import Procurement.Concurrency.Progress

namespace Procurement

open Procurement.Framework

/-! ## §1. The invariant. -/

structure Sound (calls : Nat → HttpRequest) (envs : Nat → Env) (w : Concurrent) : Prop where
  consistent : Consistent w.committed
  orderly : w.Orderly Write.guard Write.stamp Db.ids
  stages : ∀ i p, w.txs i = .running p → Stage (Owns w i) w.committed (calls i) (envs i) p

variable {calls : Nat → HttpRequest} {envs : Nat → Env} {w w' : Concurrent} {i : Nat}

theorem Sound.opened {db : Db} (h : Consistent db) : Sound calls envs (db.opened calls envs) where
  consistent := h
  orderly := db.opened_orderly calls envs
  stages := by
    intro i p hp
    obtain rfl := Tx.running.inj hp
    exact .start fun row ho => absurd ho (by simp [Owns, Db.opened, World.start])

/-! ## §2. Whose rows. -/

/-- A row has one owner. -/
theorem Owns.unique {j : Nat} {row : Row} (hi : Owns w i row) (hj : Owns w j row) : i = j :=
  Option.some.inj (hi.symm.trans hj)

/-- The end of a request frees its own rows. -/
theorem owns_release {j : Nat} (hj : j ≠ i) (h : w'.owner = release i w.owner) :
    Owns w' j = Owns w j := by
  funext row
  apply propext
  unfold Owns
  rw [h]
  constructor
  · exact fun ho => (release_eq_some.mp ho).1
  · exact fun ho => release_eq_some.mpr ⟨ho, hj⟩

theorem owns_released {row : Row} (h : w'.owner = release i w.owner) : ¬ Owns w' i row := by
  unfold Owns
  rw [h]
  exact fun ho => (release_eq_some.mp ho).2 rfl

section
variable {row? : Option Row} (hf : foreign i row? w.owner = false)
  (h : w'.owner = grant i row? w.owner)
include hf h

/-- A grant takes nothing from the others, and gives them nothing. -/
theorem owns_grant_other {j : Nat} (hj : j ≠ i) : Owns w' j = Owns w j := by
  funext row
  apply propext
  unfold Owns
  rw [h]
  constructor
  · intro ho
    rcases grant_eq_some ho with ho | ⟨_, hji⟩
    · exact ho
    · exact absurd hji hj
  · exact fun ho => grant_keeps hf ho

theorem owns_grant_self (row : Row) : Owns w' i row ↔ Owns w i row ∨ row? = some row := by
  unfold Owns
  rw [h]
  constructor
  · intro ho
    rcases grant_eq_some ho with ho | ⟨hrow, _⟩
    · exact Or.inl ho
    · exact Or.inr hrow
  · rintro (ho | rfl)
    · exact grant_keeps hf ho
    · exact grant_self

end

/-! ## §3. Commits. -/

/-- **What a commit is**: the commit of an operation that is ready, and that
would go through on the committed state, alone, with the same response and the
same rows. -/
theorem Sound.commit (h : Sound calls envs w) {k : Prog Response} {env : Env} {ws : List Write}
    (ht : w.txs i = .running ⟨.commit k, env, ws⟩) :
    ∃ user o o', Ready (Owns w i) w.committed user (envs i) (calls i).op o
      ∧ Executes (calls i) user (envs i) o' w.committed
      ∧ Admissible o'.writes w.committed
      ∧ k = .ret ⟨(calls i).op.statusCode, o'.body⟩
      ∧ ws = committedWrites (calls i) user o
      ∧ (engine.view (committedWrites (calls i) user o') w.committed).business
        = (engine.view ws w.committed).business := by
  obtain ⟨user, o, hu, hready, hk, hkeq, hws⟩ := (h.stages i _ ht).committing
  have hstaged : ∀ wr ∈ o.writes, wr ∈ (w.txs i).staged := by
    intro wr hwr
    rw [ht]
    show wr ∈ ws
    rw [hws]
    exact List.mem_append_left _ hwr
  -- run alone here, it selects the siblings afresh: other writes, the same rows
  obtain ⟨o', hp, hbody, hadm, hbusiness⟩ := hready.serial h.consistent
    fun wr hwr t n hs => h.orderly.unused (hstaged wr hwr) hs
  refine ⟨user, o, o', hready, ⟨hu.caller, hu.permits, hk, hp⟩, hadm, ?_, hws, ?_⟩
  · rw [hkeq, hbody]
  · rw [hws]
    unfold committedWrites
    rw [Engine.view_append, Engine.view_append, hbody]
    exact view_business_congr _ hbusiness

/-- What a commit leaves is consistent. -/
theorem Sound.committed_consistent (h : Sound calls envs w) {k : Prog Response} {env : Env}
    {ws : List Write} (ht : w.txs i = .running ⟨.commit k, env, ws⟩) :
    Consistent (engine.view ws w.committed) := by
  obtain ⟨user, o, o', _, hx, hadm, _, _, hbusiness⟩ := h.commit ht
  exact (h.consistent.committed hx hadm).business hbusiness

/-- **What a commit leaves is within the rely of the others.** -/
theorem Sound.committed_rely (h : Sound calls envs w) {k : Prog Response} {env : Env}
    {ws : List Write} (ht : w.txs i = .running ⟨.commit k, env, ws⟩) {j : Nat} (hj : j ≠ i) :
    Rely (Owns w j) w.committed (engine.view ws w.committed) := by
  obtain ⟨user, o, o', hready, _, _, _, rfl, _⟩ := h.commit ht
  have hstaged : (w.txs i).staged = committedWrites (calls i) user o := by
    rw [ht]
    rfl
  apply hready.relied h.consistent
  · intro wr hwr row hg
    exact h.orderly.guarded (by rw [hstaged]; exact hwr) hg
  · intro n hn
    have hmem : .insertNegotiation n ∈ (w.txs i).staged := by
      rw [hstaged]
      exact List.mem_append_left _ hn
    exact h.orderly.unused hmem rfl
  · exact fun row hi hj' => hj (hj'.unique hi)

/-! ## §4. Every event keeps it. -/

/-- An event that ends request `i` without a commit. -/
theorem Sound.ended (h : Sound calls envs w) {o : Except Error Response}
    (hown : w'.owner = release i w.owner) (htxs : w'.txs = Function.update w.txs i (.done o))
    (hsame : w'.committed = w.committed) (horderly : w'.Orderly Write.guard Write.stamp Db.ids) :
    Sound calls envs w' where
  consistent := by
    rw [hsame]
    exact h.consistent
  orderly := horderly
  stages := by
    intro j p hp
    rw [htxs] at hp
    obtain ⟨hji, hp⟩ := World.running_of_ended hp
    rw [owns_release hji hown, hsame]
    exact h.stages j p hp

theorem Sound.move (h : Sound calls envs w) {e : Event} (hm : Moves w e w') :
    Sound calls envs w' := by
  have horderly := h.orderly.move discipline hm
  cases hm with
  | aborted i p ht => exact h.ended rfl rfl rfl horderly
  | returned i a env ws ht => exact h.ended rfl rfl rfl horderly
  | raised i e env ws ht => exact h.ended rfl rfl rfl horderly
  | refused i c k env ws last e ht hl ha => exact h.ended rfl rfl rfl horderly
  | committed i k env ws ht =>
      refine ⟨h.committed_consistent ht, horderly, ?_⟩
      intro j p hp
      rcases World.running_of_moved hp with ⟨rfl, rfl⟩ | ⟨hji, hp⟩
      · -- behind its commit a request only returns
        obtain ⟨_, _, _, _, _, _, rfl, _⟩ := h.commit ht
        exact .heading (.here (.ret _ _) (.free (fun row => owns_released rfl) _))
      -- the others keep their rows, and what is committed is within their rely
      · rw [owns_release hji rfl]
        exact (h.stages j p hp).rely (h.committed_rely ht hji)
  | answered i c k env ws last r ht hf hl ha =>
      refine ⟨h.consistent, horderly, ?_⟩
      intro j p hp
      rcases World.running_of_moved hp with ⟨rfl, rfl⟩ | ⟨hji, hp⟩
      · have hstaged : (w.txs j).staged = ws := by
          rw [ht]
          rfl
        refine (h.stages j _ ht).step h.consistent
          ⟨owns_grant_self hf rfl, ha, ?_⟩ fun wr hwr t n hs => ?_
        · -- a drawn id comes after all committed ones
          intro t htable n hn
          have hle := h.orderly.committed hn
          have hdraw : drawn (some (t, (env.stamp t).id)) w.last = some last := by
            rw [← hl]
            show _ = drawn (c.table.map _) w.last
            rw [htable]
            rfl
          exact lt_of_le_of_lt hle (drawn_value hdraw).1
        · exact h.orderly.unused (by rw [hstaged]; exact hwr) hs
      · rw [owns_grant_other hf rfl hji]
        exact h.stages j p hp

end Procurement
