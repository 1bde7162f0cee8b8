/-
  Procurement.Framework.Shadow
  ────────────────────────────
  **LEAVING TRANSACTIONS OUT.**

  The shadow of a world has some of its transactions, on a state of its own.  As long
  as they find on their way there what they find in the world, it follows the world:

      Shadow.follow  — an event of a transaction that is shown is one of the shadow
      Shadow.stay    — an event of a hidden one leaves the shadow where it is
      Shadow.hide    — a transaction that owns nothing in the shadow may be given up

  The two states are not the same: what the hidden transactions commit reaches the
  world only.  That the others do not notice is what has to be shown for each of their
  commands (`Finds`).
-/
import Procurement.Framework.Readers

namespace Procurement.Framework

variable {Cmd : Type} {Resp : Cmd → Type} {ε Db Write Env Row Seq α : Type}
variable [DecidableEq Row] [DecidableEq Seq]

/-! ## §1. What a program sends. -/

/-- Every command the program can send satisfies `P`, and it may commit. -/
def Program.Sends (P : Cmd → Prop) : Program Cmd Resp ε α → Prop
  | .ret _ => True
  | .raise _ => True
  | .commit k => k.Sends P
  | .call c k => P c ∧ ∀ r, (k r).Sends P

theorem Program.Uses.sends {P : Cmd → Prop} {p : Program Cmd Resp ε α} (h : p.Uses P) :
    p.Sends P := by
  induction p with
  | ret a => trivial
  | raise e => trivial
  | commit k _ => exact h.elim
  | call c k ih => exact ⟨h.1, fun r => ih r (h.2 r)⟩

theorem Program.Sends.bind {β : Type} {P : Cmd → Prop} {p : Program Cmd Resp ε α}
    {f : α → Program Cmd Resp ε β} (hp : p.Sends P) (hf : ∀ a, (f a).Sends P) :
    (p >>= f).Sends P := by
  induction p with
  | ret a => exact hf a
  | raise e => trivial
  | commit k ih => exact ih hp
  | call c k ih => exact ⟨hp.1, fun r => ih r (hp.2 r)⟩

theorem Program.Sends.map {β : Type} {P : Cmd → Prop} {p : Program Cmd Resp ε α} (h : p.Sends P)
    (f : α → β) : (p.map f).Sends P :=
  Program.Sends.bind h fun _ => trivial

/-! ## §2. What an event does to what is shared. -/

omit [DecidableEq Row] in
/-- Behind smaller values a sequence may be drawn from as well. -/
theorem drawn_le {shared : Seq → Prop} {value : Option (Seq × Int)} {last last' lower : Seq → Int}
    (h : drawn value last = some last') (hvalue : ∀ s n, value = some (s, n) → shared s)
    (hle : ∀ s, shared s → lower s ≤ last s) :
    ∃ lower', drawn value lower = some lower' ∧ ∀ s, shared s → lower' s ≤ last' s := by
  cases value with
  | none =>
      obtain rfl : last = last' := Option.some.inj h
      exact ⟨lower, rfl, hle⟩
  | some v =>
      obtain ⟨t, n⟩ := v
      obtain ⟨hlt, _⟩ := drawn_value h
      have hlower : lower t < n := Int.lt_of_le_of_lt (hle t (hvalue t n rfl)) hlt
      refine ⟨Function.update lower t n, if_pos hlower, ?_⟩
      intro s hs
      obtain rfl : Function.update last t n = last' := by
        simp only [drawn, if_pos hlt] at h
        exact Option.some.inj h
      by_cases hst : s = t
      · subst hst
        exact Int.le_of_eq (by rw [Function.update_self, Function.update_self])
      · rw [Function.update_of_ne hst, Function.update_of_ne hst]
        exact hle s hs

omit [DecidableEq Row] in
/-- Nobody else owns the row, where fewer rows are owned. -/
theorem foreign_of_owned {i : Nat} {row : Option Row} {owner owner' : Row → Option Nat}
    (h : foreign i row owner = false) (hsub : ∀ r j, owner' r = some j → owner r = some j) :
    foreign i row owner' = false := by
  cases row with
  | none => rfl
  | some r =>
      unfold foreign at h ⊢
      rw [Option.bind_some] at h ⊢
      cases ho : owner' r with
      | none => rfl
      | some j =>
          rw [hsub r j ho] at h
          exact h

omit [DecidableEq Row] [DecidableEq Seq] in
theorem Tx.of_map {β : Type} {f : β → α} {t : Tx Cmd Resp ε Write Env β}
    {q : Point Cmd Resp ε Write Env α} (h : t.map f = .running q) :
    ∃ p, t = .running p ∧ q = ⟨p.prog.map f, p.env, p.staged⟩ := by
  cases t with
  | done o => exact absurd h (by simp [Tx.map])
  | running p => exact ⟨p, rfl, (Tx.running.inj h).symm⟩

omit [DecidableEq Row] [DecidableEq Seq] in
theorem Tx.staged_map {β : Type} (f : α → β) (t : Tx Cmd Resp ε Write Env α) :
    (t.map f).staged = t.staged := by
  cases t <;> rfl

namespace World

variable {E : Engine Cmd Resp ε Db Write Env} {L : Locking Cmd Db Env Row Seq}
variable {w w' v : World Cmd Resp ε Db Write Env Row Seq α} {e : Event}

theorem Move.last_le (hm : Move E L w e w') (s : Seq) : w.last s ≤ w'.last s := by
  cases hm with
  | refused i c k env ws last err ht hl ha => exact le_drawn hl s
  | answered i c k env ws last r ht hf hl ha => exact le_drawn hl s
  | _ => exact Int.le_refl _

/-- The others keep their rows. -/
theorem Move.owner_keeps (hm : Move E L w e w') {row : Row} {j : Nat} (h : w.owner row = some j)
    (hj : j ≠ e.tx) : w'.owner row = some j := by
  cases hm with
  | answered i c k env ws last r ht hf hl ha => exact grant_keeps hf h
  | _ => exact release_eq_some.mpr ⟨h, hj⟩

/-- They get none. -/
theorem Move.owner_gets (hm : Move E L w e w') {row : Row} {j : Nat} (h : w'.owner row = some j)
    (hj : j ≠ e.tx) : w.owner row = some j := by
  cases hm with
  | answered i c k env ws last r ht hf hl ha =>
      rcases grant_eq_some h with h | ⟨_, hji⟩
      · exact h
      · exact absurd hji hj
  | _ => exact (release_eq_some.mp h).1

/-! ## §3. Where a transaction goes. -/

/-- It has not ended yet. -/
theorem Move.running (hm : Move E L w e w') : ∃ p, w.txs e.tx = .running p := by
  cases hm with
  | aborted i p h => exact ⟨p, h⟩
  | returned i a env ws h => exact ⟨_, h⟩
  | raised i err env ws h => exact ⟨_, h⟩
  | committed i k env ws h => exact ⟨_, h⟩
  | refused i c k env ws last err h hl ha => exact ⟨_, h⟩
  | answered i c k env ws last r h hf hl ha => exact ⟨_, h⟩

/-- It ends, or the command is answered. -/
theorem Move.of_call (hm : Move E L w e w') {c : Cmd} {k : Resp c → Program Cmd Resp ε α}
    {env : Env} {ws : List Write} (ht : w.txs e.tx = .running ⟨.call c k, env, ws⟩) :
    w'.committed = w.committed ∧ w'.log = w.log
      ∧ ((∃ err, w'.txs e.tx = .done (.error err)
            ∧ (err = E.fault ∨ E.answer c env (E.view ws w.committed) = .error err))
        ∨ ∃ r, E.answer c env (E.view ws w.committed) = .ok r
          ∧ (∀ row, L.locks c (E.view ws w.committed) = some row → w'.owner row = some e.tx)
          ∧ (∀ row, w.owner row = some e.tx → w'.owner row = some e.tx)
          ∧ w'.txs e.tx = .running ⟨k r, E.next c env, ws ++ E.writes c env⟩) := by
  have hself : ∀ i (t : Tx Cmd Resp ε Write Env α), Function.update w.txs i t i = t :=
    fun i t => Function.update_self ..
  cases hm with
  | aborted i p h => exact ⟨rfl, rfl, Or.inl ⟨_, hself i _, Or.inl rfl⟩⟩
  | returned i a env' ws' h => exact absurd (h.symm.trans ht) (by simp)
  | raised i err env' ws' h => exact absurd (h.symm.trans ht) (by simp)
  | committed i k' env' ws' h => exact absurd (h.symm.trans ht) (by simp)
  | refused i c' k' env' ws' last err h hl ha =>
      cases h.symm.trans ht
      exact ⟨rfl, rfl, Or.inl ⟨err, hself i _, Or.inr ha⟩⟩
  | answered i c' k' env' ws' last r h hf hl ha =>
      cases h.symm.trans ht
      refine ⟨rfl, rfl, Or.inr ⟨r, ha, ?_, fun row ho => grant_keeps hf ho, hself i _⟩⟩
      intro row hrow
      show grant i (L.locks c _) w.owner row = some i
      rw [hrow]
      exact grant_self

/-- It is cut off, or it commits. -/
theorem Move.of_commit (hm : Move E L w e w') {k : Program Cmd Resp ε α} {env : Env}
    {ws : List Write} (ht : w.txs e.tx = .running ⟨.commit k, env, ws⟩) :
    (w'.committed = w.committed ∧ w'.log = w.log ∧ w'.txs e.tx = .done (.error E.fault))
      ∨ (w'.committed = E.view ws w.committed ∧ w'.log = w.log ++ [(e.tx, ws)]
        ∧ w'.txs e.tx = .running ⟨k, env, []⟩) := by
  have hself : ∀ i (t : Tx Cmd Resp ε Write Env α), Function.update w.txs i t i = t :=
    fun i t => Function.update_self ..
  cases hm with
  | aborted i p h => exact Or.inl ⟨rfl, rfl, hself i _⟩
  | committed i k' env' ws' h =>
      cases h.symm.trans ht
      exact Or.inr ⟨rfl, rfl, hself i _⟩
  | returned i a env' ws' h => exact absurd (h.symm.trans ht) (by simp)
  | raised i err env' ws' h => exact absurd (h.symm.trans ht) (by simp)
  | refused i c' k' env' ws' last err h hl ha => exact absurd (h.symm.trans ht) (by simp)
  | answered i c' k' env' ws' last r h hf hl ha => exact absurd (h.symm.trans ht) (by simp)

/-- It ends. -/
theorem Move.of_end (hm : Move E L w e w') {p : Point Cmd Resp ε Write Env α}
    (ht : w.txs e.tx = .running p) {o : Except ε α}
    (hp : p.prog = match o with | .ok a => .ret a | .error err => .raise err) :
    w'.committed = w.committed ∧ w'.log = w.log
      ∧ (w'.txs e.tx = .done o ∨ w'.txs e.tx = .done (.error E.fault)) := by
  have hself : ∀ i (t : Tx Cmd Resp ε Write Env α), Function.update w.txs i t i = t :=
    fun i t => Function.update_self ..
  cases hm with
  | aborted i q h => exact ⟨rfl, rfl, Or.inr (hself i _)⟩
  | returned i a env ws h =>
      obtain rfl := Tx.running.inj (h.symm.trans ht)
      cases o with
      | ok b =>
          obtain rfl : a = b := Program.ret.inj hp
          exact ⟨rfl, rfl, Or.inl (hself i _)⟩
      | error err => exact absurd hp (by simp)
  | raised i err env ws h =>
      obtain rfl := Tx.running.inj (h.symm.trans ht)
      cases o with
      | ok b => exact absurd hp (by simp)
      | error err' =>
          obtain rfl : err = err' := Program.raise.inj hp
          exact ⟨rfl, rfl, Or.inl (hself i _)⟩
  | committed i k env ws h =>
      obtain rfl := Tx.running.inj (h.symm.trans ht)
      cases o <;> exact absurd hp (by simp)
  | refused i c k env ws last err h hl ha =>
      obtain rfl := Tx.running.inj (h.symm.trans ht)
      cases o <;> exact absurd hp (by simp)
  | answered i c k env ws last r h hf hl ha =>
      obtain rfl := Tx.running.inj (h.symm.trans ht)
      cases o <;> exact absurd hp (by simp)

/-- An event of a renamed world is one of the world. -/
theorem Move.of_map {β : Type} {f : β → α} {u : World Cmd Resp ε Db Write Env Row Seq β}
    (hm : Move E L (u.map f) e v) : ∃ u', v = u'.map f ∧ Move E L u e u' := by
  cases hm with
  | aborted i q ht =>
      obtain ⟨p, hp, _⟩ := Tx.of_map ht
      exact ⟨_, (map_update f u i _ _ _ _ (.done (.error E.fault))).symm, .aborted i p hp⟩
  -- the renaming keeps the constructor: each move comes from the one of its own kind
  | returned i a env ws ht =>
      obtain ⟨⟨p, env', ws'⟩, hp, hq⟩ := Tx.of_map ht
      cases p with
      | ret b =>
          cases hq
          exact ⟨_, (map_update f u i _ _ _ _ (.done (.ok b))).symm, .returned i b env' ws' hp⟩
      | raise err => cases hq
      | commit k => cases hq
      | call c k => cases hq
  | raised i err env ws ht =>
      obtain ⟨⟨p, env', ws'⟩, hp, hq⟩ := Tx.of_map ht
      cases p with
      | raise err' =>
          cases hq
          exact ⟨_, (map_update f u i _ _ _ _ (.done (.error err))).symm, .raised i err env' ws' hp⟩
      | ret b => cases hq
      | commit k => cases hq
      | call c k => cases hq
  | committed i k env ws ht =>
      obtain ⟨⟨p, env', ws'⟩, hp, hq⟩ := Tx.of_map ht
      cases p with
      | commit k' =>
          cases hq
          exact ⟨_, (map_update f u i _ _ _ _ (.running ⟨k', env', []⟩)).symm,
            .committed i k' env' ws' hp⟩
      | ret b => cases hq
      | raise err => cases hq
      | call c k => cases hq
  | refused i c k env ws last err ht hl ha =>
      obtain ⟨⟨p, env', ws'⟩, hp, hq⟩ := Tx.of_map ht
      cases p with
      | call c' k' =>
          cases hq
          exact ⟨_, (map_update f u i _ last _ _ (.done (.error err))).symm,
            .refused i c k' env' ws' last err hp hl ha⟩
      | ret b => cases hq
      | raise err' => cases hq
      | commit k' => cases hq
  | answered i c k env ws last r ht hf hl ha =>
      obtain ⟨⟨p, env', ws'⟩, hp, hq⟩ := Tx.of_map ht
      cases p with
      | call c' k' =>
          cases hq
          exact ⟨_, (map_update f u i _ last _ _
            (.running ⟨k' r, E.next c env', ws' ++ E.writes c env'⟩)).symm,
            .answered i c k' env' ws' last r hp hf hl ha⟩
      | ret b => cases hq
      | raise err' => cases hq
      | commit k' => cases hq

/-! ## §4. Shadows. -/

/-- The transactions that are shown stand at the same points, the states are related. -/
structure Shadow (Q : Db → Db → Prop) (shared : Seq → Prop) (shown : Nat → Prop)
    (w v : World Cmd Resp ε Db Write Env Row Seq α) : Prop where
  state : Q w.committed v.committed
  owned : ∀ row i, v.owner row = some i → w.owner row = some i
  hidden : ∀ i, ¬ shown i → ∀ row, v.owner row ≠ some i
  last : ∀ s, shared s → v.last s ≤ w.last s
  txs : ∀ i, shown i → w.txs i = v.txs i

/-- Wherever the transaction goes next, it finds the same in both worlds. -/
structure Finds (E : Engine Cmd Resp ε Db Write Env) (L : Locking Cmd Db Env Row Seq)
    (Q : Db → Db → Prop) (shared : Seq → Prop) (db db' : Db) (p : Point Cmd Resp ε Write Env α) :
    Prop where
  answer : ∀ c k, p.prog = .call c k →
    E.answer c p.env (E.view p.staged db) = E.answer c p.env (E.view p.staged db')
  locks : ∀ c k, p.prog = .call c k →
    L.locks c (E.view p.staged db) = L.locks c (E.view p.staged db')
  draw : ∀ c k, p.prog = .call c k → ∀ s n, L.draw c p.env = some (s, n) → shared s
  commit : ∀ k, p.prog = .commit k → Q (E.view p.staged db) (E.view p.staged db')

variable {Q : Db → Db → Prop} {shared : Seq → Prop} {shown : Nat → Prop}

/-- **An event of a hidden transaction.** -/
theorem Shadow.stay (h : Shadow Q shared shown w v) (hm : Move E L w e w') (he : ¬ shown e.tx)
    (hQ : Q w'.committed v.committed) : Shadow Q shared shown w' v where
  state := hQ
  owned := by
    intro row i hi
    refine hm.owner_keeps (h.owned row i hi) ?_
    rintro rfl
    exact h.hidden _ he row hi
  hidden := h.hidden
  last := fun s hs => Int.le_trans (h.last s hs) (hm.last_le s)
  txs := by
    intro i hi
    rw [hm.others fun hie => he (hie ▸ hi)]
    exact h.txs i hi

omit [DecidableEq Row] [DecidableEq Seq] in
/-- **A transaction is given up.** -/
theorem Shadow.hide (h : Shadow Q shared shown w v) {i : Nat} (hi : ∀ row, v.owner row ≠ some i) :
    Shadow Q shared (fun j => shown j ∧ j ≠ i) w v where
  state := h.state
  owned := h.owned
  hidden := by
    intro j hj row
    by_cases hji : j = i
    · rw [hji]
      exact hi row
    · exact h.hidden j (fun hs => hj ⟨hs, hji⟩) row
  last := h.last
  txs := fun j hj => h.txs j hj.1

/-- The shadow moves with the world. -/
theorem Shadow.moved {v' : World Cmd Resp ε Db Write Env Row Seq α} (h : Shadow Q shared shown w v)
    (hm : Move E L w e w') (hm' : Move E L v e v') (he : shown e.tx)
    (hQ : Q w'.committed v'.committed) (hlast : ∀ s, shared s → v'.last s ≤ w'.last s)
    (hself : ∀ row, v'.owner row = some e.tx → w'.owner row = some e.tx)
    (htx : w'.txs e.tx = v'.txs e.tx) : Shadow Q shared shown w' v' where
  state := hQ
  owned := by
    intro row i hi
    by_cases hie : i = e.tx
    · subst hie
      exact hself row hi
    · exact hm.owner_keeps (h.owned row i (hm'.owner_gets hi hie)) hie
  hidden := by
    intro i hi row ho
    have hie : i ≠ e.tx := fun hie => hi (hie ▸ he)
    exact h.hidden i hi row (hm'.owner_gets ho hie)
  last := hlast
  txs := by
    intro i hi
    by_cases hie : i = e.tx
    · subst hie
      exact htx
    · rw [hm.others hie, hm'.others hie]
      exact h.txs i hi

/-- **An event of a transaction that is shown.** -/
theorem Shadow.follow (h : Shadow Q shared shown w v) (hm : Move E L w e w') (he : shown e.tx)
    (hfinds : ∀ p, w.txs e.tx = .running p → Finds E L Q shared w.committed v.committed p) :
    ∃ v', Move E L v e v' ∧ Shadow Q shared shown w' v' := by
  have hm₀ := hm
  have htx : ∀ i, shown i → v.txs i = w.txs i := fun i hi => (h.txs i hi).symm
  have hfree : ∀ (owner : Row → Option Nat) i row, release i owner row ≠ some i :=
    fun owner i row ho => (release_eq_some.mp ho).2 rfl
  have hself : ∀ i (t : Tx Cmd Resp ε Write Env α),
      Function.update w.txs i t i = Function.update v.txs i t i := by
    intro i t
    rw [Function.update_self, Function.update_self]
  cases hm with
  | aborted i p ht =>
      have hm' : Move E L v (.abort i) _ := .aborted i p ((htx i he).trans ht)
      exact ⟨_, hm', h.moved hm₀ hm' he h.state h.last (fun row ho => absurd ho (hfree _ i row))
        (hself i _)⟩
  | returned i a env ws ht =>
      have hm' : Move E L v (.step i) _ := .returned i a env ws ((htx i he).trans ht)
      exact ⟨_, hm', h.moved hm₀ hm' he h.state h.last (fun row ho => absurd ho (hfree _ i row))
        (hself i _)⟩
  | raised i err env ws ht =>
      have hm' : Move E L v (.step i) _ := .raised i err env ws ((htx i he).trans ht)
      exact ⟨_, hm', h.moved hm₀ hm' he h.state h.last (fun row ho => absurd ho (hfree _ i row))
        (hself i _)⟩
  -- the only move that changes the tables
  | committed i k env ws ht =>
      have hm' : Move E L v (.step i) _ := .committed i k env ws ((htx i he).trans ht)
      exact ⟨_, hm', h.moved hm₀ hm' he ((hfinds _ ht).commit k rfl) h.last
        (fun row ho => absurd ho (hfree _ i row)) (hself i _)⟩
  | refused i c k env ws last err ht hl ha =>
      obtain ⟨lower, hlower, hle⟩ := drawn_le hl ((hfinds _ ht).draw c k rfl) h.last
      have hm' : Move E L v (.step i) _ := .refused i c k env ws lower err ((htx i he).trans ht)
        hlower (((hfinds _ ht).answer c k rfl).symm.trans ha)
      exact ⟨_, hm', h.moved hm₀ hm' he h.state hle (fun row ho => absurd ho (hfree _ i row))
        (hself i _)⟩
  | answered i c k env ws last r ht hf hl ha =>
      obtain ⟨lower, hlower, hle⟩ := drawn_le hl ((hfinds _ ht).draw c k rfl) h.last
      -- it locks the same row there, and nobody there has a row that is free here
      have hlocks : L.locks c (E.view ws w.committed) = L.locks c (E.view ws v.committed) :=
        (hfinds _ ht).locks c k rfl
      have hf' : foreign i (L.locks c (E.view ws v.committed)) v.owner = false :=
        hlocks ▸ foreign_of_owned hf h.owned
      have hm' : Move E L v (.step i) _ := .answered i c k env ws lower r ((htx i he).trans ht) hf'
        hlower (((hfinds _ ht).answer c k rfl).symm.trans ha)
      refine ⟨_, hm', h.moved hm₀ hm' he h.state hle ?_ (hself i _)⟩
      intro row ho
      show grant i (L.locks c (E.view ws w.committed)) w.owner row = some i
      rcases grant_eq_some ho with ho | ⟨hrow, _⟩
      · exact grant_keeps hf (h.owned row i ho)
      · rw [hlocks, hrow]
        exact grant_self

end World

end Procurement.Framework
