/-
  Procurement.Framework.Readers
  ─────────────────────────────
  **TRANSACTIONS THAT ONLY READ.**

  A reader sends commands that stage nothing, lock nothing and draw nothing, and
  it never commits.  Beside other transactions two things can be said of it.

      it is invisible  — with the readers taken out, a run is a run, through the
                         same committed states (`Hides.run`)
      it samples       — every answer is read off some committed state, each one
                         no earlier than the one before (`Sampled`, `samples_of_run`)

  What it may not be said to do is to read one state: between two of its commands
  others commit.
-/
import Procurement.Framework.Discipline

namespace Procurement.Framework

variable {Cmd : Type} {Resp : Cmd → Type} {ε Db Write Env Row Seq α β : Type}
variable [DecidableEq Row] [DecidableEq Seq]

/-! ## §1. Results under another name. -/

/-- The program with its value renamed. -/
def Program.map (f : α → β) (p : Program Cmd Resp ε α) : Program Cmd Resp ε β :=
  p.bind fun a => .ret (f a)

theorem Program.Uses.mono {P Q : Cmd → Prop} {p : Program Cmd Resp ε α} (h : p.Uses P)
    (hPQ : ∀ c, P c → Q c) : p.Uses Q := by
  induction p with
  | ret a => trivial
  | raise e => trivial
  | commit k _ => exact h.elim
  | call c k ih => exact ⟨hPQ c h.1, fun r => ih r (h.2 r)⟩

theorem Program.Uses.map {P : Cmd → Prop} {p : Program Cmd Resp ε α} (h : p.Uses P) (f : α → β) :
    (p.map f).Uses P :=
  Program.Uses.bind h fun _ => trivial

def Tx.map (f : α → β) : Tx Cmd Resp ε Write Env α → Tx Cmd Resp ε Write Env β
  | .running ⟨p, env, ws⟩ => .running ⟨p.map f, env, ws⟩
  | .done o => .done (o.map f)

namespace World

variable (E : Engine Cmd Resp ε Db Write Env) (L : Locking Cmd Db Env Row Seq)

def map (f : α → β) (w : World Cmd Resp ε Db Write Env Row Seq α) :
    World Cmd Resp ε Db Write Env Row Seq β where
  committed := w.committed
  owner := w.owner
  last := w.last
  txs i := (w.txs i).map f
  log := w.log

section
variable (f : α → β) (w : World Cmd Resp ε Db Write Env Row Seq α) (i : Nat)

omit [DecidableEq Row] [DecidableEq Seq] in
/-- One transaction has moved on. -/
theorem map_update (owner : Row → Option Nat) (last : Seq → Int) (db : Db)
    (log : List (Nat × List Write)) (t : Tx Cmd Resp ε Write Env α) :
    map f ⟨db, owner, last, Function.update w.txs i t, log⟩
      = ⟨db, owner, last, Function.update (w.map f).txs i (t.map f), log⟩ := by
  unfold map
  congr 1
  funext j
  by_cases hj : j = i
  · subst hj
    show Tx.map f (Function.update w.txs j t j)
      = Function.update (fun k => (w.txs k).map f) j (t.map f) j
    rw [Function.update_self, Function.update_self]
  · show Tx.map f (Function.update w.txs i t j)
      = Function.update (fun k => (w.txs k).map f) i (t.map f) j
    rw [Function.update_of_ne hj, Function.update_of_ne hj]

theorem map_send (c : Cmd) (k : Resp c → Program Cmd Resp ε α) (env : Env) (ws : List Write) :
    (w.map f).send E L i c (fun r => (k r).map f) env ws
      = (w.send E L i c k env ws).map (map f) := by
  have hcommitted : (w.map f).committed = w.committed := rfl
  have howner : (w.map f).owner = w.owner := rfl
  have hlast : (w.map f).last = w.last := rfl
  simp only [send, hcommitted, howner, hlast]
  split
  · rfl
  · cases drawn (L.draw c env) w.last with
    | none => rfl
    | some last =>
        cases E.answer c env (E.view ws w.committed) with
        | error e => exact congrArg some (map_update f w i _ last _ _ (.done (.error e))).symm
        | ok r =>
            exact congrArg some (map_update f w i _ last _ _
              (.running ⟨k r, E.next c env, ws ++ E.writes c env⟩)).symm

/-- **Renaming the results of a world.** -/
theorem map_next (e : Event) : (w.map f).next E L e = (w.next E L e).map (map f) := by
  cases e with
  | abort i =>
      have htx : (w.map f).txs i = (w.txs i).map f := rfl
      simp only [next, htx]
      cases w.txs i with
      | done o => rfl
      | running p => exact congrArg some (map_update f w i _ _ _ _ (.done (.error E.fault))).symm
  | step i =>
      have htx : (w.map f).txs i = (w.txs i).map f := rfl
      simp only [next, htx]
      cases w.txs i with
      | done o => rfl
      | running p =>
          obtain ⟨p, env, ws⟩ := p
          cases p with
          | ret a => exact congrArg some (map_update f w i _ _ _ _ (.done (.ok a))).symm
          | raise e => exact congrArg some (map_update f w i _ _ _ _ (.done (.error e))).symm
          | commit k => exact congrArg some (map_update f w i _ _ _ _ (.running ⟨k, env, []⟩)).symm
          | call c k => exact map_send E L f w i c k env ws

/-- A run of the renamed world is a renamed run. -/
theorem Run.of_map {w : World Cmd Resp ε Db Write Env Row Seq α}
    {v : World Cmd Resp ε Db Write Env Row Seq β} (h : Run E L anyStep (w.map f) v) :
    ∃ w', v = w'.map f ∧ Run E L anyStep w w' := by
  generalize hw : w.map f = u at h
  induction h with
  | refl => exact ⟨w, hw.symm, .refl⟩
  | tail _ hn ih =>
      obtain ⟨w', rfl, hrun⟩ := ih
      obtain ⟨e, _, hnext⟩ := hn
      rw [map_next] at hnext
      obtain ⟨w'', hstep, rfl⟩ := Option.map_eq_some_iff.mp hnext
      exact ⟨w'', rfl, hrun.tail ⟨e, trivial, hstep⟩⟩

end

/-! ## §2. Readers. -/

/-- A command that waits for nobody and leaves nothing, and is answered on every state. -/
structure Reads (c : Cmd) : Prop where
  locks : ∀ db, L.locks c db = none
  draw : ∀ env, L.draw c env = none
  writes : ∀ env, E.writes c env = []
  next : ∀ env, E.next c env = env
  answered : ∀ env db, ∃ r, E.answer c env db = .ok r

/-- A reader, wherever it stands. -/
def Reading : Tx Cmd Resp ε Write Env α → Prop
  | .running p => p.prog.Uses (Reads E L) ∧ p.staged = []
  | .done _ => True

omit [DecidableEq Row] in
/-- Who owns no row releases none. -/
theorem release_free {i : Nat} {owner : Row → Option Nat} (h : ∀ row, owner row ≠ some i) :
    release i owner = owner := by
  funext row
  exact if_neg (h row)

section
variable {w w' v : World Cmd Resp ε Db Write Env Row Seq α} {e : Event}

/-- **What an event of a reader does**: it moves the reader, and nothing else. -/
theorem Move.reading (hm : Move E L w e w') (hr : Reading E L (w.txs e.tx))
    (hfree : ∀ row, w.owner row ≠ some e.tx) :
    ∃ t, Reading E L t ∧ w' = { w with txs := Function.update w.txs e.tx t } := by
  have hdone : ∀ i, (∀ row, w.owner row ≠ some i) → ∀ o : Except ε α,
      w.finish i o = { w with txs := Function.update w.txs i (.done o) } := by
    intro i hi o
    unfold finish
    rw [release_free hi]
  cases hm with
  | aborted i p ht => exact ⟨.done (.error E.fault), trivial, hdone i hfree _⟩
  | returned i a env ws ht => exact ⟨.done (.ok a), trivial, hdone i hfree _⟩
  | raised i e env ws ht => exact ⟨.done (.error e), trivial, hdone i hfree _⟩
  | committed i k env ws ht =>
      change Reading E L (w.txs i) at hr
      rw [ht] at hr
      exact hr.1.elim
  | refused i c k env ws last e ht hl ha =>
      change Reading E L (w.txs i) at hr
      rw [ht] at hr
      -- a reader's statement is never refused
      obtain ⟨r, hanswer⟩ := hr.1.1.answered env (E.view ws w.committed)
      exact absurd (ha.symm.trans hanswer) (by simp)
  | answered i c k env ws last r ht hf hl ha =>
      change Reading E L (w.txs i) at hr
      rw [ht] at hr
      obtain ⟨⟨hc, hk⟩, hstaged⟩ := hr
      obtain rfl : ws = [] := hstaged
      rw [hc.draw] at hl
      obtain rfl : w.last = last := Option.some.inj hl
      refine ⟨.running ⟨k r, E.next c env, [] ++ E.writes c env⟩, ⟨hk r, ?_⟩, ?_⟩
      · show [] ++ E.writes c env = []
        rw [hc.writes]
        rfl
      · rw [hc.locks]
        rfl

/-- **A reader never waits.** -/
theorem next_reading {i : Nat} (hr : Reading E L (w.txs i)) (hopen : ∀ o, w.txs i ≠ .done o) :
    ∃ w', w.next E L (.step i) = some w' := by
  cases ht : w.txs i with
  | done o => exact absurd ht (hopen o)
  | running p =>
      obtain ⟨p, env, ws⟩ := p
      rw [ht] at hr
      cases p with
      | ret a =>
          refine ⟨w.finish i (.ok a), ?_⟩
          simp only [next, ht]
      | raise e =>
          refine ⟨w.finish i (.error e), ?_⟩
          simp only [next, ht]
      | commit k => exact hr.1.elim
      | call c k =>
          obtain ⟨hc, _⟩ := hr.1
          obtain ⟨r, hanswer⟩ := hc.answered env (E.view ws w.committed)
          have hfree : foreign i (L.locks c (E.view ws w.committed)) w.owner = false := by
            rw [hc.locks]
            rfl
          simp only [next, ht, send, hfree, hc.draw, drawn, hanswer, Bool.false_eq_true, if_false]
          exact ⟨_, rfl⟩

/-- What an event leaves is a function of its own transaction and of what is shared. -/
theorem next_others (txs : Nat → Tx Cmd Resp ε Write Env α) (e : Event)
    (h : txs e.tx = w.txs e.tx) :
    ({ w with txs := txs } : World Cmd Resp ε Db Write Env Row Seq α).next E L e
      = (w.next E L e).map fun w' =>
          { w' with txs := Function.update txs e.tx (w'.txs e.tx) } := by
  have hself : ∀ i t, Function.update txs i (Function.update w.txs i t i)
      = Function.update txs i t := by
    intro i t
    rw [Function.update_self]
  cases e with
  | abort i =>
      change txs i = w.txs i at h
      simp only [next, h]
      cases w.txs i with
      | done o => rfl
      | running p => simp only [finish, Option.map_some, Event.tx, hself]
  | step i =>
      change txs i = w.txs i at h
      simp only [next, h]
      cases w.txs i with
      | done o => rfl
      | running p =>
          obtain ⟨p, env, ws⟩ := p
          cases p with
          | ret a => simp only [finish, Option.map_some, Event.tx, hself]
          | raise e => simp only [finish, Option.map_some, Event.tx, hself]
          | commit k => simp only [Option.map_some, Event.tx, hself]
          | call c k =>
              -- a wait, a number already passed, a refusal, an answer: each is about what is shared
              simp only [send]
              split
              · rfl
              · split
                · rfl
                · split
                  · simp only [finish, Option.map_some, Event.tx, hself]
                  · simp only [Option.map_some, Event.tx, hself]

/-! ## §3. Readers are invisible. -/

/-- The two worlds differ in the readers only. -/
structure Hides (reader : Nat → Prop) (w v : World Cmd Resp ε Db Write Env Row Seq α) : Prop where
  committed : w.committed = v.committed
  owner : w.owner = v.owner
  last : w.last = v.last
  log : w.log = v.log
  others : ∀ i, ¬ reader i → w.txs i = v.txs i
  reading : ∀ i, reader i → Reading E L (w.txs i)
  free : ∀ i, reader i → ∀ row, w.owner row ≠ some i
  logged : ∀ entry ∈ w.log, ¬ reader entry.1

variable {E L} {reader : Nat → Prop}

/-- An event of a reader is no event of the others. -/
theorem Hides.read (h : Hides E L reader w v) (hm : Move E L w e w') (he : reader e.tx) :
    Hides E L reader w' v := by
  obtain ⟨t, ht, rfl⟩ := hm.reading E L (h.reading _ he) (h.free _ he)
  refine ⟨h.committed, h.owner, h.last, h.log, ?_, ?_, h.free, h.logged⟩
  · intro i hi
    refine Eq.trans (Function.update_of_ne ?_ ..) (h.others i hi)
    exact fun hie => hi (hie ▸ he)
  · intro i hi
    by_cases hie : i = e.tx
    · subst hie
      show Reading E L (Function.update w.txs e.tx t e.tx)
      rwa [Function.update_self]
    · show Reading E L (Function.update w.txs e.tx t i)
      rw [Function.update_of_ne hie]
      exact h.reading i hi

/-- The others cannot tell the two worlds apart. -/
theorem Hides.next (h : Hides E L reader w v) (hn : w.next E L e = some w') (he : ¬ reader e.tx) :
    ∃ v', v.next E L e = some v' ∧ Hides E L reader w' v' := by
  have hm := next_cases E L hn
  have hv : v = { w with txs := v.txs } := by
    obtain ⟨hcommitted, howner, hlast, hlog, _, _, _⟩ := h
    cases v
    congr
    · exact hcommitted.symm
    · exact howner.symm
    · exact hlast.symm
    · exact hlog.symm
  refine ⟨{ w' with txs := Function.update v.txs e.tx (w'.txs e.tx) }, ?_, rfl, rfl, rfl, rfl,
    ?_, ?_, ?_, ?_⟩
  · rw [hv, next_others E L v.txs e (h.others _ he).symm, hn]
    rfl
  · intro i hi
    by_cases hie : i = e.tx
    · subst hie
      show w'.txs e.tx = Function.update v.txs e.tx (w'.txs e.tx) e.tx
      rw [Function.update_self]
    · show w'.txs i = Function.update v.txs e.tx (w'.txs e.tx) i
      rw [Function.update_of_ne hie, hm.others hie]
      exact h.others i hi
  · intro i hi
    have hie : i ≠ e.tx := fun hie => he (hie ▸ hi)
    rw [hm.others hie]
    exact h.reading i hi
  · intro i hi row howns
    have hie : i ≠ e.tx := fun hie => he (hie ▸ hi)
    -- a row is released, or granted to the other
    cases hm with
    | answered j c k env ws last r ht hf hl ha =>
        rcases grant_eq_some howns with howns | ⟨_, hj⟩
        · exact h.free i hi row howns
        · exact hie hj
    | _ => exact h.free i hi row (release_eq_some.mp howns).1
  · intro entry hentry
    cases hm with
    | committed j k env ws ht =>
        rcases List.mem_append.mp hentry with hentry | hentry
        · exact h.logged entry hentry
        · obtain rfl := List.mem_singleton.mp hentry
          exact he
    | _ => exact h.logged entry hentry

/-- **With the readers taken out, a run is a run.** -/
theorem Hides.run (h : Hides E L reader w v) (hrun : Run E L anyStep w w') :
    ∃ v', Run E L anyStep v v' ∧ Hides E L reader w' v' := by
  induction hrun with
  | refl => exact ⟨v, .refl, h⟩
  | tail _ hn ih =>
      obtain ⟨v', hrun', h'⟩ := ih
      obtain ⟨e, _, hnext⟩ := hn
      by_cases he : reader e.tx
      · exact ⟨v', hrun', h'.read (next_cases E L hnext) he⟩
      · obtain ⟨v'', hstep, h''⟩ := h'.next hnext he
        exact ⟨v'', hrun'.tail ⟨e, trivial, hstep⟩, h''⟩

end

/-! ## §4. Readers sample. -/

/-- Started in the world `u`, the program has come to its end `o` in the world `v`, and
each command has been answered by the committed state of a world on the way. -/
inductive Sampled (E : Engine Cmd Resp ε Db Write Env) (L : Locking Cmd Db Env Row Seq) (env : Env) :
    World Cmd Resp ε Db Write Env Row Seq α → Program Cmd Resp ε β →
      World Cmd Resp ε Db Write Env Row Seq α → Except ε β → Prop where
  | ret {u v : World Cmd Resp ε Db Write Env Row Seq α} {b : β} (h : Run E L anyStep u v) :
      Sampled E L env u (.ret b) v (.ok b)
  | raise {u v : World Cmd Resp ε Db Write Env Row Seq α} {e : ε} (h : Run E L anyStep u v) :
      Sampled E L env u (.raise e) v (.error e)
  | call {u m v : World Cmd Resp ε Db Write Env Row Seq α} {c : Cmd}
      {k : Resp c → Program Cmd Resp ε β} {r : Resp c} {o : Except ε β}
      (h : Run E L anyStep u m) (ha : E.answer c env m.committed = .ok r)
      (rest : Sampled E L env m (k r) v o) : Sampled E L env u (.call c k) v o

section
variable {E : Engine Cmd Resp ε Db Write Env} {L : Locking Cmd Db Env Row Seq} {env : Env}
variable {u u' v v' w w' : World Cmd Resp ε Db Write Env Row Seq α}
variable {p : Program Cmd Resp ε β} {o : Except ε β}

theorem Sampled.run (h : Sampled E L env u p v o) : Run E L anyStep u v := by
  induction h with
  | ret h => exact h
  | raise h => exact h
  | call h _ _ ih => exact Relation.ReflTransGen.trans h ih

/-- The start may be earlier. -/
theorem Sampled.since (h : Sampled E L env u p v o) (hrun : Run E L anyStep u' u) :
    Sampled E L env u' p v o := by
  cases h with
  | ret h => exact .ret (Relation.ReflTransGen.trans hrun h)
  | raise h => exact .raise (Relation.ReflTransGen.trans hrun h)
  | call h ha rest => exact .call (Relation.ReflTransGen.trans hrun h) ha rest

/-- The end may be later. -/
theorem Sampled.until (h : Sampled E L env u p v o) (hrun : Run E L anyStep v v') :
    Sampled E L env u p v' o := by
  induction h with
  | ret h => exact .ret (Relation.ReflTransGen.trans h hrun)
  | raise h => exact .raise (Relation.ReflTransGen.trans h hrun)
  | call h ha _ ih => exact .call h ha (ih hrun)

/-- One program behind the other: an error of the first, or its value and the second. -/
theorem Sampled.bind {γ : Type} {p : Program Cmd Resp ε γ} {f : γ → Program Cmd Resp ε β}
    (h : Sampled E L env u (p >>= f) v o) :
    (∃ e, o = .error e ∧ Sampled E L env u p v (.error e))
      ∨ ∃ a m, Sampled E L env u p m (.ok a) ∧ Sampled E L env m (f a) v o := by
  induction p generalizing u with
  | ret a => exact Or.inr ⟨a, u, .ret .refl, h⟩
  | raise e =>
      cases h with
      | raise hrun => exact Or.inl ⟨e, rfl, .raise hrun⟩
  | commit k _ => cases h
  | call c k ih =>
      cases h with
      | call hrun ha rest =>
          rcases ih _ rest with ⟨e, rfl, he⟩ | ⟨a, m, hp, hf⟩
          · exact Or.inl ⟨e, rfl, .call hrun ha he⟩
          · exact Or.inr ⟨a, m, .call hrun ha hp, hf⟩

/-- The samples of a program with its value renamed. -/
theorem Sampled.of_map {γ : Type} {p : Program Cmd Resp ε γ} {f : γ → β}
    (h : Sampled E L env u (p.map f) v o) : ∃ o', o = o'.map f ∧ Sampled E L env u p v o' := by
  rcases Sampled.bind (f := fun a => .ret (f a)) h with ⟨e, rfl, he⟩ | ⟨a, m, hp, hf⟩
  · exact ⟨.error e, rfl, he⟩
  · cases hf with
    | ret hrun => exact ⟨.ok a, rfl, hp.until hrun⟩

/-- How far a reader has come: what is left of its program continues its samples. -/
def Sampling (E : Engine Cmd Resp ε Db Write Env) (L : Locking Cmd Db Env Row Seq) (env : Env)
    (u : World Cmd Resp ε Db Write Env Row Seq α) (p : Program Cmd Resp ε α)
    (w : World Cmd Resp ε Db Write Env Row Seq α) : Tx Cmd Resp ε Write Env α → Prop
  | .running q => q.env = env ∧ q.staged = [] ∧ q.prog.Uses (Reads E L)
      ∧ ∀ v o, Sampled E L env w q.prog v o → Sampled E L env u p v o
  | .done o => o = .error E.fault ∨ Sampled E L env u p w o

/-- Others move on. -/
theorem Sampling.later {p : Program Cmd Resp ε α} {t : Tx Cmd Resp ε Write Env α}
    (h : Sampling E L env u p w t) (hrun : Run E L anyStep w w') : Sampling E L env u p w' t := by
  cases t with
  | running q =>
      obtain ⟨henv, hws, huses, hsamples⟩ := h
      exact ⟨henv, hws, huses, fun v o ho => hsamples v o (ho.since hrun)⟩
  | done o => exact h.imp_right fun ho => ho.until hrun

/-- The reader itself moves on. -/
theorem Sampling.move {p : Program Cmd Resp ε α} {e : Event}
    (h : Sampling E L env u p w (w.txs e.tx)) (hn : w.next E L e = some w') :
    Sampling E L env u p w' (w'.txs e.tx) := by
  have hrun : Run E L anyStep w w' := .single ⟨e, trivial, hn⟩
  have hself : ∀ i t, Function.update w.txs i t i = t := fun i t => Function.update_self ..
  cases next_cases E L hn with
  | aborted i q ht =>
      show Sampling E L env u p _ (Function.update w.txs i _ i)
      rw [hself]
      exact Or.inl rfl
  | returned i a env' ws ht =>
      change Sampling E L env u p w (w.txs i) at h
      rw [ht] at h
      show Sampling E L env u p _ (Function.update w.txs i _ i)
      rw [hself]
      exact Or.inr (h.2.2.2 _ _ (.ret hrun))
  | raised i e' env' ws ht =>
      change Sampling E L env u p w (w.txs i) at h
      rw [ht] at h
      show Sampling E L env u p _ (Function.update w.txs i _ i)
      rw [hself]
      exact Or.inr (h.2.2.2 _ _ (.raise hrun))
  | committed i k env' ws ht =>
      change Sampling E L env u p w (w.txs i) at h
      rw [ht] at h
      exact h.2.2.1.elim
  | refused i c k env' ws last e' ht hl ha =>
      change Sampling E L env u p w (w.txs i) at h
      rw [ht] at h
      obtain ⟨r, hanswer⟩ := h.2.2.1.1.answered env' (E.view ws w.committed)
      exact absurd (ha.symm.trans hanswer) (by simp)
  | answered i c k env' ws last r ht hf hl ha =>
      change Sampling E L env u p w (w.txs i) at h
      rw [ht] at h
      obtain ⟨rfl, rfl, ⟨hc, hk⟩, hsamples⟩ := h
      show Sampling E L _ u p _ (Function.update w.txs i _ i)
      rw [hself]
      -- the answer was taken here: what the rest samples, the whole samples behind it
      refine ⟨hc.next _, ?_, hk r, fun v o ho => hsamples v o (.call .refl ha (ho.since hrun))⟩
      show [] ++ E.writes c _ = []
      rw [hc.writes]
      rfl

/-- **A reader that has ended has sampled** since any moment at which it had not begun,
unless it was aborted. -/
theorem samples_of_run {p : Program Cmd Resp ε α} {i : Nat} (hbegin : u.txs i = .running ⟨p, env, []⟩)
    (hrun : Run E L anyStep u w) (hp : p.Uses (Reads E L)) {o : Except ε α}
    (hdone : w.txs i = .done o) : o = .error E.fault ∨ Sampled E L env u p w o := by
  have hinv : Sampling E L env u p w (w.txs i) := by
    clear hdone
    induction hrun with
    | refl =>
        rw [hbegin]
        exact ⟨rfl, rfl, hp, fun v o ho => ho⟩
    | tail _ hn ih =>
        obtain ⟨e, _, hnext⟩ := hn
        by_cases he : i = e.tx
        · subst he
          exact ih.move hnext
        · rw [(next_cases E L hnext).others he]
          exact ih.later (.single ⟨e, trivial, hnext⟩)
  rw [hdone] at hinv
  exact hinv

end

end World

end Procurement.Framework
