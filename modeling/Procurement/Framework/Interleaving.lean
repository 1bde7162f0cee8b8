/-
  Procurement.Framework.Interleaving
  ──────────────────────────────────
  **TRANSACTIONS SIDE BY SIDE** (READ COMMITTED with row locks).

  A world holds the committed state, who owns which row lock, the last value of
  every sequence, and one transaction for each number.  One event is one
  command of one transaction, its end, or its abort:

    • a command reads the latest committed state with the transaction's own
      writes on top;
    • a command that locks a row waits while another transaction owns it, and
      reads when it is granted; the lock is kept until the transaction ends;
    • a value drawn from a sequence is greater than all values drawn before;
    • a commit publishes all staged writes at once and is logged; a transaction
      that raises or is aborted leaves nothing.

  `next_cases` lists what an event can do; every invariant of worlds is proved
  from it (`Run.invariant`).
-/
import Mathlib.Logic.Function.Basic
import Mathlib.Logic.Relation
import Procurement.Framework.Replay

namespace Procurement.Framework

variable {Cmd : Type} {Resp : Cmd → Type} {ε Db Write Env Row Seq α : Type}
variable [DecidableEq Row] [DecidableEq Seq]

/-! ## §1. Worlds. -/

/-- The row a command locks, given what its session reads, and the value it
draws from a sequence. -/
structure Locking (Cmd Db Env Row Seq : Type) where
  locks : Cmd → Db → Option Row
  draw : Cmd → Env → Option (Seq × Int)

inductive Tx (Cmd : Type) (Resp : Cmd → Type) (ε Write Env α : Type) where
  | running (p : Point Cmd Resp ε Write Env α)
  | done (outcome : Except ε α)

structure World (Cmd : Type) (Resp : Cmd → Type) (ε Db Write Env Row Seq α : Type) where
  committed : Db
  owner : Row → Option Nat
  last : Seq → Int
  txs : Nat → Tx Cmd Resp ε Write Env α
  /-- The commits, in their order. -/
  log : List (Nat × List Write)

/-- One command or the end of a transaction, or its abort. -/
inductive Event where
  | step (i : Nat)
  | abort (i : Nat)
  deriving DecidableEq, Repr

/-- The transaction an event concerns. -/
def Event.tx : Event → Nat
  | .step i | .abort i => i

/-- The locks when `i` has released its own. -/
def release (i : Nat) (owner : Row → Option Nat) : Row → Option Nat :=
  fun row => if owner row = some i then none else owner row

/-- The locks when `i` has been granted a row. -/
def grant (i : Nat) (row : Option Row) (owner : Row → Option Nat) : Row → Option Nat :=
  match row with
  | none => owner
  | some row => Function.update owner row (some i)

/-- The sequences when a value has been drawn, if it may be. -/
def drawn (value : Option (Seq × Int)) (last : Seq → Int) : Option (Seq → Int) :=
  match value with
  | none => some last
  | some (s, n) => if last s < n then some (Function.update last s n) else none

/-- Another transaction owns the row. -/
def foreign (i : Nat) (row : Option Row) (owner : Row → Option Nat) : Bool :=
  (row.bind owner).any fun j => j ≠ i

namespace World

/-- All transactions stand before their first command, and nothing is locked. -/
def start (db : Db) (last : Seq → Int) (programs : Nat → Program Cmd Resp ε α)
    (envs : Nat → Env) : World Cmd Resp ε Db Write Env Row Seq α where
  committed := db
  owner _ := none
  last := last
  txs i := .running ⟨programs i, envs i, []⟩
  log := []

/-- The transaction ends: whatever it has staged is gone, its locks are free. -/
def finish (w : World Cmd Resp ε Db Write Env Row Seq α) (i : Nat) (o : Except ε α) :
    World Cmd Resp ε Db Write Env Row Seq α :=
  { w with owner := release i w.owner, txs := Function.update w.txs i (.done o) }

variable (E : Engine Cmd Resp ε Db Write Env) (L : Locking Cmd Db Env Row Seq)

/-- The next command of a transaction that sends `c`. -/
def send (w : World Cmd Resp ε Db Write Env Row Seq α) (i : Nat) (c : Cmd)
    (k : Resp c → Program Cmd Resp ε α) (env : Env) (ws : List Write) :
    Option (World Cmd Resp ε Db Write Env Row Seq α) :=
  let db := E.view ws w.committed
  if foreign i (L.locks c db) w.owner then none
  else match drawn (L.draw c env) w.last with
    | none => none
    | some last => match E.answer c env db with
      | .error e => some { w.finish i (.error e) with last := last }
      | .ok r => some
          { w with
            owner := grant i (L.locks c db) w.owner
            last := last
            txs := Function.update w.txs i
              (.running ⟨k r, E.next c env, ws ++ E.writes c env⟩) }

/-- The world after an event, if the event can happen. -/
def next (w : World Cmd Resp ε Db Write Env Row Seq α) :
    Event → Option (World Cmd Resp ε Db Write Env Row Seq α)
  | .abort i => match w.txs i with
    | .done _ => none
    | .running _ => some (w.finish i (.error E.fault))
  | .step i => match w.txs i with
    | .done _ => none
    | .running ⟨.ret a, _, _⟩ => some (w.finish i (.ok a))
    | .running ⟨.raise e, _, _⟩ => some (w.finish i (.error e))
    | .running ⟨.commit k, env, ws⟩ => some
        { w with
          committed := E.view ws w.committed
          owner := release i w.owner
          txs := Function.update w.txs i (.running ⟨k, env, []⟩)
          log := w.log ++ [(i, ws)] }
    | .running ⟨.call c k, env, ws⟩ => w.send E L i c k env ws

/-- The next command of transaction `i`. -/
def sends (w : World Cmd Resp ε Db Write Env Row Seq α) (i : Nat) : Option Cmd :=
  match w.txs i with
  | .running ⟨.call c _, _, _⟩ => some c
  | _ => none

/-- The row that transaction `i` asks for with its next command. -/
def wants (w : World Cmd Resp ε Db Write Env Row Seq α) (i : Nat) : Option Row :=
  match w.txs i with
  | .running ⟨.call c _, _, ws⟩ => L.locks c (E.view ws w.committed)
  | _ => none

/-- `i` waits for `j` on a row of the kind `K`. -/
def WaitsFor (K : Row → Prop) (w : World Cmd Resp ε Db Write Env Row Seq α) (i j : Nat) : Prop :=
  ∃ row, K row ∧ w.wants E L i = some row ∧ w.owner row = some j ∧ j ≠ i

/-- A run from `w` to `w'` all of whose steps meet the condition. -/
def Run (ok : World Cmd Resp ε Db Write Env Row Seq α → Event → Prop) :
    World Cmd Resp ε Db Write Env Row Seq α → World Cmd Resp ε Db Write Env Row Seq α → Prop :=
  Relation.ReflTransGen fun w w' => ∃ e, ok w e ∧ w.next E L e = some w'

/-- Several events, as long as each can happen and meets the condition. -/
def runs (ok : World Cmd Resp ε Db Write Env Row Seq α → Event → Prop)
    [∀ w e, Decidable (ok w e)] (w : World Cmd Resp ε Db Write Env Row Seq α) :
    List Event → Option (World Cmd Resp ε Db Write Env Row Seq α)
  | [] => some w
  | e :: es => if ok w e then (w.next E L e).bind fun w' => runs ok w' es else none

/-- The condition that every step meets. -/
def anyStep : World Cmd Resp ε Db Write Env Row Seq α → Event → Prop := fun _ _ => True

instance (w : World Cmd Resp ε Db Write Env Row Seq α) (e : Event) : Decidable (anyStep w e) :=
  .isTrue trivial

/-! ## §2. What an event does. -/

/-- The cases of `next`. -/
inductive Move (w : World Cmd Resp ε Db Write Env Row Seq α) :
    Event → World Cmd Resp ε Db Write Env Row Seq α → Prop where
  | aborted (i : Nat) (p : Point Cmd Resp ε Write Env α) (h : w.txs i = .running p) :
      Move w (.abort i) (w.finish i (.error E.fault))
  | returned (i : Nat) (a : α) (env : Env) (ws : List Write)
      (h : w.txs i = .running ⟨.ret a, env, ws⟩) : Move w (.step i) (w.finish i (.ok a))
  | raised (i : Nat) (e : ε) (env : Env) (ws : List Write)
      (h : w.txs i = .running ⟨.raise e, env, ws⟩) : Move w (.step i) (w.finish i (.error e))
  | committed (i : Nat) (k : Program Cmd Resp ε α) (env : Env) (ws : List Write)
      (h : w.txs i = .running ⟨.commit k, env, ws⟩) :
      Move w (.step i)
        { w with
          committed := E.view ws w.committed
          owner := release i w.owner
          txs := Function.update w.txs i (.running ⟨k, env, []⟩)
          log := w.log ++ [(i, ws)] }
  | refused (i : Nat) (c : Cmd) (k : Resp c → Program Cmd Resp ε α) (env : Env)
      (ws : List Write) (last : Seq → Int) (e : ε)
      (h : w.txs i = .running ⟨.call c k, env, ws⟩)
      (hl : drawn (L.draw c env) w.last = some last)
      (ha : E.answer c env (E.view ws w.committed) = .error e) :
      Move w (.step i) { w.finish i (.error e) with last := last }
  | answered (i : Nat) (c : Cmd) (k : Resp c → Program Cmd Resp ε α) (env : Env)
      (ws : List Write) (last : Seq → Int) (r : Resp c)
      (h : w.txs i = .running ⟨.call c k, env, ws⟩)
      (hf : foreign i (L.locks c (E.view ws w.committed)) w.owner = false)
      (hl : drawn (L.draw c env) w.last = some last)
      (ha : E.answer c env (E.view ws w.committed) = .ok r) :
      Move w (.step i)
        { w with
          owner := grant i (L.locks c (E.view ws w.committed)) w.owner
          last := last
          txs := Function.update w.txs i
            (.running ⟨k r, E.next c env, ws ++ E.writes c env⟩) }

theorem send_cases {w w' : World Cmd Resp ε Db Write Env Row Seq α} {i : Nat} {c : Cmd}
    {k : Resp c → Program Cmd Resp ε α} {env : Env} {ws : List Write}
    (ht : w.txs i = .running ⟨.call c k, env, ws⟩) (h : w.send E L i c k env ws = some w') :
    Move E L w (.step i) w' := by
  unfold send at h
  by_cases hf : foreign i (L.locks c (E.view ws w.committed)) w.owner = true
  · -- the command waits
    simp [hf] at h
  · simp only [hf, Bool.false_eq_true, if_false] at h
    cases hl : drawn (L.draw c env) w.last with
    | none => simp [hl] at h
    | some last =>
        simp only [hl] at h
        cases ha : E.answer c env (E.view ws w.committed) with
        | error e =>
            simp only [ha] at h
            obtain rfl := Option.some.inj h
            exact .refused i c k env ws last e ht hl ha
        | ok r =>
            simp only [ha] at h
            obtain rfl := Option.some.inj h
            exact .answered i c k env ws last r ht (by simpa using hf) hl ha

/-- **Every event is one of the cases.** -/
theorem next_cases {w w' : World Cmd Resp ε Db Write Env Row Seq α} {e : Event}
    (h : w.next E L e = some w') : Move E L w e w' := by
  cases e with
  | abort i =>
      simp only [next] at h
      cases ht : w.txs i with
      | done o => simp [ht] at h
      | running p =>
          simp only [ht] at h
          obtain rfl := Option.some.inj h
          exact .aborted i p ht
  | step i =>
      simp only [next] at h
      match ht : w.txs i with
      | .done o => simp [ht] at h
      | .running ⟨.ret a, env, ws⟩ =>
          simp only [ht] at h
          obtain rfl := Option.some.inj h
          exact .returned i a env ws ht
      | .running ⟨.raise e, env, ws⟩ =>
          simp only [ht] at h
          obtain rfl := Option.some.inj h
          exact .raised i e env ws ht
      | .running ⟨.commit k, env, ws⟩ =>
          simp only [ht] at h
          obtain rfl := Option.some.inj h
          exact .committed i k env ws ht
      | .running ⟨.call c k, env, ws⟩ =>
          simp only [ht] at h
          exact send_cases E L ht h

section
variable {txs : Nat → Tx Cmd Resp ε Write Env α} {i j : Nat} {p q : Point Cmd Resp ε Write Env α}

/-- What runs when transaction `i` has ended. -/
theorem running_of_ended {o : Except ε α} (h : Function.update txs i (.done o) j = .running p) :
    j ≠ i ∧ txs j = .running p := by
  by_cases hji : j = i
  · subst hji
    rw [Function.update_self] at h
    exact absurd h (by simp)
  · rw [Function.update_of_ne hji] at h
    exact ⟨hji, h⟩

/-- What runs when transaction `i` has come to `q`. -/
theorem running_of_moved (h : Function.update txs i (.running q) j = .running p) :
    (j = i ∧ p = q) ∨ (j ≠ i ∧ txs j = .running p) := by
  by_cases hji : j = i
  · subst hji
    rw [Function.update_self] at h
    exact Or.inl ⟨rfl, (Tx.running.inj h).symm⟩
  · rw [Function.update_of_ne hji] at h
    exact Or.inr ⟨hji, h⟩

/-- What is done when transaction `i` has come to `q`. -/
theorem done_of_moved {o : Except ε α} (h : Function.update txs i (.running q) j = .done o) :
    txs j = .done o := by
  by_cases hji : j = i
  · subst hji
    rw [Function.update_self] at h
    exact absurd h (by simp)
  · rwa [Function.update_of_ne hji] at h

end

variable {E L} in
/-- An event concerns one transaction. -/
theorem Move.others {w w' : World Cmd Resp ε Db Write Env Row Seq α} {e : Event} {j : Nat}
    (h : Move E L w e w') (hj : j ≠ e.tx) : w'.txs j = w.txs j := by
  cases h <;> exact Function.update_of_ne hj ..

/-- What every allowed event keeps holds at the end of every allowed run. -/
theorem Run.invariant {ok : World Cmd Resp ε Db Write Env Row Seq α → Event → Prop}
    {P : World Cmd Resp ε Db Write Env Row Seq α → Prop}
    (hstep : ∀ w e w', P w → ok w e → Move E L w e w' → P w')
    {w w' : World Cmd Resp ε Db Write Env Row Seq α} (h : Run E L ok w w') (hw : P w) : P w' := by
  induction h with
  | refl => exact hw
  | tail _ hn ih =>
      obtain ⟨e, hok, hnext⟩ := hn
      exact hstep _ e _ ih hok (next_cases E L hnext)

/-- A run under a condition is a run. -/
theorem Run.any {ok : World Cmd Resp ε Db Write Env Row Seq α → Event → Prop}
    {w w' : World Cmd Resp ε Db Write Env Row Seq α} (h : Run E L ok w w') :
    Run E L anyStep w w' := by
  induction h with
  | refl => exact .refl
  | tail _ hn ih =>
      obtain ⟨e, _, hnext⟩ := hn
      exact ih.tail ⟨e, trivial, hnext⟩

/-- A list of events is a run. -/
theorem Run.of_runs {ok : World Cmd Resp ε Db Write Env Row Seq α → Event → Prop}
    [∀ w e, Decidable (ok w e)] {w w' : World Cmd Resp ε Db Write Env Row Seq α}
    {es : List Event} (h : w.runs E L ok es = some w') : Run E L ok w w' := by
  induction es generalizing w with
  | nil =>
      obtain rfl := Option.some.inj h
      exact .refl
  | cons e es ih =>
      unfold runs at h
      by_cases hok : ok w e
      · rw [if_pos hok] at h
        obtain ⟨w1, hn, hrest⟩ := Option.bind_eq_some_iff.mp h
        exact .head ⟨e, hok, hn⟩ (ih hrest)
      · rw [if_neg hok] at h
        exact absurd h (by simp)

end World

end Procurement.Framework
