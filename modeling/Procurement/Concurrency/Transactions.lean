/-
  Procurement.Concurrency.Transactions
  ────────────────────────────────────
  **THE REQUESTS AS CONCURRENT TRANSACTIONS.**

  Any number of requests start on one committed state, each as a transaction of
  its own.  This file says what READ COMMITTED means for them: which statement
  locks which row, which INSERT draws from which sequence, and that the
  statements are disciplined about both.
-/
import Procurement.Framework.Discipline
import Procurement.Runs.Retries

namespace Procurement

open Procurement.Framework

/-! ## §1. The rules. -/

/-- The locks of the statements, and the sequences of the generated ids. -/
def rowLocks : Locking Cmd Db Env Row Table where
  locks := Cmd.locks
  draw c env := c.table.map fun t => (t, (env.stamp t).id)

/-- Concurrent requests. -/
abbrev Concurrent := World Cmd Cmd.Resp Error Db Write Env Row Table Response

/-- Request number `i` is `calls i`, in the environment `envs i`.  None has
begun, and the sequences stand at the greatest id of their tables. -/
def Db.opened (db : Db) (calls : Nat → HttpRequest) (envs : Nat → Env) : Concurrent :=
  World.start db (fun t => (db.ids t).foldr max 0) (fun i => handle (calls i)) envs

/-- An event can take the first world to the second. -/
abbrev Moves (w : Concurrent) (e : Event) (w' : Concurrent) : Prop :=
  World.Move engine rowLocks w e w'

/-- The rows a transaction owns. -/
def Owns (w : Concurrent) (i : Nat) (row : Row) : Prop := w.owner row = some i

/-- The rows of the two business tables that statements lock. -/
def Row.Business : Row → Prop
  | .negotiation _ | .request _ => True
  | _ => False

/-! ## §2. The statements keep to the rules. -/

theorem discipline : Discipline engine rowLocks Write.guard Write.stamp Db.ids where
  guarded := fun hwr hg => (Cmd.mem_writes hwr).1 _ hg
  stamped := by
    intro c env wr v hwr hs
    obtain ⟨ht, hi⟩ := (Cmd.mem_writes hwr).2 v.1 v.2 hs
    show c.table.map _ = some v
    rw [ht, Option.map_some, hi]
  inserted := by
    intro wr db t n hn
    -- an INSERT adds its own id, an UPDATE keeps the ids of its table
    have hconcat : ∀ {l : List Id} {i : Id}, n ∈ l ++ [i] → n ∈ l ∨ i = n := by
      intro l i h
      rcases List.mem_append.mp h with h | h
      · exact Or.inl h
      · exact Or.inr (List.mem_singleton.mp h).symm
    have hupdate : ∀ {ρ : Type} {key : ρ → Id} {l : List ρ} {i : Id} {f : ρ → ρ},
        (∀ r, key (f r) = key r) → n ∈ (update key l i f).map key → n ∈ l.map key := by
      intro ρ key l i f hf h
      rwa [map_key_update f hf] at h
    cases wr with
    | decide i d =>
        cases t with
        | negotiations => exact Or.inl (hupdate d.on_id hn)
        | _ => exact Or.inl hn
    | closeRequest i =>
        cases t with
        | requests =>
            exact Or.inl (hupdate (f := fun r => { r with status := .closed }) (fun _ => rfl) hn)
        | _ => exact Or.inl hn
    | _ =>
        cases t <;> first
          | exact Or.inl hn
          | (simp only [engine_apply, Write.apply, Db.ids, List.map_append, List.map_cons,
               List.map_nil] at hn
             rcases hconcat hn with hn | rfl
             · exact Or.inl hn
             · exact Or.inr rfl)

theorem Db.opened_orderly (db : Db) (calls : Nat → HttpRequest) (envs : Nat → Env) :
    (db.opened calls envs).Orderly Write.guard Write.stamp Db.ids :=
  World.Orderly.start (fun _ _ hn => le_foldr_max hn) _ _

end Procurement
