/-
  Procurement.Runs.Retries
  ────────────────────────
  **RETRIES ARE INVISIBLE.**

  A run of posts is a list of requests, each with what its environment
  generates and the faults it meets.  A request that has succeeded under a key
  is answered from the record of that key ever after: users and records are
  never changed or removed (`Replays.step`), so whatever else has been done in
  between is of no consequence.  Hence a run with retries inserted goes through
  the states of the run without them.
-/
import Procurement.Runs.Requests

namespace Procurement

open Procurement.Framework

/-! ## §1. Runs of posts. -/

structure Posted where
  req : HttpRequest
  env : Env
  faults : Nat → Bool

/-- The answer to a post, and the state behind it. -/
def Posted.run (p : Posted) (db : Db) : Except Error Response × Db :=
  engine.request (handle p.req) p.env p.faults db

theorem Posted.cases (p : Posted) (db : Db) :
    (∃ e, p.run db = (.error e, db))
    ∨ (∃ user record, Replays p.req user record db
      ∧ p.run db = (.ok ⟨record.responseStatus, record.responseBody⟩, db))
    ∨ ∃ user o, Executes p.req user p.env o db
      ∧ p.run db = (.ok ⟨p.req.op.statusCode, o.body⟩, engine.view (committedWrites p.req user o) db) :=
  handle_cases p.req p.env p.faults db

/-- The state behind a run. -/
def stateAfter (db : Db) (ps : List Posted) : Db := ps.foldl (fun db p => (p.run db).2) db

/-- The answers of a run. -/
def answers : Db → List Posted → List (Except Error Response)
  | _, [] => []
  | db, p :: ps => (p.run db).1 :: answers (p.run db).2 ps

theorem stateAfter_concat (db : Db) (ps : List Posted) (p : Posted) :
    stateAfter db (ps ++ [p]) = (p.run (stateAfter db ps)).2 := by
  unfold stateAfter
  rw [List.foldl_append]
  rfl

theorem answers_append (db : Db) (ps qs : List Posted) :
    answers db (ps ++ qs) = answers db ps ++ answers (stateAfter db ps) qs := by
  induction ps generalizing db with
  | nil => rfl
  | cons p ps ih =>
      show (p.run db).1 :: answers (p.run db).2 (ps ++ qs) = _
      rw [ih]
      rfl

theorem answers_length (db : Db) (ps : List Posted) : (answers db ps).length = ps.length := by
  induction ps generalizing db with
  | nil => rfl
  | cons p ps ih =>
      show (answers (p.run db).2 ps).length + 1 = ps.length + 1
      rw [ih]

/-- Answer number `i` is the answer to post number `i`, in the state behind the
posts before it. -/
theorem answers_getElem? {db : Db} {ps : List Posted} {i : Nat} {p : Posted}
    (hp : ps[i]? = some p) : (answers db ps)[i]? = some (p.run (stateAfter db (ps.take i))).1 := by
  induction ps generalizing db i with
  | nil => exact absurd hp (by simp)
  | cons q ps ih =>
      cases i with
      | zero =>
          obtain rfl : q = p := by simpa using hp
          rfl
      | succ i => exact ih hp

theorem take_succ_of_getElem? {ps : List Posted} {i : Nat} {p : Posted} (hp : ps[i]? = some p) :
    ps.take (i + 1) = ps.take i ++ [p] := by
  rw [List.take_add_one, hp]
  rfl

/-! ## §2. What a post keeps. -/

/-- No post adds or changes a user. -/
theorem Produces.users {db : Db} {user : User} {env : Env} {op : Op} {o : Produced}
    (h : Produces db user env op o) : (engine.view o.writes db).users = db.users := by
  cases h with
  | accept hread hm hrow =>
      show (engine.view (acceptWrites _ _ _ _ _ _) db).users = _
      rw [view_accept _ _ _ _ _ _ _ winner_not_sibling]
  | _ => rfl

theorem Executes.users {req : HttpRequest} {user : User} {env : Env} {o : Produced} {db : Db}
    (h : Executes req user env o db) :
    (engine.view (committedWrites req user o) db).users = db.users := by
  rw [view_committed]
  exact h.produces.users

/-- Emails are unique in every reachable state. -/
theorem Reachable.emails {db : Db} (h : Reachable db) : (db.users.map User.email).Nodup := by
  refine h.invariant (P := fun db => (db.users.map User.email).Nodup) List.nodup_nil
    fun db db' _ hemails hstep => ?_
  cases hstep.cases with
  | nothing => exact hemails
  | registered env data _ hfree =>
      show ((db.users ++ [env.registered data]).map User.email).Nodup
      rw [List.map_append]
      refine nodup_concat hemails fun hin => ?_
      obtain ⟨user, huser, hemail⟩ := List.mem_map.mp hin
      exact lookup_eq_none.mp hfree user huser hemail
  | executed _ hx => exact hx.users ▸ hemails

/-- An executed request adds the record of its key, and no other. -/
theorem Executes.keys {req : HttpRequest} {user : User} {env : Env} {o : Produced} {db : Db}
    (h : Executes req user env o db) :
    (engine.view (committedWrites req user o) db).idempotencyKeys
      = db.idempotencyKeys ++ insertedKeys (keyWrites req user o.body) := by
  rw [view_committed]
  show (engine.view o.writes db).idempotencyKeys ++ _ = _
  rw [idempotencyKeys_view, h.produces.insertedKeys, List.append_nil]

theorem insertedKeys_keyWrites {req : HttpRequest} {user : User} {body : Body} {k : String}
    (hk : req.usedKey = some k) :
    insertedKeys (keyWrites req user body) = [req.record k user body] := by
  unfold keyWrites
  rw [hk]
  rfl

/-- The request that was executed is answered from its record. -/
theorem Executes.replays {req : HttpRequest} {user : User} {env : Env} {o : Produced} {db : Db}
    (h : Executes req user env o db) {k : String} (hk : req.usedKey = some k) :
    Replays req user (req.record k user o.body)
      (engine.view (committedWrites req user o) db) where
  caller := by
    unfold Db.user
    rw [h.users]
    exact h.caller
  permits := h.permits
  stored := by
    refine ⟨k, hk, ?_⟩
    unfold Db.idempotencyKey
    rw [h.keys, insertedKeys_keyWrites hk, lookup_append_of_none _ (h.unused k hk),
      lookup_singleton]
    exact if_pos rfl
  owner := rfl

/-- **A request that is answered from a record stays so.** -/
theorem Replays.step {req : HttpRequest} {user : User} {record : IdempotencyKey} {db : Db}
    (h : Replays req user record db) (p : Posted) : Replays req user record (p.run db).2 := by
  rcases p.cases db with ⟨e, hrun⟩ | ⟨_, _, _, hrun⟩ | ⟨_, _, hx, hrun⟩
  · rw [hrun]
    exact h
  · rw [hrun]
    exact h
  -- the users stay, and the record stays found behind a new one
  · rw [hrun]
    obtain ⟨k, hk, hrec⟩ := h.stored
    refine ⟨?_, h.permits, ⟨k, hk, ?_⟩, h.owner⟩
    · unfold Db.user
      rw [hx.users]
      exact h.caller
    · unfold Db.idempotencyKey
      rw [hx.keys]
      exact lookup_append_of_some _ hrec

/-- A success under a key is answered from a record from then on. -/
theorem replays_of_success {p : Posted} {db : Db} {r : Response} {k : String}
    (hk : p.req.usedKey = some k) (hr : (p.run db).1 = .ok r) :
    ∃ user record, Replays p.req user record (p.run db).2
      ∧ r = ⟨record.responseStatus, record.responseBody⟩ := by
  rcases p.cases db with ⟨e, hrun⟩ | ⟨user, record, hrep, hrun⟩ | ⟨user, o, hx, hrun⟩
  · rw [hrun] at hr
    exact absurd hr (by simp)
  · rw [hrun] at hr ⊢
    exact ⟨user, record, hrep, (Except.ok.inj hr).symm⟩
  -- its own record answers it from now on
  · rw [hrun] at hr ⊢
    exact ⟨user, _, hx.replays hk, (Except.ok.inj hr).symm⟩

/-- The success of an earlier post, under a key, is answered from a record at
every later point of the run. -/
theorem replays_later {db : Db} {ps : List Posted} {i : Nat} {p : Posted} {k : String}
    {r : Response} (hp : ps[i]? = some p) (hk : p.req.usedKey = some k)
    (hr : (answers db ps)[i]? = some (.ok r)) (hi : i < ps.length) :
    ∃ user record, Replays p.req user record (stateAfter db ps)
      ∧ r = ⟨record.responseStatus, record.responseBody⟩ := by
  rw [answers_getElem? hp] at hr
  have hfirst := replays_of_success hk (Option.some.inj hr)
  rw [← stateAfter_concat, ← take_succ_of_getElem? hp] at hfirst
  -- from the state behind it, one post after the other
  have hall : ∀ n, i + 1 ≤ n → n ≤ ps.length →
      ∃ user record, Replays p.req user record (stateAfter db (ps.take n))
        ∧ r = ⟨record.responseStatus, record.responseBody⟩ := by
    intro n hn
    induction n, hn using Nat.le_induction with
    | base => exact fun _ => hfirst
    | succ n _ ih =>
        intro hlen
        obtain ⟨user, record, hrep, hresp⟩ := ih (by omega)
        have hq : ps[n]? = some ps[n] := List.getElem?_eq_getElem (by omega)
        rw [take_succ_of_getElem? hq, stateAfter_concat]
        exact ⟨user, record, hrep.step _, hresp⟩
  have hend := hall ps.length (by omega) le_rfl
  rwa [List.take_length] at hend

/-! ## §3. Inserted retries. -/

/-- A post of a run with retries: an original, or the retry of the post at an
earlier position. -/
structure Item where
  post : Posted
  retryOf : Option Nat

/-- The originals of a run with retries. -/
def originals (items : List Item) : List Posted :=
  (items.filter fun x => x.retryOf = none).map Item.post

/-- Every retry repeats, with the same user, key, path and payload, an earlier
original that carried a key and succeeded. -/
def RetriesValid (db : Db) (items : List Item) : Prop :=
  ∀ (n i : Nat) (x : Item), items[n]? = some x → x.retryOf = some i →
    i < n ∧ ∃ (y : Item) (r : Response), items[i]? = some y ∧ y.retryOf = none
      ∧ y.post.req = x.post.req ∧ y.post.req.usedKey ≠ none
      ∧ (answers db (items.map Item.post))[i]? = some (.ok r)

/-- The retries of a run up to some point are valid. -/
theorem RetriesValid.upto {db : Db} {items more : List Item}
    (h : RetriesValid db (items ++ more)) : RetriesValid db items := by
  intro n i y hy hret
  have hn : n < items.length := (List.getElem?_eq_some_iff.mp hy).1
  obtain ⟨hi, z, r, hz, hnone, hreq, hkey, hr⟩ :=
    h n i y (by rw [List.getElem?_append_left hn]; exact hy) hret
  refine ⟨hi, z, r, ?_, hnone, hreq, hkey, ?_⟩
  · rwa [List.getElem?_append_left (by omega)] at hz
  · rw [List.map_append, answers_append, List.getElem?_append_left] at hr
    · exact hr
    · rw [answers_length, List.length_map]
      omega

/-- What a retry at the end of a run does. -/
theorem retry_last {db : Db} {items : List Item} {x : Item} {i : Nat}
    (h : RetriesValid db (items ++ [x])) (hx : x.retryOf = some i) :
    (x.post.run (stateAfter db (items.map Item.post))).2 = stateAfter db (items.map Item.post)
      ∧ ((x.post.faults = calm) → ∃ r, (answers db (items.map Item.post))[i]? = some (.ok r)
        ∧ (x.post.run (stateAfter db (items.map Item.post))).1 = .ok r) := by
  obtain ⟨hi, y, r, hy, _, hreq, hkey, hr⟩ := h items.length i x (by simp) hx
  have hy' : items[i]? = some y := by rwa [List.getElem?_append_left hi] at hy
  have hpost : (items.map Item.post)[i]? = some y.post := by rw [List.getElem?_map, hy']; rfl
  have hr' : (answers db (items.map Item.post))[i]? = some (.ok r) := by
    rw [List.map_append, answers_append, List.getElem?_append_left] at hr
    · exact hr
    · rwa [answers_length, List.length_map]
  obtain ⟨k, hk⟩ := Option.ne_none_iff_exists'.mp hkey
  obtain ⟨user, record, hrep, hresp⟩ :=
    replays_later hpost hk hr' (by rwa [List.length_map])
  rw [hreq] at hrep
  generalize stateAfter db (items.map Item.post) = s at hrep ⊢
  constructor
  · -- whatever its faults, it commits nothing
    rcases x.post.cases s with ⟨e, hrun⟩ | ⟨_, _, _, hrun⟩ | ⟨_, _, hexec, _⟩
    · exact congrArg Prod.snd hrun
    · exact congrArg Prod.snd hrun
    · obtain ⟨k', hk', hrec⟩ := hrep.stored
      rw [hexec.unused k' hk'] at hrec
      exact absurd hrec (by simp)
  · intro hcalm
    refine ⟨r, hr', ?_⟩
    unfold Posted.run
    rw [hcalm, replays_calm hrep, hresp]

theorem originals_concat (items : List Item) (x : Item) :
    originals (items ++ [x])
      = originals items ++ if x.retryOf = none then [x.post] else [] := by
  unfold originals
  rw [List.filter_append, List.map_append]
  by_cases hx : x.retryOf = none <;> simp [hx]

/-- **A run with retries ends where the run without them ends.** -/
theorem stateAfter_originals {db : Db} {items : List Item} (h : RetriesValid db items) :
    stateAfter db (items.map Item.post) = stateAfter db (originals items) := by
  induction items using List.reverseRecOn with
  | nil => rfl
  | append_singleton items x ih =>
      have hbefore := ih h.upto
      rw [List.map_append, List.map_singleton, stateAfter_concat, originals_concat]
      cases hx : x.retryOf with
      -- an original runs on the same state in both runs, a retry commits nothing
      | none =>
          rw [if_pos rfl, stateAfter_concat, hbefore]
      | some i =>
          rw [if_neg (by simp), List.append_nil, (retry_last h hx).1, hbefore]

/-- The answers to the originals of a run with retries. -/
def originalAnswers (db : Db) (items : List Item) : List (Except Error Response) :=
  ((items.zip (answers db (items.map Item.post))).filter fun x => x.1.retryOf = none).map Prod.snd

theorem originalAnswers_eq {db : Db} {items : List Item} (h : RetriesValid db items) :
    originalAnswers db items = answers db (originals items) := by
  induction items using List.reverseRecOn with
  | nil => rfl
  | append_singleton items x ih =>
      have hbefore := ih h.upto
      have hlen : items.length = (answers db (items.map Item.post)).length := by
        rw [answers_length, List.length_map]
      have hsplit : originalAnswers db (items ++ [x]) = originalAnswers db items
          ++ if x.retryOf = none then [(x.post.run (stateAfter db (items.map Item.post))).1]
            else [] := by
        unfold originalAnswers
        rw [List.map_append, answers_append, List.zip_append hlen, List.filter_append,
          List.map_append]
        congr 1
        show (List.filter _ [(x, _)]).map Prod.snd = _
        by_cases hx : x.retryOf = none <;> simp [hx]
      rw [hsplit, hbefore, originals_concat, answers_append, ← stateAfter_originals h.upto]
      congr 1
      by_cases hx : x.retryOf = none
      · rw [if_pos hx, if_pos hx]
        rfl
      · rw [if_neg hx, if_neg hx]
        rfl

/-- **Retries are invisible.**  The tables end as in the run without the
retries, every original gets the answer it gets there, and a retry that meets
no fault gets the answer of the post it repeats. -/
theorem retries_invisible {db : Db} {items : List Item} (h : RetriesValid db items) :
    stateAfter db (items.map Item.post) = stateAfter db (originals items)
      ∧ originalAnswers db items = answers db (originals items)
      ∧ ∀ (n i : Nat) (x : Item), items[n]? = some x → x.retryOf = some i →
          x.post.faults = calm →
          (answers db (items.map Item.post))[n]? = (answers db (items.map Item.post))[i]? := by
  refine ⟨stateAfter_originals h, originalAnswers_eq h, ?_⟩
  intro n i x hx hret hcalm
  have hn : n < items.length := (List.getElem?_eq_some_iff.mp hx).1
  have htake : items.take (n + 1) = items.take n ++ [x] := by
    rw [List.take_add_one, hx]
    rfl
  -- the run up to the retry
  have hupto : RetriesValid db (items.take n ++ [x]) := by
    rw [← htake]
    rw [← List.take_append_drop (n + 1) items] at h
    exact h.upto
  obtain ⟨r, hri, hrn⟩ := (retry_last hupto hret).2 hcalm
  have hpost : (items.map Item.post)[n]? = some x.post := by rw [List.getElem?_map, hx]; rfl
  have hi : i < n := (h n i x hx hret).1
  -- the answer it repeats stands in the part of the run before it
  rw [answers_getElem? hpost, ← List.map_take, hrn]
  have hsplit : answers db (items.map Item.post)
      = answers db ((items.take n).map Item.post)
        ++ answers (stateAfter db ((items.take n).map Item.post)) ((items.drop n).map Item.post) := by
    rw [← answers_append, ← List.map_append, List.take_append_drop]
  rw [hsplit, List.getElem?_append_left, hri]
  rw [answers_length, List.length_map, List.length_take]
  omega

/-- The client accepts the first bid of the market under a key, and repeats the
call when the negotiation is closed. -/
def acceptTwice : List Item :=
  let post : Posted :=
    { req := { caller := 1, key := some "k", path := "/negotiations/1/accept", op := .accept 1 }
      env := .following market
      faults := calm }
  [⟨post, none⟩, ⟨post, some 0⟩]

theorem acceptTwice_valid : RetriesValid market acceptTwice := by
  intro n i x hx hret
  match n with
  | 0 =>
      obtain rfl := Option.some.inj hx
      exact absurd hret (by simp)
  | 1 =>
      obtain rfl := Option.some.inj hx
      obtain rfl : 0 = i := by simpa using hret
      have hok : ∃ r, (answers market (acceptTwice.map Item.post))[0]? = some (.ok r) := by
        have hkind : ((answers market (acceptTwice.map Item.post))[0]?).any
            (fun o => match o with | .ok _ => true | .error _ => false) = true := by
          decide +kernel
        generalize (answers market (acceptTwice.map Item.post))[0]? = o at hkind
        match o, hkind with
        | some (.ok r), _ => exact ⟨r, rfl⟩
      obtain ⟨r, hr⟩ := hok
      refine ⟨by omega, _, r, rfl, rfl, rfl, ?_, hr⟩
      show (some "k").filter (fun k : String => k ≠ "") ≠ none
      decide
  | n + 2 => exact absurd hx (by simp [acceptTwice])

theorem retries_invisible_market :
    (answers market (acceptTwice.map Item.post))[1]?
      = (answers market (acceptTwice.map Item.post))[0]? :=
  (retries_invisible acceptTwice_valid).2.2 1 0 _ rfl rfl rfl

end Procurement
