/-
  Procurement.Runs.Reuse
  ──────────────────────
  **WHAT A REPLAYED ANSWER IS THE ANSWER TO.**

  A record stores the user, the method and the path of the request it answers;
  the lookup compares the user only.  So a key that its owner uses again on
  another path is answered with the response of the first path, and the second
  operation never runs (`reused_key`).  As long as no request carries a key
  whose record has another path (`Fits`), a replayed answer is the answer of
  the same user's same operation.
-/
import Procurement.Runs.Retries

namespace Procurement

open Procurement.Framework

/-! ## §1. Records and the requests that made them. -/

/-- The post runs its operation. -/
def Posted.Executed (p : Posted) (db : Db) : Prop :=
  ∃ user o, Executes p.req user p.env o db
    ∧ (p.run db).2 = engine.view (committedWrites p.req user o) db

/-- The post adds `record` to the stored responses. -/
def Posted.Creates (p : Posted) (record : IdempotencyKey) (db : Db) : Prop :=
  (p.run db).2.idempotencyKeys = db.idempotencyKeys ++ [record]

/-- Where a record comes from: an executed post of the record's user to the
record's path. -/
def Stems (db : Db) (ps : List Posted) (record : IdempotencyKey) : Prop :=
  ∃ (i : Nat) (q : Posted), ps[i]? = some q ∧ q.Executed (stateAfter db (ps.take i))
    ∧ q.Creates record (stateAfter db (ps.take i))
    ∧ q.req.caller = record.userId ∧ record.method = "POST" ∧ q.req.path = record.path

theorem Stems.concat {db : Db} {ps : List Posted} {record : IdempotencyKey}
    (h : Stems db ps record) (p : Posted) : Stems db (ps ++ [p]) record := by
  obtain ⟨i, q, hq, hx, hc, hrest⟩ := h
  have hi : i < ps.length := (List.getElem?_eq_some_iff.mp hq).1
  refine ⟨i, q, ?_, ?_, ?_, hrest⟩
  · rw [List.getElem?_append_left hi]
    exact hq
  · rw [List.take_append_of_le_length (by omega)]
    exact hx
  · rw [List.take_append_of_le_length (by omega)]
    exact hc

/-- A post that succeeds replays or executes. -/
theorem Posted.success {p : Posted} {db : Db} {r : Response} (hr : (p.run db).1 = .ok r) :
    (∃ user record, Replays p.req user record db) ∨ p.Executed db := by
  rcases p.cases db with ⟨e, hrun⟩ | ⟨user, record, hrep, _⟩ | ⟨user, o, hx, hrun⟩
  · rw [hrun] at hr
    exact absurd hr (by simp)
  · exact Or.inl ⟨user, record, hrep⟩
  · exact Or.inr ⟨user, o, hx, congrArg Prod.snd hrun⟩

/-- **Every stored response stems from a request of the run.** -/
theorem records_stem {db : Db} (h0 : db.idempotencyKeys = []) (ps : List Posted) :
    ∀ record ∈ (stateAfter db ps).idempotencyKeys, Stems db ps record := by
  induction ps using List.reverseRecOn with
  | nil =>
      intro record hrec
      rw [show stateAfter db [] = db from rfl, h0] at hrec
      exact absurd hrec (by simp)
  | append_singleton ps p ih =>
      intro record hrec
      rw [stateAfter_concat] at hrec
      have hold : record ∈ (stateAfter db ps).idempotencyKeys → Stems db (ps ++ [p]) record :=
        fun h => (ih record h).concat p
      rcases p.cases (stateAfter db ps) with ⟨e, hrun⟩ | ⟨_, _, _, hrun⟩ | ⟨user, o, hx, hrun⟩
      · rw [hrun] at hrec
        exact hold hrec
      · rw [hrun] at hrec
        exact hold hrec
      · rw [hrun, hx.keys] at hrec
        rcases List.mem_append.mp hrec with hrec | hrec
        · exact hold hrec
        · -- the record of this very post
          cases hk : p.req.usedKey with
          | none =>
              unfold keyWrites at hrec
              rw [hk] at hrec
              exact absurd hrec (by simp [insertedKeys])
          | some k =>
              rw [insertedKeys_keyWrites hk] at hrec
              obtain rfl := List.mem_singleton.mp hrec
              have htake : (ps ++ [p]).take ps.length = ps := by simp
              refine ⟨ps.length, p, by simp, ?_, ?_, ?_, rfl, rfl⟩
              · rw [htake]
                exact ⟨user, o, hx, congrArg Prod.snd hrun⟩
              · rw [htake]
                unfold Posted.Creates
                rw [hrun, hx.keys, insertedKeys_keyWrites hk]
              · exact (lookup_key hx.caller).symm

/-! ## §2. Keys that fit. -/

/-- When the key of the request has a record of its caller, that record is for
the request's path. -/
def HttpRequest.Fits (req : HttpRequest) (db : Db) : Prop :=
  ∀ k record, req.usedKey = some k → db.idempotencyKey k = some record →
    record.userId = req.caller → record.path = req.path

/-- The operation that a path names. -/
inductive Target where
  | requests
  | offers (requestId : Id)
  | accept (negotiationId : Id)
  | reject (negotiationId : Id)
  | counter (negotiationId : Id)
  deriving DecidableEq, Repr

def Op.target : Op → Target
  | .createRequest _ => .requests
  | .makeOffer requestId _ => .offers requestId
  | .accept negotiationId => .accept negotiationId
  | .reject negotiationId => .reject negotiationId
  | .counter negotiationId _ => .counter negotiationId

/-- The record that answers a request has the request's path exactly when the
key fits. -/
theorem Replays.fits_iff {req : HttpRequest} {user : User} {record : IdempotencyKey} {db : Db}
    (h : Replays req user record db) : req.Fits db ↔ record.path = req.path := by
  obtain ⟨k, hk, hrec⟩ := h.stored
  have hcaller : record.userId = req.caller := h.owner.trans (lookup_key h.caller)
  constructor
  · exact fun hf => hf k record hk hrec hcaller
  · intro hpath k' record' hk' hrec' _
    obtain rfl : k = k' := Option.some.inj (hk.symm.trans hk')
    obtain rfl : record = record' := Option.some.inj (hrec.symm.trans hrec')
    exact hpath

/-- **What a replayed answer is the answer to.**  `route` is the routing of the
framework: the operation a path names.

A request answered from a record was preceded by the executed request of the
same user that made this record, and the two have the same path exactly when
the key fits.  In a run whose keys all fit, every successful answer is the
answer of this user's execution of the operation asked for. -/
theorem replay_fits (route : String → Option Target) {db : Db} (h0 : db.idempotencyKeys = [])
    {ps : List Posted} (hroute : ∀ p ∈ ps, route p.req.path = some p.req.op.target) :
    (∀ (j : Nat) (p : Posted) (user : User) (record : IdempotencyKey), ps[j]? = some p →
        Replays p.req user record (stateAfter db (ps.take j)) →
        ∃ (i : Nat) (q : Posted), i < j ∧ ps[i]? = some q
          ∧ q.Creates record (stateAfter db (ps.take i)) ∧ q.req.caller = p.req.caller
          ∧ record.method = "POST"
          ∧ (q.req.path = p.req.path ↔ p.req.Fits (stateAfter db (ps.take j))))
      ∧ ((∀ (j : Nat) (p : Posted), ps[j]? = some p →
            p.req.Fits (stateAfter db (ps.take j))) →
          ∀ (j : Nat) (p : Posted) (r : Response), ps[j]? = some p →
            (answers db ps)[j]? = some (.ok r) →
            ∃ (i : Nat) (q : Posted), i ≤ j ∧ ps[i]? = some q
              ∧ q.Executed (stateAfter db (ps.take i)) ∧ q.req.caller = p.req.caller
              ∧ q.req.op.target = p.req.op.target) := by
  -- the request behind the record of a replay
  have hstems : ∀ (j : Nat) (p : Posted) (user : User) (record : IdempotencyKey),
      ps[j]? = some p → Replays p.req user record (stateAfter db (ps.take j)) →
      ∃ (i : Nat) (q : Posted), i < j ∧ ps[i]? = some q
        ∧ q.Executed (stateAfter db (ps.take i)) ∧ q.Creates record (stateAfter db (ps.take i))
        ∧ q.req.caller = p.req.caller ∧ record.method = "POST" ∧ q.req.path = record.path := by
    intro j p user record hp hrep
    have hj : j < ps.length := (List.getElem?_eq_some_iff.mp hp).1
    obtain ⟨k, _, hrec⟩ := hrep.stored
    obtain ⟨i, q, hq, hx, hc, hcaller, hmethod, hpath⟩ :=
      records_stem h0 (ps.take j) record (lookup_mem hrec)
    have hi : i < j := by
      have hlt := (List.getElem?_eq_some_iff.mp hq).1
      rw [List.length_take] at hlt
      omega
    have htake : (ps.take j).take i = ps.take i := by
      rw [List.take_take, Nat.min_eq_left (by omega)]
    rw [htake] at hx hc
    rw [List.getElem?_take_of_lt hi] at hq
    exact ⟨i, q, hi, hq, hx, hc, hcaller.trans (hrep.owner.trans (lookup_key hrep.caller)), hmethod,
      hpath⟩
  constructor
  · intro j p user record hp hrep
    obtain ⟨i, q, hi, hq, _, hc, hcaller, hmethod, hpath⟩ := hstems j p user record hp hrep
    refine ⟨i, q, hi, hq, hc, hcaller, hmethod, ?_⟩
    rw [hpath]
    exact hrep.fits_iff.symm
  · intro hfits j p r hp hr
    rw [answers_getElem? hp] at hr
    rcases Posted.success (Option.some.inj hr) with ⟨user, record, hrep⟩ | hx
    · obtain ⟨i, q, hi, hq, hx, _, hcaller, _, hpath⟩ := hstems j p user record hp hrep
      refine ⟨i, q, by omega, hq, hx, hcaller, ?_⟩
      -- one path names one operation
      have hsame : q.req.path = p.req.path := hpath.trans (hrep.fits_iff.mp (hfits j p hp))
      have hqr := hroute q (List.mem_of_getElem? hq)
      have hpr := hroute p (List.mem_of_getElem? hp)
      rw [hsame, hpr] at hqr
      exact (Option.some.inj hqr).symm
    -- executed by this very post
    · exact ⟨j, p, le_rfl, hp, hx, rfl, rfl⟩

/-! ## §3. A key used twice. -/

/-- The client asks for more chairs under the key "k", and accepts the first bid
under the same key. -/
def creation : HttpRequest :=
  { caller := 1, key := some "k", path := "/requests", op := .createRequest chairs }

def acceptance : HttpRequest :=
  { caller := 1, key := some "k", path := "/negotiations/1/accept", op := .accept 1 }

def keyTwice : List Posted :=
  [⟨creation, .following market, calm⟩, ⟨acceptance, .following market, calm⟩]

/-- The acceptance is answered with the response of the creation, from a record
with another path, and negotiation 1 stays active. -/
theorem reused_key :
    (∃ r, (answers market keyTwice)[1]? = some (.ok r)
        ∧ (answers market keyTwice)[0]? = some (.ok r) ∧ r.status = 201)
      ∧ (∃ user record, Replays acceptance user record (stateAfter market (keyTwice.take 1))
        ∧ record.path ≠ acceptance.path)
      ∧ (stateAfter market keyTwice).negotiation 1 = market.negotiation 1
      ∧ (market.negotiation 1).map Negotiation.status = some .active := by
  refine ⟨?_, ?_, by decide +kernel, by decide +kernel⟩
  · have hsame : (answers market keyTwice)[1]? = (answers market keyTwice)[0]?
        ∧ ((answers market keyTwice)[0]?).any
          (fun o => match o with | .ok r => r.status == 201 | .error _ => false) = true := by
      decide +kernel
    generalize (answers market keyTwice)[1]? = a at hsame ⊢
    generalize (answers market keyTwice)[0]? = b at hsame ⊢
    obtain ⟨rfl, hb⟩ := hsame
    match a, hb with
    | some (.ok r), hb => exact ⟨r, rfl, rfl, by simpa using hb⟩
  · have hrows : (stateAfter market (keyTwice.take 1)).user 1
          = some ⟨1, "client", "password", .client, "name"⟩
        ∧ ((stateAfter market (keyTwice.take 1)).idempotencyKey "k").any
          (fun record => record.userId == 1 && record.path == "/requests") = true := by
      decide +kernel
    generalize hs : stateAfter market (keyTwice.take 1) = s at hrows
    obtain ⟨hu, hrec⟩ := hrows
    cases hrecord : s.idempotencyKey "k" with
    | none =>
        rw [hrecord] at hrec
        exact absurd hrec (by simp)
    | some record =>
        rw [hrecord] at hrec
        have hfields : record.userId = 1 ∧ record.path = "/requests" := by simpa using hrec
        refine ⟨_, record, ⟨hu, ?_, ⟨"k", rfl, hrecord⟩, hfields.1⟩, ?_⟩
        · intro r hr
          exact absurd hr (by simp [acceptance, Op.role])
        · rw [hfields.2]
          decide

/-- The routes of the calls above. -/
def routes : String → Option Target
  | "/requests" => some .requests
  | "/negotiations/1/accept" => some (.accept 1)
  | _ => none

/-- The acceptance posted twice. -/
def fittingKey : List Posted :=
  [⟨acceptance, .following market, calm⟩, ⟨acceptance, .following market, calm⟩]

/-- The second answer is that of the execution of the first. -/
theorem replay_fits_market :
    (∃ r, (answers market fittingKey)[1]? = some (.ok r))
      ∧ (∀ r, (answers market fittingKey)[1]? = some (.ok r) →
        ∃ (i : Nat) (q : Posted), i ≤ 1 ∧ fittingKey[i]? = some q
          ∧ q.Executed (stateAfter market (fittingKey.take i)) ∧ q.req.caller = 1
          ∧ q.req.op.target = .accept 1) := by
  have hroute : ∀ p ∈ fittingKey, routes p.req.path = some p.req.op.target := by
    intro p hp
    obtain rfl : p = ⟨acceptance, .following market, calm⟩ := by simpa [fittingKey] using hp
    rfl
  -- whatever is stored before the posts has their path
  have hpaths : ∀ j < 2, ∀ record ∈ (stateAfter market (fittingKey.take j)).idempotencyKeys,
      record.path = acceptance.path := by decide +kernel
  have hfits : ∀ (j : Nat) (p : Posted), fittingKey[j]? = some p →
      p.req.Fits (stateAfter market (fittingKey.take j)) := by
    intro j p hp k record _ hrec _
    have hj : j < 2 := (List.getElem?_eq_some_iff.mp hp).1
    obtain rfl : p = ⟨acceptance, .following market, calm⟩ := by
      simpa [fittingKey] using List.mem_of_getElem? hp
    exact hpaths j hj record (lookup_mem hrec)
  have hok : ((answers market fittingKey)[1]?).any
      (fun o => match o with | .ok _ => true | .error _ => false) = true := by decide +kernel
  have hempty : market.idempotencyKeys = [] :=
    List.isEmpty_iff.mp (by decide +kernel)
  have hreplay := (replay_fits routes hempty hroute).2 hfits 1 ⟨acceptance, .following market, calm⟩
  generalize (answers market fittingKey)[1]? = a at hok hreplay ⊢
  match a, hok with
  | some (.ok r), _ => exact ⟨⟨r, rfl⟩, fun r hr => hreplay r rfl hr⟩

end Procurement
