/-
  Procurement.Concurrency.Deadlock
  ────────────────────────────────
  **WHO WAITS FOR WHOM.**

  A request that owns a business row and waits for another one is an acceptance
  behind its first UPDATE: it waits for its request, or in the superseding loop
  for a sibling (`Stage.waiting`).  All rows it owns or waits for are rows of one
  request, so two requests in a waits-for chain are two acceptances on one
  request.

  The lock on the request does not serialize them: it is taken behind the UPDATE
  that it should come before, and each of the two ends up with a row the other
  needs (`rival_acceptances`).  As long as an acceptance stages that UPDATE only
  when no other acceptance on its request has staged one (`NoRival`), nothing
  waits in a circle (`deadlock_free`).
-/
import Procurement.Concurrency.Serializability

namespace Procurement

open Procurement.Framework

/-! ## §1. What a waiting request owns. -/

section
variable {own : Row → Prop} {db : Db} {req : HttpRequest} {env env' : Env}
  {c : Cmd} {k : c.Resp → Prog Response} {ws : List Write} {row held : Row}

/-- A request at a goal that asks for a business row: an acceptance, for its
request. -/
theorem Goal.waiting {T : Row → Prop} (hg : Goal own db req env T ⟨.call c k, env', ws⟩)
    (ht : Territory own db ws T) (hwant : c.locks (engine.view ws db) = some row)
    (hb : row.Business) :
    ∃ neg ∈ db.negotiations, (∃ a, .decide neg.id (.accepted a) ∈ ws) ∧ row.On neg.requestId db
      ∧ ∀ row', own row' → row'.Business → row'.On neg.requestId db := by
  generalize hp : (⟨.call c k, env', ws⟩ : At Response) = p at hg
  cases hg with
  | raise e env'' ws' => exact absurd (congrArg Point.prog hp) (by simp)
  | ret r env'' => exact absurd (congrArg Point.prog hp) (by simp)
  | commit hu h hk => exact absurd (congrArg Point.prog hp) (by simp)
  | @render user q data hu hop hreq h ho =>
      have hcall : Program.call c k = .call (.proposals (env.offered user q.id).id) _ :=
        congrArg Point.prog hp
      rw [(Program.call.inj hcall).1] at hwant
      exact absurd hwant (by simp [Cmd.locks])
  | @insert user neg client ps last data hu hop hneg h hm =>
      have hcall : Program.call c k = .call (.insertProposal neg.id user.id user.role .counter
        data.amount last.currency data.message) _ := congrArg Point.prog hp
      rw [(Program.call.inj hcall).1] at hwant
      exact absurd hwant (by simp [Cmd.locks])
  | @select user neg client ps last q hu hop hneg hreq h hm hrow hT =>
      obtain ⟨hprog, _, _⟩ := Point.mk.inj hp
      rw [(Program.call.inj hprog).1] at hwant
      exact absurd hwant (by simp [Cmd.locks])
  | @lock user neg client ps last hu hop hneg h hm hT =>
      obtain ⟨hprog, _, hws⟩ := Point.mk.inj hp
      rw [(Program.call.inj hprog).1] at hwant
      have hrow : row = .request neg.requestId := by
        obtain ⟨q, _, hq⟩ := Option.map_eq_some_iff.mp hwant
        exact hq.symm
      refine ⟨neg, lookup_mem h.row, ⟨last.amount, ?_⟩, Or.inl hrow, ?_⟩
      · rw [hws]
        exact List.mem_cons_self ..
      · intro row' ho hb'
        exact Or.inr ⟨neg, lookup_mem h.row, rfl, hT row' (ht.held row' ho hb') hb'⟩
  | @finish user o hu h =>
      obtain ⟨hprog, _, _⟩ := Point.mk.inj hp
      cases hk : req.usedKey with
      | none =>
          rw [finish_of_none hk] at hprog
          exact absurd hprog (by simp)
      | some key =>
          -- the lock of a key is not a business row
          rw [finish_of_some hk] at hprog
          rw [(Program.call.inj hprog).1] at hwant
          obtain rfl : Row.key key = row := Option.some.inj hwant
          exact hb.elim

/-- **A request that owns a business row and waits for another one** is an
acceptance behind its first UPDATE, and all these rows are rows of its request. -/
theorem Stage.waiting (h : Stage own db req env ⟨.call c k, env', ws⟩)
    (hwant : c.locks (engine.view ws db) = some row) (hb : row.Business) (hnot : ¬ own row)
    (hheld : own held) :
    ∃ neg ∈ db.negotiations, (∃ a, .decide neg.id (.accepted a) ∈ ws) ∧ row.On neg.requestId db
      ∧ ∀ row', own row' → row'.Business → row'.On neg.requestId db := by
  generalize hp : (⟨.call c k, env', ws⟩ : At Response) = p at h
  cases h with
  | start hfree => exact absurd hheld (hfree held)
  | lookup hu hk hfree => exact absurd hheld (hfree held)
  | produce hu hfree => exact absurd hheld (hfree held)
  | @heading p goal T F h =>
      subst hp
      by_cases hne : goal = ⟨.call c k, env', ws⟩
      · subst hne
        exact h.goal.waiting h.territory hwant hb
      -- on its way it asks for rows of its territory only, which it owns unless it supersedes
      · have hT : T row := (h.reaches.advance hne h.fact).1 _ row hwant
        rcases h.territory.content with hcont | ⟨neg, hneg, ha, hall⟩
        · exact absurd (hcont row hT hb) hnot
        · refine ⟨neg, hneg, ha, hall row hT hb, ?_⟩
          exact fun row' ho hb' => hall row' (h.territory.held row' ho hb') hb'

/-- The negotiations a request has locked exist. -/
theorem Stage.owned {p : At Response} {i : Id} (h : Stage own db req env p)
    (ho : own (.negotiation i)) : ∃ n ∈ db.negotiations, n.id = i := by
  cases h with
  | start hfree => exact absurd ho (hfree _)
  | lookup hu hk hfree => exact absurd ho (hfree _)
  | produce hu hfree => exact absurd ho (hfree _)
  | heading h => exact h.territory.rows i (h.territory.held _ ho trivial)

/-- A row is on one request. -/
theorem Row.On.unique {i j : Id} (hc : Consistent db) (hi : row.On i db) (hj : row.On j db) :
    i = j := by
  rcases hi with hi | ⟨n, hn, hni, hrow⟩
  · rcases hj with hj | ⟨m, _, _, hrow'⟩
    · exact Row.request.inj (hi.symm.trans hj)
    · rw [hi] at hrow'
      exact absurd hrow' (by simp)
  · rcases hj with hj | ⟨m, hm, hmj, hrow'⟩
    · rw [hj] at hrow
      exact absurd hrow (by simp)
    · have hid : n.id = m.id := Row.negotiation.inj (hrow.symm.trans hrow')
      rw [← hni, ← hmj, hc.negotiation_eq hn hm hid]

end

/-! ## §2. Rivals. -/

variable {calls : Nat → HttpRequest} {envs : Nat → Env} {w w' : Concurrent} {i : Nat}

/-- Request `i` has staged the acceptance of a negotiation on `requestId`. -/
def Accepting (w : Concurrent) (i : Nat) (requestId : Id) : Prop :=
  ∃ neg ∈ w.committed.negotiations, neg.requestId = requestId
    ∧ ∃ a, .decide neg.id (.accepted a) ∈ (w.txs i).staged

/-- An acceptance stages its UPDATE only when no other request has staged the
acceptance of a negotiation on the same request. -/
def NoRival (w : Concurrent) : Event → Prop
  | .step i => ∀ n a, w.sends i = some (.decide n (.accepted a)) →
      ∀ neg ∈ w.committed.negotiations, neg.id = n →
        ∀ j, j ≠ i → ¬ Accepting w j neg.requestId
  | .abort _ => True

/-- One acceptance at a time on each request. -/
def OneAcceptance (w : Concurrent) : Prop :=
  ∀ i j r, i ≠ j → Accepting w i r → ¬ Accepting w j r

/-- An event that stages no acceptance and keeps the outline. -/
theorem OneAcceptance.keep (h : OneAcceptance w)
    (hback : ∀ j r, Accepting w' j r → Accepting w j r) : OneAcceptance w' :=
  fun i j r hij hi hj => h i j r hij (hback i r hi) (hback j r hj)

theorem OneAcceptance.ended (h : OneAcceptance w) {o : Except Error Response}
    (htxs : w'.txs = Function.update w.txs i (.done o)) (hsame : w'.committed = w.committed) :
    OneAcceptance w' := by
  refine h.keep fun j r hj => ?_
  obtain ⟨neg, hneg, hreq, a, ha⟩ := hj
  rw [hsame] at hneg
  rw [htxs] at ha
  exact ⟨neg, hneg, hreq, a, (mem_staged_emptied rfl ha).2⟩

theorem OneAcceptance.move (h : OneAcceptance w) (hs : Sound calls envs w) {e : Event}
    (hok : NoRival w e) (hm : Moves w e w') : OneAcceptance w' := by
  have hs' := hs.move hm
  cases hm with
  | aborted i p ht => exact h.ended rfl rfl
  | returned i a env ws ht => exact h.ended rfl rfl
  | raised i e env ws ht => exact h.ended rfl rfl
  | refused i c k env ws last e ht hl ha => exact h.ended rfl rfl
  | committed i k env ws ht =>
      refine h.keep fun j r hj => ?_
      obtain ⟨neg, hneg, hreq, a, ha⟩ := hj
      obtain ⟨hji, ha⟩ := mem_staged_emptied rfl ha
      -- the row it has locked was there before, on the same request
      have hown : Owns w j (.negotiation neg.id) := hs.orderly.guarded ha rfl
      cases hp : w.txs j with
      | done o =>
          rw [hp] at ha
          exact absurd ha List.not_mem_nil
      | running p =>
          obtain ⟨n, hn, hid⟩ := (hs.stages j p hp).owned hown
          obtain ⟨n', hn', hid', hreq', _⟩ := (hs.committed_rely ht hji).stays n hn
          obtain rfl := hs'.consistent.negotiation_eq hn' hneg (hid'.trans hid)
          exact ⟨n, hn, hreq'.symm.trans hreq, a, by rw [hid]; exact ha⟩
  | answered i c k env ws last r ht hf hl ha =>
      -- only `i` can have staged something, its acceptance
      have hback : ∀ j q, Accepting
          { w with
            owner := grant i (rowLocks.locks c (engine.view ws w.committed)) w.owner
            last := last
            txs := Function.update w.txs i (.running ⟨k r, c.next env, ws ++ c.writes env⟩) } j q →
          Accepting w j q ∨ j = i ∧ ∃ n a, w.sends i = some (.decide n (.accepted a))
            ∧ ∃ neg ∈ w.committed.negotiations, neg.id = n ∧ neg.requestId = q := by
        rintro j q ⟨neg, hneg, hreq, a, ha⟩
        rcases mem_staged_added (c.writes env) (by rw [ht]; rfl) ha with hold | ⟨rfl, hnew⟩
        · exact Or.inl ⟨neg, hneg, hreq, a, hold⟩
        · obtain rfl := Cmd.eq_decide hnew
          refine Or.inr ⟨rfl, neg.id, a, ?_, neg, hneg, rfl, hreq⟩
          unfold World.sends
          rw [ht]
      -- of two acceptances on one request at most one is new, and it had no rival
      intro j l q hjl hj hl'
      rcases hback j q hj with hold | ⟨rfl, n, a, hsends, neg, hneg, hid, hq⟩
      · rcases hback l q hl' with hold' | ⟨rfl, n, a, hsends, neg, hneg, hid, hq⟩
        · exact h j l q hjl hold hold'
        · exact hok n a hsends neg hneg hid j hjl (hq ▸ hold)
      · rcases hback l q hl' with hold' | ⟨rfl, _⟩
        · exact hok n a hsends neg hneg hid l hjl.symm (hq ▸ hold')
        · exact hjl rfl

/-! ## §3. No circle. -/

/-- The waits-for relation on the rows of negotiations and requests. -/
abbrev Waits (w : Concurrent) : Nat → Nat → Prop := w.WaitsFor engine rowLocks Row.Business

/-- A request that is waited for and waits. -/
theorem Sound.waiting (hs : Sound calls envs w) {x i j : Nat} (hx : Waits w x i) (hi : Waits w i j) :
    ∃ r, Accepting w i r ∧ (∀ row, row.Business → Owns w i row → row.On r w.committed)
      ∧ ∃ row, row.Business ∧ Owns w j row ∧ row.On r w.committed := by
  obtain ⟨held, _, _, hheld, _⟩ := hx
  obtain ⟨row, hb, hwants, howner, hji⟩ := hi
  unfold World.wants at hwants
  -- only a statement waits
  match ht : w.txs i with
  | .done o => simp [ht] at hwants
  | .running ⟨.ret a, _, _⟩ => simp [ht] at hwants
  | .running ⟨.raise e, _, _⟩ => simp [ht] at hwants
  | .running ⟨.commit q, _, _⟩ => simp [ht] at hwants
  | .running ⟨.call c k, env, ws⟩ =>
      simp only [ht] at hwants
      have hnot : ¬ Owns w i row := fun ho => hji (Owns.unique (w := w) howner ho)
      obtain ⟨neg, hneg, ⟨a, ha⟩, hon, hall⟩ :=
        (hs.stages i _ ht).waiting hwants hb hnot hheld
      refine ⟨neg.requestId, ⟨neg, hneg, rfl, a, ?_⟩, fun row hb ho => hall row ho hb, row, hb,
        howner, hon⟩
      rw [ht]
      exact ha

/-- **Nothing waits in a circle**, in every run in which no acceptance stages its
UPDATE beside a rival. -/
theorem deadlock_free {db : Db} (h : Reachable db) (calls : Nat → HttpRequest) (envs : Nat → Env)
    {w : Concurrent} (hrun : World.Run engine rowLocks NoRival (db.opened calls envs) w) (i : Nat) :
    ¬ Relation.TransGen (Waits w) i i := by
  have hinv : Sound calls envs w ∧ OneAcceptance w := by
    refine World.Run.invariant (P := fun w => Sound calls envs w ∧ OneAcceptance w)
      engine rowLocks ?_ hrun ?_
    · intro w e w' hw hok hm
      exact ⟨hw.1.move hm, hw.2.move hw.1 hok hm⟩
    · refine ⟨.opened h.consistent, ?_⟩
      rintro i j r _ ⟨neg, _, _, a, ha⟩
      exact absurd ha List.not_mem_nil
  obtain ⟨hs, hone⟩ := hinv
  refine no_cycle ?_ i
  -- `b` and `c` are acceptances, and the row between them is on both requests
  intro a b c d hab hbc hcd
  obtain ⟨r, hb, _, row, hrow, hown, hon⟩ := hs.waiting hab hbc
  obtain ⟨r', hc, hall, _⟩ := hs.waiting hbc hcd
  obtain rfl : r = r' := hon.unique hs.consistent (hall row hrow hown)
  obtain ⟨_, _, _, _, hne⟩ := hbc
  exact hone b c r hne.symm hb hc

/-- The UPDATE of an acceptance. -/
def Cmd.accepts : Cmd → Bool
  | .decide _ (.accepted _) => true
  | _ => false

/-- Only request `i` sends that UPDATE. -/
def AcceptsOnly (i : Nat) (w : Concurrent) : Event → Prop
  | .step j => ∀ c ∈ w.sends j, c.accepts = true → j = i
  | .abort _ => True

instance (i : Nat) (w : Concurrent) : (e : Event) → Decidable (AcceptsOnly i w e)
  | .step j => inferInstanceAs (Decidable (∀ c ∈ w.sends j, c.accepts = true → j = i))
  | .abort _ => .isTrue trivial

/-- Nobody but request `i` has staged an acceptance. -/
def StagedOnly (i : Nat) (w : Concurrent) : Prop :=
  ∀ j n a, .decide n (.accepted a) ∈ (w.txs j).staged → j = i

theorem StagedOnly.move (h : StagedOnly i w) {e : Event} (hok : AcceptsOnly i w e)
    (hm : Moves w e w') : StagedOnly i w' := by
  intro j n a ha
  cases hm with
  | aborted l p ht => exact h j n a (mem_staged_emptied rfl ha).2
  | returned l x env ws ht => exact h j n a (mem_staged_emptied rfl ha).2
  | raised l e env ws ht => exact h j n a (mem_staged_emptied rfl ha).2
  | refused l c k env ws last e ht hl hr => exact h j n a (mem_staged_emptied rfl ha).2
  | committed l k env ws ht => exact h j n a (mem_staged_emptied rfl ha).2
  | answered l c k env ws last r ht hf hl hr =>
      rcases mem_staged_added (c.writes env) (by rw [ht]; rfl) ha with hold | ⟨rfl, hnew⟩
      · exact h j n a hold
      · obtain rfl := Cmd.eq_decide hnew
        refine hok (.decide n (.accepted a)) ?_ rfl
        unfold World.sends
        rw [ht]
        rfl

/-- As long as only one request accepts, it has no rival, whoever runs beside it. -/
theorem noRival_of_acceptsOnly (h : StagedOnly i w)
    (hrun : World.Run engine rowLocks (AcceptsOnly i) w w') :
    World.Run engine rowLocks NoRival w w' ∧ StagedOnly i w' := by
  induction hrun with
  | refl => exact ⟨.refl, h⟩
  | tail _ hn ih =>
      obtain ⟨e, hok, hnext⟩ := hn
      obtain ⟨hrival, honly⟩ := ih
      refine ⟨hrival.tail ⟨e, ?_, hnext⟩, honly.move hok (World.next_cases engine rowLocks hnext)⟩
      cases e with
      | abort j => exact trivial
      | step j =>
          -- a rival would be the sender himself
          rintro n a hsends neg _ _ l hl ⟨_, _, _, b, hb⟩
          exact hl ((honly l _ b hb).trans (hok _ hsends rfl).symm)

/-- The acceptance of the first bid and the rejection of the second one, in turns: the
acceptance has locked both negotiations by the time the rejection asks for the second. -/
theorem deadlock_free_market :
    ∃ w, World.Run engine rowLocks NoRival (market.opened decisions decisionEnvs) w
      ∧ Waits w 1 0 ∧ ∀ i, ¬ Relation.TransGen (Waits w) i i := by
  have hrun : ((market.opened decisions decisionEnvs).runs engine rowLocks (AcceptsOnly 0)
      (eventsOf 0 4 ++ eventsOf 1 1 ++ eventsOf 0 6)).map (fun w =>
        (w.wants engine rowLocks 1, w.owner (.negotiation 2)))
      = some (some (.negotiation 2), some 0) := by decide +kernel
  obtain ⟨w, hw, hwaits⟩ := Option.map_eq_some_iff.mp hrun
  obtain ⟨hwant, howner⟩ := Prod.mk.inj hwaits
  have honly : StagedOnly 0 (market.opened decisions decisionEnvs) :=
    fun _ _ _ ha => absurd ha List.not_mem_nil
  have hreach := (noRival_of_acceptsOnly honly (World.Run.of_runs engine rowLocks hw)).1
  exact ⟨w, hreach, ⟨.negotiation 2, trivial, hwant, howner, by decide⟩,
    deadlock_free market_reachable decisions decisionEnvs hreach⟩

/-- The client accepts both bids of the market at once. -/
def rivals : Nat → HttpRequest
  | 0 => plain 1 (.accept 1)
  | _ => plain 1 (.accept 2)

/-- **The two acceptances wait for each other**: the first has locked the request
and asks for the second negotiation, the second has locked its negotiation and
asks for the request. -/
theorem rival_acceptances :
    ∃ w, World.Run engine rowLocks World.anyStep (market.opened rivals decisionEnvs) w
      ∧ Waits w 0 1 ∧ Waits w 1 0 ∧ Relation.TransGen (Waits w) 0 0 := by
  have hrun : ((market.opened rivals decisionEnvs).runs engine rowLocks World.anyStep
      (eventsOf 0 9 ++ eventsOf 1 6)).map (fun w =>
        ((w.wants engine rowLocks 0, w.owner (.negotiation 2)),
          (w.wants engine rowLocks 1, w.owner (.request 1))))
      = some ((some (.negotiation 2), some 1), (some (.request 1), some 0)) := by decide +kernel
  obtain ⟨w, hw, hwaits⟩ := Option.map_eq_some_iff.mp hrun
  simp only [Prod.mk.injEq] at hwaits
  obtain ⟨⟨hwant0, howner1⟩, hwant1, howner0⟩ := hwaits
  have h01 : Waits w 0 1 := ⟨.negotiation 2, trivial, hwant0, howner1, by decide⟩
  have h10 : Waits w 1 0 := ⟨.request 1, trivial, hwant1, howner0, by decide⟩
  exact ⟨w, World.Run.of_runs engine rowLocks hw, h01, h10, .tail (.single h01) h10⟩

end Procurement
