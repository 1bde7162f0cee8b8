/-
  Procurement.Concurrency.Progress
  ────────────────────────────────
  **ONE STATEMENT OF ONE REQUEST.**

  `Stage.step`: a request that stands somewhere, and whose next statement is
  answered, stands somewhere again.  Between two goals this is `Reaches.advance`,
  for all operations at once.  What is left is one case for each statement
  whose answer is news.
-/
import Procurement.Concurrency.Stages

namespace Procurement

open Procurement.Framework
open Procurement.Framework.Program

/-! ## §1. On the way. -/

/-- The statement `c` of a request that owns `own` is answered `r`, and the
request owns `own'` then. -/
structure Answered (own own' : Row → Prop) (db : Db) (c : Cmd) (env : Env) (ws : List Write)
    (r : c.Resp) : Prop where
  owns : ∀ row, own' row ↔ own row ∨ c.locks (engine.view ws db) = some row
  answer : engine.answer c env (engine.view ws db) = .ok r
  draws : ∀ t, c.table = some t → ∀ i ∈ db.ids t, i < (env.stamp t).id

section
variable {own own' : Row → Prop} {db : Db} {req : HttpRequest} {env env' : Env}
  {c : Cmd} {k : c.Resp → Prog Response} {ws : List Write} {r : c.Resp} {goal : At Response}
  {T : Row → Prop} {F : Db → Prop}

/-- The first step of a way. -/
theorem Heading.enter (hreach : engine.Reaches (Within T) F ⟨.call c k, env', ws⟩ goal)
    (hne : goal ≠ ⟨.call c k, env', ws⟩) (ha : Answered own own' db c env' ws r) (hF : F db)
    (hkept : ∀ d d', Rely own' d d' → F d → F d') (hgoal : Goal own' db req env T goal)
    (ht : Territory own' db (ws ++ c.writes env') T) :
    Heading own' db req env ⟨k r, c.next env', ws ++ c.writes env'⟩ goal T F := by
  obtain ⟨_, r', hr', hrest⟩ := hreach.advance hne hF
  obtain rfl : r = r' := Except.ok.inj (ha.answer.symm.trans hr')
  exact ⟨hF, hkept, hrest, hgoal, ht⟩

/-- What it owns it keeps. -/
theorem Answered.mono (ha : Answered own own' db c env' ws r) {row : Row} (ho : own row) :
    own' row := (ha.owns row).mpr (Or.inl ho)

/-- Any other step. -/
theorem Heading.step (h : Heading own db req env ⟨.call c k, env', ws⟩ goal T F)
    (hne : goal ≠ ⟨.call c k, env', ws⟩) (ha : Answered own own' db c env' ws r) :
    Heading own' db req env ⟨k r, c.next env', ws ++ c.writes env'⟩ goal T F := by
  refine Heading.enter h.reaches hne ha h.fact ?_ (h.goal.mono fun _ => ha.mono) ?_
  · exact fun d d' hr => h.kept d d' (hr.mono fun _ => ha.mono)
  · exact h.territory.step ha.owns fun row hl _ => (h.reaches.advance hne h.fact).1 _ row hl

/-- A request that owns nothing has no territory. -/
theorem Territory.free (hfree : ∀ row, ¬ own row) (ws : List Write) :
    Territory own db ws fun _ => False where
  rows := fun _ h => h.elim
  held := fun row ho => absurd ho (hfree row)
  content := Or.inl fun _ ht => ht.elim

/-- A statement without a lock. -/
theorem Answered.same (ha : Answered own own' db c env' ws r)
    (hl : c.locks (engine.view ws db) = none) : own' = own := by
  funext row
  apply propext
  rw [ha.owns row, hl]
  simp

/-! ## §2. From the token to the operation. -/

/-- Every operation starts with a statement. -/
theorem produce_call (op : Op) (user : User) (k' : Body → Prog Response) :
    ∃ c k, op.produce user >>= k' = .call c k := by
  cases op <;> exact ⟨_, _, rfl⟩

/-- Behind the answer about the caller. -/
theorem Stage.admitted {user : User} (hu : db.user req.caller = some user)
    (hfree : ∀ row, ¬ own row) :
    Stage own db req env ⟨requireRole req.op.role user >>= fun user =>
      idempotent ⟨user, req.key⟩ req.path (req.op.produce user) req.op.statusCode, env, []⟩ := by
  by_cases hp : req.Permits user
  · rw [requireRole_of_permits hp, ret_bind, idempotent_eq]
    cases hk : req.usedKey with
    | none => exact .produce ⟨hu, hp⟩ hfree
    | some k => exact .lookup ⟨hu, hp⟩ hk hfree
  · obtain ⟨e, he⟩ := requireRole_of_not_permits hp
    rw [he, raise_bind]
    exact .heading (.here (.raise _ _ _) (.free hfree _))

/-- Behind the answer about the key. -/
theorem Stage.looked {user : User} (hu : Admitted db req user) (hfree : ∀ row, ¬ own row)
    (record : Option IdempotencyKey) : Stage own db req env ⟨lookedUp req user record, env, []⟩ := by
  cases record with
  | none => exact .produce hu hfree
  | some record =>
      by_cases h : record.userId = user.id
      · rw [lookedUp_own h]
        exact .heading (.here (.ret _ _) (.free hfree _))
      · rw [lookedUp_other h]
        exact .heading (.here (.raise _ _ _) (.free hfree _))

/-! ## §3. The statements that take the first lock. -/

/-- A request that owned nothing and has been granted the one business row of
its territory. -/
theorem Territory.first {row : Row} (hfree : ∀ row, ¬ own row)
    (hown : ∀ row', own' row' ↔ own row' ∨ some row = some row')
    (hT : ∀ row', T row' → row'.Business → row' = row) (hrow : T row)
    (hrows : ∀ i, T (.negotiation i) → ∃ n ∈ db.negotiations, n.id = i) (ws : List Write) :
    Territory own' db ws T where
  rows := hrows
  held := by
    intro row' ho _
    rcases (hown row').mp ho with ho | he
    · exact absurd ho (hfree row')
    · exact Option.some.inj he ▸ hrow
  content := Or.inl fun row' ht hb => (hown row').mpr (Or.inr (congrArg some (hT row' ht hb).symm))

theorem Stage.createRequest {user : User} {data : ProductRequestIn} (hu : Admitted db req user)
    (hop : req.op = .createRequest data) (hfree : ∀ row, ¬ own row)
    (hp : Program.call c k = (Op.createRequest data).produce user >>= finish req user)
    (ha : Answered own own' db c env [] r) :
    Stage own' db req env ⟨k r, c.next env, [] ++ c.writes env⟩ := by
  let o := createProduced user env data
  have hreach : engine.Reaches (Within fun _ => False) (fun _ => True) ⟨.call c k, env, []⟩
      ⟨finish req user o.body, o.env, o.writes⟩ := by
    rw [hp]
    exact produce_createRequest (.refl _)
  have hne : (⟨finish req user o.body, o.env, o.writes⟩ : At Response) ≠ ⟨.call c k, env, []⟩ := by
    intro he
    exact absurd (congrArg Point.staged he) (by simp [o, createProduced, createWrites])
  have hl : c.locks (engine.view [] db) = none := by
    cases hl : c.locks (engine.view [] db) with
    | none => rfl
    | some row =>
        obtain ⟨hwithin, _⟩ : Within (fun _ => False) c
            ∧ ∃ r, engine.answer c env (engine.view [] db) = .ok r ∧ _ := hreach.advance hne trivial
        exact (hwithin _ row hl).elim
  have hfree' : ∀ row, ¬ own' row := by
    rw [ha.same hl]
    exact hfree
  have hready : Ready own' db user env req.op o := by
    rw [hop]
    exact .createRequest data
  exact .heading (.enter hreach hne ha trivial (fun _ _ _ h => h) (.finish hu hready)
    (.free hfree' _))

theorem Stage.makeOffer {user : User} {rid : Id} {data : OfferIn} (hu : Admitted db req user)
    (hop : req.op = .makeOffer rid data) (hfree : ∀ row, ¬ own row)
    (hp : Program.call c k = (Op.makeOffer rid data).produce user >>= finish req user)
    (ha : Answered own own' db c env [] r) :
    Stage own' db req env ⟨k r, c.next env, [] ++ c.writes env⟩ := by
  have hcall : Program.call c k = .call (.getRequestForUpdate rid) _ := hp
  obtain ⟨rfl, hk⟩ := Program.call.inj hcall
  have hr : db.request rid = r := Except.ok.inj ha.answer
  cases hrow : db.request rid with
  | none =>
      obtain rfl := eq_of_heq hk
      have hl : (Cmd.getRequestForUpdate rid).locks (engine.view [] db) = none := by
        show (db.request rid).map _ = none
        rw [hrow]
        rfl
      rw [← hr, hrow, ha.same hl]
      exact .heading (.here (.raise _ _ _) (.free hfree _))
  | some q =>
      obtain rfl : q.id = rid := lookup_key hrow
      have hown : ∀ row', own' row' ↔ own row' ∨ some (Row.request q.id) = some row' := by
        intro row'
        rw [ha.owns row']
        show _ ∨ (db.request q.id).map _ = _ ↔ _
        rw [hrow]
        rfl
      have hq : own' (.request q.id) := (hown _).mpr (Or.inr rfl)
      let T : Row → Prop := fun row => row = .request q.id ∨ row = .thread q.id user.id
      have hterritory : Territory own' db ([] ++ (Cmd.getRequestForUpdate q.id).writes env) T := by
        refine .first hfree hown ?_ (Or.inl rfl) ?_ _
        · intro row' h hb
          rcases h with h | h
          · exact h
          · rw [h] at hb
            exact hb.elim
        · intro i h
          rcases h with h | h <;> exact absurd h (by simp)
      have hread : OfferReading q user.id (db.thread q.id user.id).isSome db := ⟨hrow, rfl⟩
      -- the row is locked: from here on the two guards are decided
      by_cases hgo : q.status = .opened ∧ (db.thread q.id user.id).isSome = false
      · rw [hgo.2] at hread
        have hreach : engine.Reaches (Within T) (OfferReading q user.id false)
            ⟨.call (.getRequestForUpdate q.id) k, env, []⟩
            ⟨negotiationOut (env.offered user q.id) >>= finish req user, env.afterOffer,
              offerWrites env user q.id data⟩ := by
          rw [hp]
          simp only [Op.produce, Program.bind_assoc]
          exact makeOffer_reaches (Or.inl rfl) (Or.inr rfl) (fun _ h => h) hgo.1 (.refl _)
        refine .heading (.enter hreach ?_ ha hread (fun d d' hr h => h.rely hr hq)
          (.render hu hop hq hread hgo.1) hterritory)
        intro he
        exact absurd (congrArg Point.staged he) (by simp [offerWrites])
      · obtain ⟨e, hreach⟩ : ∃ e, engine.Reaches (Within T)
            (OfferReading q user.id (db.thread q.id user.id).isSome)
            ⟨.call (.getRequestForUpdate q.id) k, env, []⟩ ⟨.raise e, env, []⟩ := by
          rw [hp]
          simp only [Op.produce, Program.bind_assoc]
          exact makeOffer_fails (Or.inl rfl) (fun _ h => h) hgo
        refine .heading (.enter hreach ?_ ha hread (fun d d' hr h => h.rely hr hq)
          (.raise _ _ _) hterritory)
        intro he
        exact absurd (congrArg Point.prog he) (by simp)

/-- The three decisions: the locked read of the negotiation. -/
theorem Stage.decision {user : User} {n : Id} {k' : Negotiation → Prog Response}
    (hc : Consistent db) (hfree : ∀ row, ¬ own row)
    (hp : Program.call c k = loadActiveForResponse user n >>= k')
    (ha : Answered own own' db c env [] r)
    (hgo : ∀ neg client ps last, neg.id = n → own' (.negotiation neg.id) →
      Reading neg client ps db → MayRespond user neg client ps last →
      ∃ goal, goal ≠ ⟨.call c k, env, []⟩ ∧ Goal own' db req env (· = .negotiation neg.id) goal
        ∧ engine.Reaches (Within (· = .negotiation neg.id)) (Reading neg client ps)
          ⟨loadActiveForResponse user neg.id >>= k', env, []⟩ goal) :
    Stage own' db req env ⟨k r, c.next env, [] ++ c.writes env⟩ := by
  have hcall : Program.call c k = .call (.getNegotiationForUpdate n) _ := hp
  obtain ⟨rfl, hk⟩ := Program.call.inj hcall
  have hr : db.negotiation n = r := Except.ok.inj ha.answer
  cases hrow : db.negotiation n with
  | none =>
      obtain rfl := eq_of_heq hk
      have hl : (Cmd.getNegotiationForUpdate n).locks (engine.view [] db) = none := by
        show (db.negotiation n).map _ = none
        rw [hrow]
        rfl
      rw [← hr, hrow, ha.same hl]
      exact .heading (.here (.raise _ _ _) (.free hfree _))
  | some neg =>
      obtain rfl : neg.id = n := lookup_key hrow
      have hown : ∀ row', own' row' ↔ own row' ∨ some (Row.negotiation neg.id) = some row' := by
        intro row'
        rw [ha.owns row']
        show _ ∨ (db.negotiation neg.id).map _ = _ ↔ _
        rw [hrow]
        rfl
      have hneg : own' (.negotiation neg.id) := (hown _).mpr (Or.inr rfl)
      have hterritory : Territory own' db
          ([] ++ (Cmd.getNegotiationForUpdate neg.id).writes env) (· = .negotiation neg.id) := by
        refine .first hfree hown (fun _ h _ => h) rfl ?_ _
        intro i h
        exact ⟨neg, lookup_mem hrow, (Row.negotiation.inj h).symm⟩
      obtain ⟨q, hq, hid, _⟩ := hc.chain (lookup_mem hrow)
      have hqrow : db.request neg.requestId = some q := by
        rw [← hid]
        exact lookup_of_mem hc.requestIds hq
      have hread : Reading neg q.clientId (db.proposalsOf neg.id) db :=
        ⟨hrow, ⟨q, hqrow, rfl⟩, rfl⟩
      -- so are the guards of a decision, once the negotiation is locked
      by_cases hm : ∃ last, MayRespond user neg q.clientId (db.proposalsOf neg.id) last
      · obtain ⟨last, hm⟩ := hm
        obtain ⟨goal, hne, hgoal, hreach⟩ := hgo neg _ _ last rfl hneg hread hm
        rw [← hp] at hreach
        exact .heading (.enter hreach hne ha hread (fun d d' hr h => h.rely hr hneg) hgoal
          hterritory)
      · push Not at hm
        obtain ⟨e, hreach⟩ : ∃ e, engine.Reaches (Within (· = .negotiation neg.id))
            (Reading neg q.clientId (db.proposalsOf neg.id))
            ⟨.call (.getNegotiationForUpdate neg.id) k, env, []⟩ ⟨.raise e, env, []⟩ := by
          rw [hp]
          exact load_fails (R := (· = .negotiation neg.id)) rfl (fun _ h => h) hm k'
        refine .heading (.enter hreach ?_ ha hread (fun d d' hr h => h.rely hr hneg)
          (.raise _ _ _) hterritory)
        intro he
        exact absurd (congrArg Point.prog he) (by simp)

/-- The first statement of an operation. -/
theorem Stage.produced {user : User} (hu : Admitted db req user) (hc : Consistent db)
    (hfree : ∀ row, ¬ own row)
    (hp : Program.call c k = req.op.produce user >>= finish req user)
    (ha : Answered own own' db c env [] r) :
    Stage own' db req env ⟨k r, c.next env, [] ++ c.writes env⟩ := by
  generalize hop : req.op = op at hp
  cases op with
  | createRequest data => exact .createRequest hu hop hfree hp ha
  | makeOffer rid data => exact .makeOffer hu hop hfree hp ha
  | accept n =>
      simp only [Op.produce, accept_eq, Program.bind_assoc] at hp
      -- an acceptance runs on to the lock of its request
      refine .decision hc hfree hp ha fun neg client ps last hid hneg h hm => ?_
      subst hid
      refine ⟨_, ?_, .lock hu hop hneg h hm fun _ h _ => h, ?_⟩
      · intro he
        exact absurd (congrArg Point.staged he) (by simp)
      · simpa only [accept_eq, Program.bind_assoc] using
          accept_reaches_lock (R := (· = .negotiation neg.id)) rfl (fun _ h => h) hm
            (k := fun n => negotiationOut n >>= finish req user) (.refl _)
  | reject n =>
      simp only [Op.produce, reject, Program.bind_assoc] at hp
      -- a rejection locks nothing more: it runs to its end
      refine .decision hc hfree hp ha fun neg client ps last hid hneg h hm => ?_
      subst hid
      have hready : Ready own' db user env req.op (rejectProduced user env neg ps) := by
        rw [hop]
        exact .reject hneg h hm
      refine ⟨_, ?_, .finish hu hready, ?_⟩
      · intro he
        exact absurd (congrArg Point.staged he) (by simp [rejectProduced, rejectWrites])
      · simpa only [Op.produce, reject, Program.bind_assoc] using
          produce_reject (R := (· = .negotiation neg.id)) rfl (fun _ h => h) hm
            (k := finish req user) (.refl _)
  | counter n data =>
      simp only [Op.produce, counter, Program.bind_assoc] at hp
      -- a counter runs on to its INSERT, whose drawn id is news
      refine .decision hc hfree hp ha fun neg client ps last hid hneg h hm => ?_
      subst hid
      refine ⟨_, ?_, .insert hu hop hneg h hm, ?_⟩
      · -- the statement before is not the INSERT
        intro he
        have hprog := congrArg Point.prog he
        rw [hp] at hprog
        exact absurd (Program.call.inj hprog).1 (by simp)
      · simpa only [counter, Program.bind_assoc] using
          counter_reaches_insert (R := (· = .negotiation neg.id)) rfl (fun _ h => h) hm
            (k := fun n => negotiationOut n >>= finish req user) (.refl _)

/-! ## §4. The other statements whose answer is news. -/

/-- An offer reads the proposals of its new negotiation: its own one. -/
theorem Stage.render {user : User} {q : ProductRequest} {data : OfferIn}
    (hu : Admitted db req user) (hop : req.op = .makeOffer q.id data) (hreq : own (.request q.id))
    (h : OfferReading q user.id false db) (ho : q.status = .opened) (hc : Consistent db)
    (hp : Program.call c k = negotiationOut (env.offered user q.id) >>= finish req user)
    (ht : Territory own db (offerWrites env user q.id data) T)
    (ha : Answered own own' db c env.afterOffer (offerWrites env user q.id data) r)
    (hunused : (env.offered user q.id).id ∉ db.ids .negotiations) :
    Stage own' db req env
      ⟨k r, c.next env.afterOffer, offerWrites env user q.id data ++ c.writes env.afterOffer⟩ := by
  have hcall : Program.call c k = .call (.proposals (env.offered user q.id).id) _ := hp
  obtain ⟨rfl, hk⟩ := Program.call.inj hcall
  obtain rfl := eq_of_heq hk
  -- no committed proposal has the new id
  have hnone : db.proposalsOf (env.offered user q.id).id = [] := hc.proposalsOf_new hunused
  have hins : insertedProposals (env.offered user q.id).id (offerWrites env user q.id data)
      = [env.opening user q.id data] := by
    simp [offerWrites, insertedProposals, Env.opening, Env.proposalOf, Env.newProposal]
  have hr : orderById ((engine.view (offerWrites env user q.id data) db).proposalsOf
      (env.offered user q.id).id) = r := Except.ok.inj ha.answer
  rw [proposalsOf_view, hnone, hins] at hr
  subst hr
  have hready : Ready own' db user env req.op (offerProduced user env q.id data []) := by
    rw [hop]
    exact .makeOffer data (ha.mono hreq) h ho
  refine .heading (F := fun _ => True)
    ⟨trivial, fun _ _ _ h => h, ?_, .finish hu hready, ht.step ha.owns ?_⟩
  · exact .read (r := ()) quiet rfl rfl (fun _ _ => rfl) (.refl _)
  · intro row hl
    exact absurd hl (by simp [Cmd.locks])

/-- A counterproposal draws its id, which comes after all ids of the table. -/
theorem Stage.insert {user : User} {neg : Negotiation} {client : Id} {ps : List Proposal}
    {last : Proposal} {data : CounterIn} (hu : Admitted db req user)
    (hop : req.op = .counter neg.id data) (hneg : own (.negotiation neg.id))
    (h : Reading neg client ps db) (hm : MayRespond user neg client ps last)
    (hp : Program.call c k = counterProposing user neg last data >>= fun n =>
      negotiationOut n >>= finish req user)
    (ht : Territory own db [] T) (ha : Answered own own' db c env [] r) :
    Stage own' db req env ⟨k r, c.next env, [] ++ c.writes env⟩ := by
  have hcall : Program.call c k = .call (.insertProposal neg.id user.id user.role .counter
    data.amount last.currency data.message) _ := hp
  have hcmd := (Program.call.inj hcall).1
  -- the sequence is behind all committed ids
  have hlater : ∀ q ∈ ps, q.id < (env.stamp .proposals).id := by
    intro q hq
    rw [← h.proposals] at hq
    have hmem : q ∈ db.proposals := List.mem_of_mem_filter hq
    exact ha.draws .proposals (by rw [hcmd]; rfl) _ (List.mem_map_of_mem hmem)
  have hready : Ready own' db user env req.op (counterProduced user env neg ps last data) := by
    rw [hop]
    exact .counter data (ha.mono hneg) h hm hlater
  have hreach : engine.Reaches (Within T) (Reading neg client ps) ⟨.call c k, env, []⟩
      ⟨finish req user (counterProduced user env neg ps last data).body,
        (counterProduced user env neg ps last data).env,
        (counterProduced user env neg ps last data).writes⟩ := by
    rw [hp]
    exact produce_countering (fun _ h => h.proposals) (.refl _)
  refine .heading (.enter hreach ?_ ha h (fun d d' hr h => h.rely hr (ha.mono hneg))
    (.finish hu hready) (ht.step ha.owns ?_))
  · intro he
    exact absurd (congrArg Point.staged he) (by simp [counterProduced, counterWrites])
  · intro row hl
    rw [hcmd] at hl
    exact absurd hl (by simp [Cmd.locks])

/-- An acceptance locks its request. -/
theorem Stage.lock {user : User} {neg : Negotiation} {client : Id} {ps : List Proposal}
    {last : Proposal} (hu : Admitted db req user) (hop : req.op = .accept neg.id)
    (hneg : own (.negotiation neg.id)) (h : Reading neg client ps db)
    (hm : MayRespond user neg client ps last)
    (hT : ∀ row, T row → row.Business → row = .negotiation neg.id)
    (ht : Territory own db [.decide neg.id (.accepted last.amount)] T)
    {q : Option ProductRequest} (ha : Answered own own' db (.getRequestForUpdate neg.requestId) env
      [.decide neg.id (.accepted last.amount)] q) :
    Stage own' db req env ⟨acceptLocked user neg last q >>= fun n =>
      negotiationOut n >>= finish req user, env, [.decide neg.id (.accepted last.amount)]⟩ := by
  obtain ⟨r, hrow, _⟩ := h.owner
  obtain rfl : some r = q := hrow.symm.trans (Except.ok.inj ha.answer)
  have hid : r.id = neg.requestId := lookup_key hrow
  have hlock : (Cmd.getRequestForUpdate neg.requestId).locks
      (engine.view [.decide neg.id (.accepted last.amount)] db) = some (.request r.id) := by
    show (db.request neg.requestId).map _ = _
    rw [hrow, hid]
    rfl
  have hreq : own' (.request r.id) := (ha.owns _).mpr (Or.inr hlock)
  -- its own negotiation and its request: both are locked now
  let T' : Row → Prop := fun row => row = .negotiation neg.id ∨ row = .request r.id
  have hT' : Territory own' db [.decide neg.id (.accepted last.amount)] T' := by
    refine ⟨?_, ?_, Or.inl ?_⟩
    · intro i hi
      rcases hi with hi | hi
      · exact ⟨neg, lookup_mem h.row, (Row.negotiation.inj hi).symm⟩
      · exact absurd hi (by simp)
    · intro row ho hb
      rcases (ha.owns row).mp ho with ho | hl
      · exact Or.inl (hT row (ht.held row ho hb) hb)
      · rw [hlock] at hl
        exact Or.inr (Option.some.inj hl).symm
    · intro row hrow' _
      rcases hrow' with hrow' | hrow'
      · rw [hrow']
        exact ha.mono hneg
      · rw [hrow']
        exact hreq
  exact .heading (.here (.select hu hop (ha.mono hneg) hreq h hm hrow fun row h _ => h) hT')

/-- An acceptance reads its siblings.  From here on its territory is not its
own: the rows of these siblings. -/
theorem Stage.select {user : User} {neg : Negotiation} {client : Id} {ps : List Proposal}
    {last : Proposal} {q : ProductRequest} (hu : Admitted db req user)
    (hop : req.op = .accept neg.id) (hneg : own (.negotiation neg.id)) (hreq : own (.request q.id))
    (h : Reading neg client ps db) (hm : MayRespond user neg client ps last)
    (hrow : db.request neg.requestId = some q)
    (hT : ∀ row, T row → row.Business → row = .negotiation neg.id ∨ row = .request q.id)
    (hc : Consistent db) (ht : Territory own db [.decide neg.id (.accepted last.amount)] T)
    {l : List Negotiation} (ha : Answered own own' db (.activeSiblings q.id neg.id) env
      [.decide neg.id (.accepted last.amount)] l) :
    Stage own' db req env ⟨acceptSuperseding user neg last q l >>= fun n =>
      negotiationOut n >>= finish req user, env, [.decide neg.id (.accepted last.amount)]⟩ := by
  have hid : q.id = neg.requestId := lookup_key hrow
  have hl : env.order (db.activeSiblings q.id neg.id) = l := by
    rw [← activeSiblings_decide neg.id (.accepted last.amount) db q.id]
    exact Except.ok.inj ha.answer
  -- whatever the order of the SELECT, the siblings are rows of the request
  have hmem : ∀ n ∈ l, n ∈ db.negotiations ∧ n.requestId = q.id := by
    intro n hn
    rw [← hl] at hn
    have hn' := mem_activeSiblings.mp ((env.order_perm _).mem_iff.mp hn)
    exact ⟨hn'.1, hn'.2.1⟩
  have hready : Ready own' db user env req.op (acceptProduced user env neg ps last q l) := by
    rw [hop, ← hl]
    exact .accept (ha.mono hneg) (ha.mono hreq) h hm hrow (.selected hc env neg q)
  let T' : Row → Prop := fun row => row = .negotiation neg.id ∨ row = .request q.id
    ∨ ∃ n ∈ l, row = .negotiation n.id
  refine .heading (T := T') (F := Reading neg client ps)
    ⟨h, fun d d' hr h => h.rely hr (ha.mono hneg), ?_, .finish hu hready, ?_, ?_, Or.inr ?_⟩
  · exact produce_superseding (Or.inr (Or.inl rfl))
      (fun n hn => Or.inr (Or.inr ⟨n, hn, rfl⟩)) (fun _ h => h.proposals) (.refl _)
  · intro i hi
    rcases hi with hi | hi | ⟨n, hn, hi⟩
    · exact ⟨neg, lookup_mem h.row, (Row.negotiation.inj hi).symm⟩
    · exact absurd hi (by simp)
    · exact ⟨n, (hmem n hn).1, (Row.negotiation.inj hi).symm⟩
  · intro row ho hb
    rcases (ha.owns row).mp ho with ho | hl
    · rcases hT row (ht.held row ho hb) hb with h | h
      · exact Or.inl h
      · exact Or.inr (Or.inl h)
    · exact absurd hl (by simp [Cmd.locks])
  · -- all of it is on one request
    refine ⟨neg, lookup_mem h.row, ⟨last.amount, List.mem_cons_self ..⟩, ?_⟩
    intro row hrow' _
    rcases hrow' with hrow' | hrow' | ⟨n, hn, hrow'⟩
    · exact Or.inr ⟨neg, lookup_mem h.row, rfl, hrow'⟩
    · exact Or.inl (hrow'.trans (congrArg Row.request hid))
    · obtain ⟨hn, hnreq⟩ := hmem n hn
      exact Or.inr ⟨n, hn, hnreq.trans hid, hrow'⟩

/-- A finished operation saves its key. -/
theorem Stage.save {user : User} {o : Produced} (hu : Admitted db req user)
    (h : Ready own db user env req.op o) (hp : Program.call c k = finish req user o.body)
    (ht : Territory own db o.writes T) (ha : Answered own own' db c o.env o.writes r) :
    Stage own' db req env ⟨k r, c.next o.env, o.writes ++ c.writes o.env⟩ := by
  cases hk : req.usedKey with
  | none =>
      rw [finish_of_none hk] at hp
      exact absurd hp (by simp)
  | some key =>
      rw [finish_of_some hk] at hp
      obtain ⟨rfl, hk'⟩ := Program.call.inj hp
      obtain rfl := eq_of_heq hk'
      -- the INSERT went through, so the key is new
      have hview := idempotencyKeys_view o.writes db
      rw [h.insertedKeys, List.append_nil] at hview
      have hfree : db.idempotencyKey key = none := by
        have hnone := answer_insertKey.mp ha.answer
        unfold Db.idempotencyKey at hnone ⊢
        rwa [hview] at hnone
      have hwrites : o.writes ++ (Cmd.insertKey (req.record key user o.body)).writes o.env
          = committedWrites req user o := by
        unfold committedWrites keyWrites
        rw [hk]
        rfl
      have ht' : Territory own' db
          (o.writes ++ (Cmd.insertKey (req.record key user o.body)).writes o.env) T := by
        refine ht.step ha.owns fun row hl hb => ?_
        obtain rfl : Row.key key = row := Option.some.inj hl
        exact hb.elim
      rw [hwrites] at ht' ⊢
      refine .heading (.here (.commit hu (h.mono fun _ => ha.mono) ?_) ht')
      intro k' hkk
      obtain rfl : key = k' := Option.some.inj (hk.symm.trans hkk)
      exact ⟨(ha.owns _).mpr (Or.inr rfl), hfree⟩

/-- **A statement at a goal.**  `hunused`: the ids staged so far are in no
table. -/
theorem Goal.step (hg : Goal own db req env T ⟨.call c k, env', ws⟩) (hc : Consistent db)
    (ht : Territory own db ws T) (ha : Answered own own' db c env' ws r)
    (hunused : ∀ wr ∈ ws, ∀ t i, wr.stamp = some (t, i) → i ∉ db.ids t) :
    Stage own' db req env ⟨k r, c.next env', ws ++ c.writes env'⟩ := by
  generalize hp : (⟨.call c k, env', ws⟩ : At Response) = p at hg
  cases hg with
  | raise e env'' ws' => exact absurd (congrArg Point.prog hp) (by simp)
  | ret r env'' => exact absurd (congrArg Point.prog hp) (by simp)
  | commit hu h hk => exact absurd (congrArg Point.prog hp) (by simp)
  | render hu hop hreq h ho =>
      obtain ⟨hprog, henv, hws⟩ := Point.mk.inj hp
      subst henv hws
      exact .render hu hop hreq h ho hc hprog ht ha (hunused _ (List.mem_cons_self ..) _ _ rfl)
  | insert hu hop hneg h hm =>
      obtain ⟨hprog, henv, hws⟩ := Point.mk.inj hp
      obtain rfl : env = env' := henv.symm
      subst hws
      exact .insert hu hop hneg h hm hprog ht ha
  | lock hu hop hneg h hm hT =>
      obtain ⟨hprog, henv, hws⟩ := Point.mk.inj hp
      obtain rfl : env = env' := henv.symm
      subst hws
      obtain ⟨rfl, hk⟩ := Program.call.inj hprog
      obtain rfl := eq_of_heq hk
      exact .lock hu hop hneg h hm hT ht ha
  | select hu hop hneg hreq h hm hrow hT =>
      obtain ⟨hprog, henv, hws⟩ := Point.mk.inj hp
      obtain rfl : env = env' := henv.symm
      subst hws
      obtain ⟨rfl, hk⟩ := Program.call.inj hprog
      obtain rfl := eq_of_heq hk
      exact .select hu hop hneg hreq h hm hrow hT hc ht ha
  | finish hu h =>
      obtain ⟨hprog, henv, hws⟩ := Point.mk.inj hp
      subst henv hws
      exact .save hu h hprog ht ha

/-- **One statement of one request.** -/
theorem Stage.step (h : Stage own db req env ⟨.call c k, env', ws⟩) (hc : Consistent db)
    (ha : Answered own own' db c env' ws r)
    (hunused : ∀ wr ∈ ws, ∀ t i, wr.stamp = some (t, i) → i ∉ db.ids t) :
    Stage own' db req env ⟨k r, c.next env', ws ++ c.writes env'⟩ := by
  generalize hp : (⟨.call c k, env', ws⟩ : At Response) = p at h
  cases h with
  | start hfree =>
      obtain ⟨hprog, henv, hws⟩ := Point.mk.inj hp
      obtain rfl : env = env' := henv.symm
      subst hws
      have hcall : Program.call c k = .call (.getUser req.caller) _ := hprog
      obtain ⟨rfl, hk⟩ := Program.call.inj hcall
      obtain rfl := eq_of_heq hk
      have hr : db.user req.caller = r := Except.ok.inj ha.answer
      rw [ha.same rfl]
      cases hu : db.user req.caller with
      | none =>
          rw [← hr, hu]
          exact .heading (.here (.raise _ _ _) (.free hfree _))
      | some user =>
          rw [← hr, hu]
          exact .admitted hu hfree
  | lookup hu hk hfree =>
      obtain ⟨hprog, henv, hws⟩ := Point.mk.inj hp
      obtain rfl : env = env' := henv.symm
      subst hws
      obtain ⟨rfl, hk'⟩ := Program.call.inj hprog
      obtain rfl := eq_of_heq hk'
      rw [ha.same rfl]
      exact .looked hu hfree r
  | produce hu hfree =>
      obtain ⟨hprog, henv, hws⟩ := Point.mk.inj hp
      obtain rfl : env = env' := henv.symm
      subst hws
      exact .produced hu hc hfree hprog ha
  | @heading p goal T F h =>
      subst hp
      -- at the goal the answer is news, before it the way goes on
      by_cases hne : goal = ⟨.call c k, env', ws⟩
      · subst hne
        exact h.goal.step hc h.territory ha hunused
      · exact .heading (h.step hne ha)

/-! ## §5. The commit. -/

/-- **A request that stands at its commit** has run its operation, which is
ready, and nobody has used its key. -/
theorem Stage.committing {q : Prog Response} (h : Stage own db req env ⟨.commit q, env', ws⟩) :
    ∃ user o, Admitted db req user ∧ Ready own db user env req.op o
      ∧ (∀ k, req.usedKey = some k → db.idempotencyKey k = none)
      ∧ q = .ret ⟨req.op.statusCode, o.body⟩ ∧ ws = committedWrites req user o := by
  generalize hp : (⟨.commit q, env', ws⟩ : At Response) = p at h
  cases h with
  | start hfree =>
      have hcall : Program.commit q = .call (.getUser req.caller) _ := congrArg Point.prog hp
      exact absurd hcall (by simp)
  | lookup hu hk hfree => exact absurd (congrArg Point.prog hp) (by simp)
  | produce hu hfree =>
      obtain ⟨c, k, hcall⟩ := produce_call req.op _ (finish req _)
      have hprog := congrArg Point.prog hp
      rw [hcall] at hprog
      exact absurd hprog (by simp)
  | @heading p goal T F h =>
      subst hp
      -- a way takes calls only, so it ends here
      have hgoal : goal = ⟨.commit q, env', ws⟩ := by
        cases h.reaches with
        | refl => rfl
      have hg := h.goal
      generalize hp : goal = p at hgoal hg
      subst hgoal
      generalize hq : (⟨.commit q, env', ws⟩ : At Response) = p at hg
      cases hg with
      | commit hu h hk =>
          obtain ⟨hprog, _, hws⟩ := Point.mk.inj hq
          exact ⟨_, _, hu, h, fun k hkk => (hk k hkk).2, Program.commit.inj hprog, hws⟩
      | @finish user o hu h =>
          -- a request without a key
          obtain ⟨hprog, _, hws⟩ := Point.mk.inj hq
          cases hk : req.usedKey with
          | none =>
              rw [finish_of_none hk] at hprog
              refine ⟨user, o, hu, h, fun k hkk => absurd hkk (by simp), Program.commit.inj hprog, ?_⟩
              unfold committedWrites keyWrites
              rw [hk, hws, List.append_nil]
          | some key =>
              rw [finish_of_some hk] at hprog
              exact absurd hprog (by simp)
      | render hu hop hreq h ho =>
          have hcall : Program.commit q = .call (.proposals _) _ := congrArg Point.prog hq
          exact absurd hcall (by simp)
      | insert hu hop hneg h hm =>
          have hcall : Program.commit q = .call (.insertProposal _ _ _ _ _ _ _) _ :=
            congrArg Point.prog hq
          exact absurd hcall (by simp)
      | lock hu hop hneg h hm hT => exact absurd (congrArg Point.prog hq) (by simp)
      | select hu hop hneg hreq h hm hrow hT => exact absurd (congrArg Point.prog hq) (by simp)
      | raise e env'' ws' => exact absurd (congrArg Point.prog hq) (by simp)
      | ret r env'' => exact absurd (congrArg Point.prog hq) (by simp)

end

end Procurement
