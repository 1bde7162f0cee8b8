/-
  Procurement.Runs.Storage
  ────────────────────────
  **WHAT THE TABLES HOLD OF A CALL.**

  A call on PostgreSQL is the same program on tables with column types.  When
  every row that it commits without those types fits, it does what it does
  without them (`runPostgres_of_fits`); when one does not, its flush fails and
  nothing is committed (`runPostgres_of_not_fits`).  So PostgreSQL goes through
  states that the tables without column types go through too, all of whose rows
  fit (`PostgresReachable.reachable`, `PostgresReachable.fits`).

  The schemas limit the payloads, the columns limit the rows.  The two agree
  but for the upper end of `quantity`, which `Field(ge=1)` leaves open, and the
  character with code zero, which no text column has (`schemas_fit_iff`).
-/
import Procurement.Model.Columns
import Procurement.Runs.Requests

namespace Procurement

open Procurement.Framework
open Procurement.Framework.Program

/-! ## §1. Calls. -/

/-- `Call.run` on PostgreSQL. -/
def Call.runPostgres (call : Call) (env : Env) (faults : Nat → Bool) (db : Db) :
    Except Error Answer × Db :=
  match call with
  | .register data =>
      let (o, db') := postgres.request (handleRegister data) env faults db
      (o.map .user, db')
  | .post req =>
      let (o, db') := postgres.request (handle req) env faults db
      (o.map .response, db')

/-- What a program does behind the commit of a registration, statement by statement:
it stages nothing. -/
theorem refresh_reads (user : User) :
    (refresh user >>= userOut).Uses fun c => ∀ env, engine.writes c env = [] := by
  refine ⟨fun _ => rfl, fun row => ?_⟩
  cases row <;> trivial

section
variable {call : Call} {env : Env} {db : Db} {ws : List Write}

/-- **Rows that all fit** are no news. -/
theorem runPostgres_of_fits (h : call.commits env calm db = .ok (some ws))
    (hfits : ∀ w ∈ ws, w.Fits) : call.runPostgres env calm db = call.run env calm db := by
  have hheld := held_iff.mpr hfits
  cases call with
  | register data =>
      obtain ⟨hfree, rfl⟩ := register_committed h
      have hreach : engine.Reaches (Within AnyRow) (· = db)
        (⟨handleRegister data, env, []⟩ : At UserOut) _ := register_reaches trivial (pinned hfree)
      have hsame := Engine.request_storing hreach hheld (Engine.exec_storing_commit (refresh_reads _) db _ _)
      simp only [Call.runPostgres, Call.run, postgres, hsame]
  | post req =>
      obtain ⟨user, o, hexec, rfl⟩ := post_committed h
      have hsame := Engine.request_storing hexec.reaches hheld
        (Engine.exec_storing_commit (by trivial) db _ _)
      simp only [Call.runPostgres, Call.run, postgres, hsame]

/-- **A row that does not fit** fails the call. -/
theorem runPostgres_of_not_fits (h : call.commits env calm db = .ok (some ws))
    (hno : ¬ ∀ w ∈ ws, w.Fits) : call.runPostgres env calm db = (.error .server, db) := by
  have hheld : ¬ Engine.Held Write.stored ws := fun hh => hno (held_iff.mp hh)
  have hstore : ∀ w ∈ ws, w.stored = some w ∨ w.stored = none := fun w _ => w.stored_or
  cases call with
  | register data =>
      obtain ⟨hfree, rfl⟩ := register_committed h
      have hreach : engine.Reaches (Within AnyRow) (· = db)
        (⟨handleRegister data, env, []⟩ : At UserOut) _ := register_reaches trivial (pinned hfree)
      have hfails := Engine.request_refused hreach hstore hheld
      simp only [Call.runPostgres, postgres, hfails]
      rfl
  | post req =>
      obtain ⟨user, o, hexec, rfl⟩ := post_committed h
      have hfails := Engine.request_refused hexec.reaches hstore hheld
      simp only [Call.runPostgres, postgres, hfails]
      rfl

/-- A program that stages nothing on its way is the same on PostgreSQL. -/
theorem request_unstaged {β : Type} {p q : Prog β} {env' : Env}
    (h : engine.Reaches (Within AnyRow) (· = db) (⟨p, env, []⟩ : At β) ⟨q, env', []⟩)
    (hq : postgres.exec q ⟨db, [], env', calm⟩ = engine.exec q ⟨db, [], env', calm⟩) :
    postgres.request p env calm db = engine.request p env calm db :=
  Engine.request_storing h (fun _ hw => absurd hw List.not_mem_nil) hq

/-- **A call without faults** commits, is answered from a stored record, or fails; the last
two are the same on PostgreSQL. -/
theorem calm_cases (call : Call) (env : Env) (db : Db) :
    (∃ ws, call.commits env calm db = .ok (some ws))
      ∨ (call.Replayed db ∧ call.runPostgres env calm db = call.run env calm db
        ∧ (call.run env calm db).2 = db)
      ∨ ∃ e, call.runPostgres env calm db = (.error e, db) ∧ call.run env calm db = (.error e, db) := by
  cases call with
  | register data =>
      cases he : db.userByEmail data.email with
      | none => exact Or.inl ⟨_, (register_reaches (R := AnyRow) trivial (pinned he)).firstCommit rfl⟩
      | some u =>
          have hreach : engine.Reaches (Within AnyRow) (· = db)
            (⟨handleRegister data, env, []⟩ : At UserOut) _ := register_refused (pinned he)
          have hfails : engine.request (handleRegister data) env calm db
            = (.error (.conflict "Email already registered"), db) := request_of_reaches hreach
          refine Or.inr (Or.inr ⟨.conflict "Email already registered", ?_, ?_⟩)
          · simp only [Call.runPostgres, request_unstaged hreach rfl, hfails, Except.map]
          · simp only [Call.run, hfails, Except.map]
  | post req =>
      by_cases hx : ∃ user o, Executes req user env o db
      · obtain ⟨user, o, hexec⟩ := hx
        exact Or.inl ⟨_, hexec.reaches.firstCommit rfl⟩
      by_cases hr : ∃ user record, Replays req user record db
      · obtain ⟨user, record, hrep⟩ := hr
        obtain ⟨k, hk, hrec⟩ := hrep.stored
        have hreach : engine.Reaches (Within AnyRow) (· = db)
            (⟨handle req, env, []⟩ : At Response) ⟨.ret _, env, []⟩ :=
          replay_reaches (pinned hrep.caller) hrep.permits hk (pinned hrec) hrep.owner
        refine Or.inr (Or.inl ⟨⟨user, record, hrep⟩, ?_, ?_⟩)
        · simp only [Call.runPostgres, Call.run, request_unstaged hreach rfl]
        · simp only [Call.run, replays_calm hrep]
      · push Not at hr hx
        obtain ⟨e, hreach⟩ : ∃ e, engine.Reaches (Within AnyRow) (· = db)
          (⟨handle req, env, []⟩ : At Response) ⟨.raise e, env, []⟩ := refused_reaches hr hx
        have hfails : engine.request (handle req) env calm db = (.error e, db) :=
          request_of_reaches hreach
        refine Or.inr (Or.inr ⟨e, ?_, ?_⟩)
        · simp only [Call.runPostgres, request_unstaged hreach rfl, hfails, Except.map]
        · simp only [Call.run, hfails, Except.map]

/-- **A call on PostgreSQL** leaves the state as it was, or does to it what it does without
column types. -/
theorem runPostgres_state (call : Call) (env : Env) (f : Nat → Bool) (db : Db) :
    (call.runPostgres env f db).2 = db
      ∨ (call.runPostgres env f db).2 = (call.run env calm db).2 := by
  have hcalm : (call.runPostgres env calm db).2 = db
      ∨ (call.runPostgres env calm db).2 = (call.run env calm db).2 := by
    rcases calm_cases call env db with ⟨ws, h⟩ | ⟨_, hsame, _⟩ | ⟨e, hfails, _⟩
    · by_cases hfits : ∀ w ∈ ws, w.Fits
      · exact Or.inr (congrArg Prod.snd (runPostgres_of_fits h hfits))
      · exact Or.inl (congrArg Prod.snd (runPostgres_of_not_fits h hfits))
    · exact Or.inr (congrArg Prod.snd hsame)
    · exact Or.inl (congrArg Prod.snd hfails)
  -- a fault before the commit leaves the state, one behind it comes too late
  have hfault : (call.runPostgres env f db).2 = db
      ∨ (call.runPostgres env f db).2 = (call.runPostgres env calm db).2 := by
    cases call with
    | register data => exact postgres.request_committed (handleRegister_oneCommit data) env f db
    | post req => exact postgres.request_committed (handle_commitsLast req).oneCommit env f db
  rcases hfault with h | h
  · exact Or.inl h
  · rw [h]
    exact hcalm

end

/-! ## §2. The tables. -/

/-- Every row of the tables fits. -/
structure Db.Fits (db : Db) : Prop where
  users : ∀ r ∈ db.users, r.Fits
  requests : ∀ r ∈ db.requests, r.Fits
  negotiations : ∀ r ∈ db.negotiations, r.Fits
  proposals : ∀ r ∈ db.proposals, r.Fits
  auditLog : ∀ r ∈ db.auditLog, r.Fits
  idempotencyKeys : ∀ r ∈ db.idempotencyKeys, r.Fits

/-- The empty database fits. -/
theorem Db.empty_fits : Db.empty.Fits := by
  constructor <;> exact fun r hr => absurd hr List.not_mem_nil

/-- What the rows have, and the update keeps, the updated rows have. -/
theorem forall_update {ρ κ : Type} [DecidableEq κ] {key : ρ → κ} {t : List ρ} {i : κ} {f : ρ → ρ}
    {P : ρ → Prop} (ht : ∀ r ∈ t, P r) (hf : ∀ r, P r → P (f r)) :
    ∀ r ∈ update key t i f, P r := by
  intro r hr
  unfold update at hr
  obtain ⟨q, hq, rfl⟩ := List.mem_map.mp hr
  split
  · exact hf q (ht q hq)
  · exact ht q hq

/-- **A write that the tables hold** leaves tables whose rows fit. -/
theorem Write.keeps_fits {w v : Write} {db : Db} (hw : w.stored = some v) (hdb : db.Fits) :
    (v.apply db).Fits := by
  obtain ⟨hfits, rfl⟩ := Write.stored_eq_some.mp hw
  have hnew : ∀ {ρ : Type} {t : List ρ} {row : ρ} {P : ρ → Prop}, (∀ r ∈ t, P r) → P row →
      ∀ r ∈ t ++ [row], P r := by
    intro ρ t row P ht hrow r hr
    rcases List.mem_append.mp hr with hr | hr
    · exact ht r hr
    · obtain rfl := List.mem_singleton.mp hr
      exact hrow
  cases v with
  | insertUser row => exact { hdb with users := hnew hdb.users hfits }
  | insertRequest row => exact { hdb with requests := hnew hdb.requests hfits }
  | insertNegotiation row => exact { hdb with negotiations := hnew hdb.negotiations hfits }
  | insertProposal row => exact { hdb with proposals := hnew hdb.proposals hfits }
  | insertAudit row => exact { hdb with auditLog := hnew hdb.auditLog hfits }
  | insertKey row => exact { hdb with idempotencyKeys := hnew hdb.idempotencyKeys hfits }
  | decide n d =>
      refine { hdb with negotiations := forall_update hdb.negotiations fun r hr => ?_ }
      cases d with
      | accepted a =>
          -- the amount is the only column that gets a new value
          refine { hr with agreedAmount := fun b hb => ?_ }
          obtain rfl : a = b := Option.some.inj hb
          exact hfits
      | rejected => exact ⟨hr.id, hr.requestId, hr.supplierId, hr.agreedAmount⟩
  | closeRequest i =>
      refine { hdb with requests := forall_update hdb.requests fun r hr => ?_ }
      exact ⟨hr.id, hr.clientId, hr.productName, hr.description, hr.quantity⟩

/-- One call on PostgreSQL. -/
def PostgresStep (db db' : Db) : Prop :=
  ∃ (call : Call) (env : Env) (f : Nat → Bool),
    Fresh env db ∧ db' = (call.runPostgres env f db).2

/-- The states that PostgreSQL goes through. -/
def PostgresReachable : Db → Prop := Relation.ReflTransGen PostgresStep Db.empty

/-- **Every step keeps the rows in their columns.** -/
theorem PostgresStep.fits {db db' : Db} (h : PostgresStep db db') (hdb : db.Fits) : db'.Fits := by
  obtain ⟨call, env, f, _, rfl⟩ := h
  have hnil : ∀ v ∈ ([] : List Write), ∃ w : Write, w.stored = some v :=
    fun v hv => absurd hv List.not_mem_nil
  have hkeeps : ∀ (w v : Write) (db : Db), w.stored = some v → db.Fits → (engine.apply v db).Fits :=
    fun w v db hw hdb => Write.keeps_fits hw hdb
  cases call with
  | register data =>
      exact Engine.exec_storing_invariant hkeeps (handleRegister data) ⟨db, [], env, f⟩ hdb hnil
  | post req => exact Engine.exec_storing_invariant hkeeps (handle req) ⟨db, [], env, f⟩ hdb hnil

/-- **In every state that PostgreSQL goes through, every row fits.** -/
theorem PostgresReachable.fits {db : Db} (h : PostgresReachable db) : db.Fits := by
  induction h with
  | refl => exact Db.empty_fits
  | tail _ hstep ih => exact hstep.fits ih

/-- **PostgreSQL refines the tables without column types**: it goes through states that serial
runs on them reach. -/
theorem PostgresReachable.reachable {db : Db} (h : PostgresReachable db) : Reachable db := by
  induction h with
  | refl => exact .refl
  | tail _ hstep ih =>
      obtain ⟨call, env, f, hfresh, rfl⟩ := hstep
      rcases runPostgres_state call env f _ with hsame | hdone
      · rw [hsame]
        exact ih
      · rw [hdone]
        exact ih.tail ⟨call, env, calm, hfresh, rfl⟩

/-! ## §3. The rows of an operation. -/

/-- The ids that the writes have drawn are those of INTEGER columns. -/
def Stamped (ws : List Write) : Prop := ∀ w ∈ ws, ∀ s ∈ w.stamp, IsInteger s.2

instance (ws : List Write) : Decidable (Stamped ws) :=
  inferInstanceAs (Decidable (∀ w ∈ ws, ∀ s ∈ w.stamp, IsInteger s.2))

/-- What the columns ask of a payload beyond its schema. -/
def Op.Storable : Op → Prop
  | .createRequest data =>
      data.quantity < 2 ^ 31 ∧ IsText data.productName ∧ IsText data.description
  | .makeOffer _ data => IsText data.currency ∧ ∀ m ∈ data.message, IsText m
  | .counter _ data => ∀ m ∈ data.message, IsText m
  | .accept _ | .reject _ => True

/-- **The payload can be held**: its quantity is an INTEGER, and no text of it has the
character with code zero. -/
def Call.Storable : Call → Prop
  | .register data => IsText data.fullName
  | .post req => req.op.Storable

section
variable {env : Env} {user : User} {db : Db}

/-- A number that may be missing fits when it is there. -/
theorem isInteger_some {n : Id} (h : IsInteger n) : ∀ i ∈ some n, IsInteger i := by
  intro i hi
  obtain rfl := Option.some.inj hi
  exact h

/-- An audit entry fits when its correlation id does. -/
theorem entry_fits_iff {entry : AuditLog} (hid : IsInteger entry.id)
    (hentity : ∀ i ∈ entry.entityId, IsInteger i) (hactor : ∀ i ∈ entry.actorId, IsInteger i) :
    entry.Fits ↔ IsVarchar 64 entry.requestId := by
  constructor
  · intro hfits
    exact hfits.requestId
  · intro hrid
    exact ⟨hid, hrid, hactor, hentity⟩

/-- A request fits exactly when its payload does. -/
theorem createdRequest_fits_iff {data : ProductRequestIn}
    (hid : IsInteger (env.createdRequest user data).id) (hu : IsInteger user.id) :
    (env.createdRequest user data).Fits ↔ (Op.createRequest data).Storable := by
  constructor
  · intro hfits
    have hquantity := hfits.quantity.2
    refine ⟨?_, hfits.productName.2, hfits.description⟩
    exact_mod_cast hquantity
  · intro hs
    obtain ⟨hquantity, hname, hdescription⟩ := hs
    refine ⟨hid, hu, ⟨data.productName_max, hname⟩, hdescription, ?_, ?_⟩
    · show (-2 ^ 31 : ℤ) ≤ (data.quantity : ℤ)
      omega
    · show (data.quantity : ℤ) < 2 ^ 31
      exact_mod_cast hquantity

/-- A negotiation of numbers that fit always does. -/
theorem offered_fits {rid : Id} (hid : IsInteger (env.offered user rid).id)
    (hu : IsInteger user.id) (hrid : IsInteger rid) : (env.offered user rid).Fits where
  id := hid
  requestId := hrid
  supplierId := hu
  agreedAmount := fun a ha => absurd ha (by simp [Env.offered, Env.newNegotiation])

/-- An offer fits exactly when its texts do. -/
theorem opening_fits_iff {rid : Id} {data : OfferIn} (hid : IsInteger (env.opening user rid data).id)
    (hneg : IsInteger (env.offered user rid).id) (hu : IsInteger user.id) :
    (env.opening user rid data).Fits ↔ (Op.makeOffer rid data).Storable := by
  constructor
  · intro hfits
    exact ⟨hfits.currency.2, hfits.message⟩
  · intro hs
    exact ⟨hid, hneg, hu, data.amount_digits, ⟨le_of_eq data.currency_length, hs.1⟩, hs.2⟩

/-- A counter fits exactly when its message does; its currency is the one of the chain. -/
theorem countered_fits_iff {neg : Negotiation} {last : Proposal} {data : CounterIn}
    (hid : IsInteger (env.countered user neg last data).id) (hneg : IsInteger neg.id)
    (hlast : last.Fits) (hu : IsInteger user.id) :
    (env.countered user neg last data).Fits ↔ (Op.counter neg.id data).Storable := by
  constructor
  · intro hfits
    exact hfits.message
  · intro hs
    exact ⟨hid, hneg, hu, data.amount_digits, hlast.currency, hs⟩

/-- The proposal that is answered is a row of its table. -/
theorem Reading.last_fits {neg : Negotiation} {client : Id} {ps : List Proposal} {last : Proposal}
    (h : Reading neg client ps db) (hm : MayRespond user neg client ps last) (hdb : db.Fits) :
    last.Fits := by
  have hmem : last ∈ db.proposalsOf neg.id := by
    rw [h.proposals]
    exact List.argmax_mem hm.isLast
  exact hdb.proposals last (List.mem_of_mem_filter hmem)

/-- A negotiation that is read fits. -/
theorem Reading.neg_fits {neg : Negotiation} {client : Id} {ps : List Proposal}
    (h : Reading neg client ps db) (hdb : db.Fits) : neg.Fits :=
  hdb.negotiations neg (lookup_mem h.row)

variable {op : Op} {o : Produced}

/-- **The business rows of an operation fit** exactly when its payload can be held. -/
theorem Produces.domain_fits_iff (h : Produces db user env op o) (hdb : db.Fits)
    (hu : IsInteger user.id) (hids : Stamped o.writes) :
    (∀ w ∈ o.writes, w.isDomain = true → w.Fits) ↔ op.Storable := by
  cases h with
  | createRequest data =>
      have hid := hids _ (List.mem_cons_self ..) _ rfl
      rw [← createdRequest_fits_iff hid hu]
      simp [createProduced, createWrites, Write.isDomain, Write.Fits]
  | makeOffer data h ho =>
      have hneg := hids _ (List.mem_cons_self ..) _ rfl
      have hid := hids _ (List.mem_cons_of_mem _ (List.mem_cons_self ..)) _ rfl
      have hoffered := offered_fits hneg hu (hdb.requests _ (lookup_mem h.row)).id
      rw [← opening_fits_iff hid hneg hu]
      simp [offerProduced, offerWrites, Write.isDomain, Write.Fits, hoffered]
  | reject h hm => simp [rejectProduced, rejectWrites, Write.isDomain, Write.Fits, Op.Storable]
  | counter data h hm =>
      have hid := hids _ (List.mem_cons_self ..) _ rfl
      rw [← countered_fits_iff hid (h.neg_fits hdb).id (h.last_fits hm hdb) hu]
      simp [counterProduced, counterWrites, Write.isDomain, Write.Fits]
  | @accept neg client ps last req h hm hreq =>
      -- the agreed amount is that of a proposal; the loop brings no value of its own
      have hloop : ∀ (env : Env) (siblings : List Negotiation),
          ∀ w ∈ supersedeWrites neg.id env siblings, w.isDomain = true → w.Fits := by
        intro env siblings
        induction siblings generalizing env with
        | nil => exact fun w hw => absurd hw List.not_mem_nil
        | cons sib siblings ih =>
            simp only [supersedeWrites, List.forall_mem_cons, Write.isDomain, Write.Fits]
            exact ⟨fun _ => trivial, fun hd => absurd hd (by simp), ih (env.pop .auditLog)⟩
      have hamount : last.amount < 10 ^ 14 := (h.last_fits hm hdb).amount
      simp only [Op.Storable, iff_true]
      intro w hw hd
      rcases List.mem_cons.mp hw with rfl | hw
      · exact hamount
      rcases List.mem_cons.mp hw with rfl | hw
      · exact trivial
      rcases List.mem_append.mp hw with hw | hw
      · exact hloop _ _ w hw hd
      · obtain rfl := List.mem_singleton.mp hw
        exact absurd hd (by simp [Write.isDomain])

/-- Every operation writes an audit entry, its last write. -/
theorem Produces.has_entry (h : Produces db user env op o) :
    ∃ e, Write.insertAudit e ∈ o.writes := by
  cases h with
  | createRequest data => exact ⟨_, List.mem_cons_of_mem _ (List.mem_cons_self ..)⟩
  | makeOffer data h ho =>
      exact ⟨_, List.mem_cons_of_mem _ (List.mem_cons_of_mem _ (List.mem_cons_self ..))⟩
  | reject h hm => exact ⟨_, List.mem_cons_of_mem _ (List.mem_cons_self ..)⟩
  | counter data h hm => exact ⟨_, List.mem_cons_of_mem _ (List.mem_cons_self ..)⟩
  | accept h hm hreq =>
      exact ⟨_, List.mem_cons_of_mem _ (List.mem_cons_of_mem _
        (List.mem_append_right _ (List.mem_cons_self ..)))⟩

/-- Rows that all fit under the same condition. -/
theorem alike_fit_iff {ws : List Write} {P : Prop}
    (hone : ∃ e, Write.insertAudit e ∈ ws) (hall : ∀ w ∈ ws, w.isDomain = false → (w.Fits ↔ P)) :
    (∀ w ∈ ws, w.isDomain = false → w.Fits) ↔ P := by
  constructor
  · intro h
    obtain ⟨e, he⟩ := hone
    exact (hall _ he rfl).mp (h _ he rfl)
  · intro hP w hw hd
    exact (hall w hw hd).mpr hP

/-- The entries of the loop fit exactly when the id of their request does. -/
theorem supersedeWrites_entries {w : Id} {siblings : List Negotiation}
    (hids : Stamped (supersedeWrites w env siblings)) (hsib : ∀ s ∈ siblings, IsInteger s.id) :
    ∀ wr ∈ supersedeWrites w env siblings, wr.isDomain = false →
      (wr.Fits ↔ IsVarchar 64 env.requestId) := by
  induction siblings generalizing env with
  | nil => exact fun wr hwr => absurd hwr List.not_mem_nil
  | cons sib siblings ih =>
      intro wr hwr hd
      rcases List.mem_cons.mp hwr with rfl | hrest
      · exact absurd hd (by simp [Write.isDomain])
      rcases List.mem_cons.mp hrest with rfl | hrest
      · have hid : IsInteger sib.id := hsib sib (List.mem_cons_self ..)
        exact entry_fits_iff (hids _ hwr _ rfl) (isInteger_some hid)
          fun i hi => absurd hi (by simp [Env.entry, Env.newAudit])
      · have hstamped : Stamped (supersedeWrites w (env.pop .auditLog) siblings) :=
          fun v hv => hids v (List.mem_cons_of_mem _ (List.mem_cons_of_mem _ hv))
        have hloop := ih hstamped (fun s hs => hsib s (List.mem_cons_of_mem _ hs)) wr hrest hd
        exact hloop

/-- **Its audit entries fit** exactly when the correlation id does. -/
theorem Produces.entries_fit_iff (h : Produces db user env op o) (hdb : db.Fits)
    (hu : IsInteger user.id) (hids : Stamped o.writes) :
    (∀ w ∈ o.writes, w.isDomain = false → w.Fits) ↔ IsVarchar 64 env.requestId := by
  refine alike_fit_iff h.has_entry ?_
  -- in each case the entries are the writes that are no domain writes
  cases h with
  | createRequest data =>
      have hreq := hids _ (List.mem_cons_self ..) _ rfl
      intro w hw hd
      rcases List.mem_pair.mp hw with rfl | rfl
      · exact absurd hd (by simp [Write.isDomain])
      · exact entry_fits_iff (hids _ hw _ rfl) (isInteger_some hreq) (isInteger_some hu)
  | makeOffer data h ho =>
      have hneg := hids _ (List.mem_cons_self ..) _ rfl
      intro w hw hd
      rcases List.mem_cons.mp hw with rfl | hrest
      · exact absurd hd (by simp [Write.isDomain])
      rcases List.mem_pair.mp hrest with rfl | rfl
      · exact absurd hd (by simp [Write.isDomain])
      · exact entry_fits_iff (hids _ hw _ rfl) (isInteger_some hneg) (isInteger_some hu)
  | reject h hm =>
      intro w hw hd
      rcases List.mem_pair.mp hw with rfl | rfl
      · exact absurd hd (by simp [Write.isDomain])
      · exact entry_fits_iff (hids _ hw _ rfl) (isInteger_some (h.neg_fits hdb).id) (isInteger_some hu)
  | counter data h hm =>
      intro w hw hd
      rcases List.mem_pair.mp hw with rfl | rfl
      · exact absurd hd (by simp [Write.isDomain])
      · exact entry_fits_iff (hids _ hw _ rfl) (isInteger_some (h.neg_fits hdb).id) (isInteger_some hu)
  | @accept neg client ps last req h hm hreq =>
      intro w hw hd
      rcases List.mem_cons.mp hw with rfl | hrest
      · exact absurd hd (by simp [Write.isDomain])
      rcases List.mem_cons.mp hrest with rfl | hrest
      · exact absurd hd (by simp [Write.isDomain])
      rcases List.mem_append.mp hrest with hloop | hlast
      · refine supersedeWrites_entries (fun v hv => ?_) (fun s hs => ?_) w hloop hd
        · exact hids v (List.mem_cons_of_mem _ (List.mem_cons_of_mem _ (List.mem_append_left _ hv)))
        · have hmem : s ∈ db.activeSiblings req.id neg.id := (env.order_perm _).mem_iff.mp hs
          exact (hdb.negotiations s (List.mem_of_mem_filter hmem)).id
      · obtain rfl := List.mem_singleton.mp hlast
        rw [← Env.afterSupersede_requestId env (env.order (db.activeSiblings req.id neg.id))]
        exact entry_fits_iff (hids _ hw _ rfl) (isInteger_some (h.neg_fits hdb).id) (isInteger_some hu)

end

/-! ## §4. The rows of a call. -/

/-- The key fits its column, and so does the path it is filed under. -/
def Call.KeyFits : Call → Prop
  | .register _ => True
  | .post req => ∀ k, req.usedKey = some k → IsVarchar 128 k ∧ IsVarchar 255 req.path

/-- What comes with the call beside its payload fits: the correlation id, and the key. -/
def Call.MetadataFits (call : Call) (env : Env) : Prop :=
  IsVarchar 64 env.requestId ∧ call.KeyFits

section
variable {env : Env} {user : User} {db : Db}

/-- The row of a key. -/
theorem keyWrites_fit_iff (hu : IsInteger user.id) (req : HttpRequest) (body : Body) :
    (∀ w ∈ keyWrites req user body, w.Fits) ↔ (Call.post req).KeyFits := by
  unfold keyWrites Call.KeyFits
  cases hk : req.usedKey with
  | none => simp [hk]
  | some k =>
      have hstatus : IsInteger (req.op.statusCode : ℤ) := by
        unfold Op.statusCode
        split <;> decide
      have hmethod : IsVarchar 10 "POST" := by decide
      constructor
      · intro h k' hk'
        obtain rfl := Option.some.inj (hk.symm.trans hk')
        have hrow := h _ (List.mem_cons_self ..)
        exact ⟨hrow.key, hrow.path⟩
      · intro h w hw
        obtain rfl := List.mem_singleton.mp hw
        obtain ⟨hkey, hpath⟩ := h k hk
        exact ⟨hkey, hu, hmethod, hpath, hstatus⟩

/-- The number of a caller fits. -/
theorem Executes.user_fits {req : HttpRequest} {o : Produced} (h : Executes req user env o db)
    (hdb : db.Fits) : IsInteger user.id :=
  (hdb.users user (lookup_mem h.caller)).id

/-- A user fits exactly when his full name does. -/
theorem registered_fits_iff {data : RegisterIn} (hid : IsInteger (env.registered data).id)
    (hemail : IsVarchar 254 data.email) (hhash : IsVarchar 60 (env.hashpw data.password)) :
    (env.registered data).Fits ↔ (Call.register data).Storable := by
  constructor
  · intro h
    exact h.fullName.2
  · intro h
    exact ⟨hid, IsVarchar.mono (by omega) hemail, IsVarchar.mono (by omega) hhash,
      ⟨data.fullName_max, h⟩⟩

/-- **What a call commits**: its business rows fit when its payload can be held, the
others when its metadata fits. -/
theorem commits_fit_iff {call : Call} {ws : List Write} (hdb : db.Fits)
    (hregister : ∀ data, call = .register data →
      IsVarchar 254 data.email ∧ IsVarchar 60 (env.hashpw data.password))
    (h : call.commits env calm db = .ok (some ws)) (hids : Stamped ws) :
    ((∀ w ∈ ws, w.isDomain = true → w.Fits) ↔ call.Storable)
      ∧ ((∀ w ∈ ws, w.isDomain = false → w.Fits) ↔ call.MetadataFits env) := by
  cases call with
  | register data =>
      obtain ⟨_, rfl⟩ := register_committed h
      obtain ⟨hemail, hhash⟩ := hregister data rfl
      have hid : IsInteger (env.registered data).id := hids _ (List.mem_cons_self ..) _ rfl
      constructor
      · rw [← registered_fits_iff hid hemail hhash]
        simp [registerWrites, Write.isDomain, Write.Fits]
      · rw [show (Call.register data).MetadataFits env ↔ IsVarchar 64 env.requestId from
          and_iff_left trivial]
        refine alike_fit_iff ⟨_, List.mem_cons_of_mem _ (List.mem_cons_self ..)⟩ ?_
        intro w hw hd
        rcases List.mem_pair.mp hw with rfl | rfl
        · exact absurd hd (by simp [Write.isDomain])
        · exact entry_fits_iff (hids _ hw _ rfl) (isInteger_some hid) (isInteger_some hid)
  | post req =>
      obtain ⟨user, o, hexec, rfl⟩ := post_committed h
      have hu := hexec.user_fits hdb
      have hstamped : Stamped o.writes := fun w hw => hids w (List.mem_append_left _ hw)
      have hkeys := keyWrites_not_domain req user o.body
      constructor
      · rw [show (Call.post req).Storable = req.op.Storable from rfl,
          ← hexec.produces.domain_fits_iff hdb hu hstamped]
        constructor
        · exact fun hall w hw => hall w (List.mem_append_left _ hw)
        · intro hall w hw hd
          rcases List.mem_append.mp hw with hw | hw
          · exact hall w hw hd
          · rw [hkeys w hw] at hd
            exact absurd hd (by simp)
      · unfold Call.MetadataFits
        rw [← hexec.produces.entries_fit_iff hdb hu hstamped, ← keyWrites_fit_iff hu req o.body]
        constructor
        · intro hall
          exact ⟨fun w hw => hall w (List.mem_append_left _ hw),
            fun w hw => hall w (List.mem_append_right _ hw) (hkeys w hw)⟩
        · intro hall w hw hd
          rcases List.mem_append.mp hw with hw | hw
          · exact hall.1 w hw hd
          · exact hall.2 w hw

end

/-- **Whether the tables hold what the schemas accept.**  For every accepted call, with what it
commits when its tables have no column types: they hold each of its business rows as it is,
and with metadata that fits the call does what it does without them, if and only if
its payload can be held. -/
theorem schemas_fit_iff (EmailStr : String → Prop) (hlimit : ∀ e, EmailStr e → IsVarchar 254 e)
    (call : Call) (haccepted : ∀ data, call = .register data → EmailStr data.email) (env : Env)
    (hhash : ∀ plain, IsVarchar 60 (env.hashpw plain)) (db : Db) (hdb : db.Fits) (ws : List Write)
    (hcommits : call.commits env calm db = .ok (some ws)) (hids : Stamped ws) :
    ((∀ w ∈ ws, w.isDomain = true → w.stored = some w)
        ∧ (call.MetadataFits env → call.runPostgres env calm db = call.run env calm db))
      ↔ call.Storable := by
  have hregister : ∀ data, call = .register data →
      IsVarchar 254 data.email ∧ IsVarchar 60 (env.hashpw data.password) :=
    fun data hdata => ⟨hlimit _ (haccepted data hdata), hhash _⟩
  obtain ⟨hdomain, hmetadata⟩ := commits_fit_iff hdb hregister hcommits hids
  constructor
  · intro h
    refine hdomain.mp fun w hw hd => ?_
    exact (Write.stored_eq_some.mp (h.1 w hw hd)).1
  · intro hs
    have hrows := hdomain.mpr hs
    refine ⟨fun w hw hd => Write.stored_eq_some.mpr ⟨hrows w hw hd, rfl⟩, fun hm => ?_⟩
    have hothers := hmetadata.mpr hm
    refine runPostgres_of_fits hcommits fun w hw => ?_
    cases hd : w.isDomain with
    | true => exact hrows w hw hd
    | false => exact hothers w hw hd

/-! ## §5. Chairs and bolts. -/

/-- A validator that accepts less than the library does. -/
def emailStr (e : String) : Prop := IsVarchar 254 e ∧ '@' ∈ e.toList

/-- An environment with a hash as `bcrypt` returns it. -/
def hashingEnv (db : Db) : Env :=
  { Env.following db with
    hashpw := fun _ => "$2b$12$R9h/cIPz0gi.URNNX3kh2OPST9/PgBkqquzi.Ss7KIUgO2t0jWMUW" }

/-- A hash of this environment has the length of a hash. -/
theorem hashingEnv_hash (db : Db) (plain : String) : IsVarchar 60 ((hashingEnv db).hashpw plain) := by
  show IsVarchar 60 "$2b$12$R9h/cIPz0gi.URNNX3kh2OPST9/PgBkqquzi.Ss7KIUgO2t0jWMUW"
  decide

/-- Its numbers are new. -/
theorem hashingEnv_fresh (db : Db) : Fresh (hashingEnv db) db where
  above := (Env.following_fresh db).above
  increasing := (Env.following_fresh db).increasing

/-- A client has registered. -/
def shop : Db :=
  ((registration "client@example.com" .client).runPostgres (hashingEnv Db.empty) calm Db.empty).2

/-- That shop is reachable on PostgreSQL. -/
theorem shop_reachable : PostgresReachable shop :=
  .single ⟨registration "client@example.com" .client, hashingEnv Db.empty, calm,
    hashingEnv_fresh Db.empty, rfl⟩

example : shop.users.map User.email = ["client@example.com"] := by decide +kernel

/-- A registration and an order of chairs are held. -/
theorem schemas_fit_chairs :
    (registration "client@example.com" .client).runPostgres (hashingEnv Db.empty) calm Db.empty
        = (registration "client@example.com" .client).run (hashingEnv Db.empty) calm Db.empty
      ∧ (Call.post (plain 1 (.createRequest chairs))).runPostgres (hashingEnv shop) calm shop
        = (Call.post (plain 1 (.createRequest chairs))).run (hashingEnv shop) calm shop := by
  constructor
  · have hcommits : ∃ ws, (registration "client@example.com" .client).commits
        (hashingEnv Db.empty) calm Db.empty = .ok (some ws) ∧ Stamped ws :=
      ⟨_, rfl, by decide +kernel⟩
    obtain ⟨ws, hcommits, hids⟩ := hcommits
    have haccepted : ∀ data, registration "client@example.com" .client = .register data →
        emailStr data.email := by
      intro data hdata
      obtain rfl := Call.register.inj hdata
      exact ⟨by decide +kernel, by decide +kernel⟩
    have hheld := (schemas_fit_iff emailStr (fun _ h => h.1) _ haccepted _ (hashingEnv_hash _)
      Db.empty Db.empty_fits ws hcommits hids).mpr (by decide : IsText "name")
    exact hheld.2 ⟨by decide +kernel, trivial⟩
  · have hcommits : ∃ ws, (Call.post (plain 1 (.createRequest chairs))).commits (hashingEnv shop)
        calm shop = .ok (some ws) ∧ Stamped ws :=
      ⟨_, rfl, by decide +kernel⟩
    obtain ⟨ws, hcommits, hids⟩ := hcommits
    have hheld := (schemas_fit_iff emailStr (fun _ h => h.1) _ (by simp) _ (hashingEnv_hash shop)
      shop shop_reachable.fits ws hcommits hids).mpr ⟨by decide, by decide, by decide⟩
    refine hheld.2 ⟨by decide +kernel, fun k hk => ?_⟩
    exact absurd hk (usedKey_ne rfl k)

/-- Two to the thirty-first. -/
def bolts : ProductRequestIn where
  productName := "bolts"
  description := "steel"
  quantity := 2147483648
  productName_min := by decide
  productName_max := by decide
  description_max := by decide
  quantity_min := by decide

/-- The schema accepts them, the flush of their INSERT fails. -/
theorem bolts_refused :
    ¬ ∀ (EmailStr : String → Prop) (call : Call) (env : Env) (db : Db) (ws : List Write),
        (∀ e, EmailStr e → IsVarchar 254 e) → (∀ data, call = .register data → EmailStr data.email) →
        (∀ plain, IsVarchar 60 (env.hashpw plain)) → PostgresReachable db → Fresh env db →
        call.commits env calm db = .ok (some ws) → Stamped ws →
        (∀ w ∈ ws, w.isDomain = true → w.stored = some w)
          ∧ (call.MetadataFits env → call.runPostgres env calm db = call.run env calm db) := by
  intro hall
  have hcommits : ∃ ws, (Call.post (plain 1 (.createRequest bolts))).commits (hashingEnv shop) calm shop
      = .ok (some ws) ∧ Stamped ws ∧ ∃ w ∈ ws, w.isDomain = true ∧ w.stored = none :=
    ⟨_, rfl, by decide +kernel⟩
  obtain ⟨ws, hcommits, hids, w, hw, hd, hnone⟩ := hcommits
  have hheld := (hall emailStr (.post (plain 1 (.createRequest bolts))) (hashingEnv shop) shop ws
    (fun _ h => h.1) (by simp) (hashingEnv_hash shop) shop_reachable (hashingEnv_fresh shop)
    hcommits hids).1 w hw hd
  rw [hnone] at hheld
  exact absurd hheld (by simp)

end Procurement
