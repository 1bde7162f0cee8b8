/-
  Procurement.Concurrency.Reads
  ─────────────────────────────
  **READS BETWEEN THE COMMITS OF OTHERS.**

  Now any number of requests are on their way, reads among them.  A read is several
  SELECTs in READ COMMITTED, so others commit between them.

      traffic_serializable — the reads change nothing: the posts are serializable
                         as if there were none, and no read ever waits
      read_coherent    — a read is answered as on one committed state between its
                         start and its end, but for the proposals of an active
                         negotiation, which may be newer than its row
-/
import Procurement.Concurrency.Serializability
import Procurement.Framework.Readers
import Procurement.Security.Confidentiality

namespace Procurement

open Procurement.Framework
open Procurement.Framework.Program

/-! ## §1. Traffic. -/

/-- A request of an authenticated caller. -/
inductive Visit where
  | post (req : HttpRequest)
  | read (request : ReadRequest)
  | me (caller : Id)

def Visit.program : Visit → Prog Reply
  | .post req => (handle req).map .response
  | .read request => (handleRead request).map .body
  | .me caller => (handleMe caller).map .user

def Visit.isPost : Visit → Bool
  | .post _ => true
  | .read _ | .me _ => false

/-- Concurrent requests of both kinds. -/
abbrev Traffic := World Cmd Cmd.Resp Error Db Write Env Row Table Reply

def Db.visited (db : Db) (visits : Nat → Visit) (envs : Nat → Env) : Traffic :=
  World.start db (fun t => (db.ids t).foldr max 0) (fun i => (visits i).program) envs

/-- The posts among them; in the place of a read, one that is never begun. -/
def posts (visits : Nat → Visit) (i : Nat) : HttpRequest :=
  match visits i with
  | .post req => req
  | .read _ | .me _ => ⟨0, none, "", .reject 0⟩

/-! ## §2. Reads are readers. -/

/-- The statements of the reads. -/
def Cmd.selects : Cmd → Bool
  | .getUser _ | .userByEmail _ | .getRequest _ | .getNegotiation _ | .proposals _ => true
  | .validate => true
  | .requestsOfClient _ _ _ | .openRequests _ _ => true
  | .negotiationsOfSupplier _ _ _ | .negotiationsOfClient _ _ _ => true
  | _ => false

/-- They lock nothing, draw nothing and write nothing. -/
theorem Cmd.selects_reads {c : Cmd} (h : c.selects = true) : World.Reads engine rowLocks c := by
  cases c with
  | getUser | userByEmail | getRequest | getNegotiation | proposals | validate | requestsOfClient
  | openRequests | negotiationsOfSupplier | negotiationsOfClient =>
      exact ⟨fun _ => rfl, fun _ => rfl, fun _ => rfl, fun _ => rfl, fun _ _ => ⟨_, rfl⟩⟩
  | _ => exact absurd h (by simp [Cmd.selects])

/-- The program sends SELECTs only. -/
abbrev Selects {α : Type} (p : Prog α) : Prop := p.Uses fun c => c.selects = true

/-- A listing that only selects for each row only selects. -/
theorem listOut_selects {ρ : Type} {out : ρ → Prog Body} (hout : ∀ row, Selects (out row))
    (rows : List ρ) : Selects (listOut out rows) := by
  induction rows with
  | nil => trivial
  | cons row rows ih =>
      exact Program.Uses.bind (hout row) fun _ => Program.Uses.bind ih fun _ => trivial

/-- Dumping a request selects nothing. -/
theorem productRequestOut_selects (r : ProductRequest) : Selects (productRequestOut r) :=
  ⟨rfl, fun _ => trivial⟩

/-- Dumping a negotiation selects its last proposal. -/
theorem negotiationOut_selects (n : Negotiation) : Selects (negotiationOut n) :=
  ⟨rfl, fun _ => ⟨rfl, fun _ => trivial⟩⟩

/-- The check of a participant selects the request. -/
theorem ensureParticipant_selects (user : User) (n : Negotiation) :
    Selects (ensureParticipant user n) := by
  refine ⟨rfl, fun r => ?_⟩
  cases r with
  | none => trivial
  | some r =>
      show Selects (if _ then _ else _)
      split <;> trivial

/-- `get_negotiation` only selects. -/
theorem getNegotiation_selects (user : User) (i : Id) : Selects (getNegotiation user i) := by
  refine ⟨rfl, fun n => ?_⟩
  cases n with
  | none => trivial
  | some n =>
      show Selects (ensureParticipant user n >>= _)
      exact Program.Uses.bind (ensureParticipant_selects user n) fun _ => trivial

/-- **Every GET only selects**, one operation at a time. -/
theorem ReadOp.produce_selects (user : User) (op : ReadOp) : Selects (op.produce user) := by
  cases op with
  | listRequests p =>
      refine Program.Uses.bind ?_ fun rows =>
        Program.Uses.bind (listOut_selects productRequestOut_selects rows) fun _ => trivial
      unfold Procurement.listRequests
      split <;> exact ⟨rfl, fun _ => trivial⟩
  | getRequest i =>
      refine Program.Uses.bind ⟨rfl, fun r => ?_⟩ fun r =>
        Program.Uses.bind (productRequestOut_selects r) fun _ => trivial
      cases r with
      | none => trivial
      | some r =>
          show Selects (if _ then _ else _)
          split <;> trivial
  | listNegotiations p =>
      refine Program.Uses.bind ?_ fun rows =>
        Program.Uses.bind (listOut_selects negotiationOut_selects rows) fun _ => trivial
      unfold Procurement.listNegotiations
      split <;> exact ⟨rfl, fun _ => trivial⟩
  | getNegotiation i =>
      exact Program.Uses.bind (getNegotiation_selects user i) fun n =>
        ⟨rfl, fun _ => ⟨rfl, fun _ => trivial⟩⟩

/-- So does the look at the caller. -/
theorem getCurrentUser_selects (i : Id) : Selects (getCurrentUser i) := by
  refine ⟨rfl, fun user => ?_⟩
  cases user <;> trivial

/-- A whole GET only selects. -/
theorem handleRead_selects (request : ReadRequest) : Selects (handleRead request) :=
  Program.Uses.bind (getCurrentUser_selects request.caller) fun user =>
    request.op.produce_selects user

/-- `GET /auth/me` only selects. -/
theorem handleMe_selects (caller : Id) : Selects (handleMe caller) :=
  Program.Uses.bind (getCurrentUser_selects caller) fun _ => trivial

/-- What only selects asks for no locks and writes nothing. -/
theorem Selects.reads {α : Type} {p : Prog α} (h : Selects p) :
    p.Uses (World.Reads engine rowLocks) :=
  h.mono fun _ => Cmd.selects_reads

/-- **Every visit that is no post is a reader.** -/
theorem Visit.reader {visit : Visit} (h : visit.isPost = false) :
    visit.program.Uses (World.Reads engine rowLocks) := by
  cases visit with
  | post req => exact absurd h (by simp [Visit.isPost])
  | read request => exact Program.Uses.map (handleRead_selects request).reads _
  | me caller => exact Program.Uses.map (handleMe_selects caller).reads _

/-! ## §3. A read across a commit. -/

theorem eighty_pos : 0 < 80 := by decide

theorem eighty_digits : 80 < 10 ^ 14 := by decide

/-- The first supplier looks at his negotiation, in which the client asks for 80. -/
def haggled : Nat → Visit
  | 0 => .read ⟨2, .getNegotiation 1⟩
  | 1 => .post (plain 1 (.counter 1 (asking 80 eighty_pos eighty_digits)))
  | _ => .me 1

def haggledEnvs : Nat → Env
  | 0 => market.numbering 10
  | _ => market.numbering 0

/-- The read has its row, the counter commits, the read goes on with the proposals. -/
def acrossCounter : List Event := eventsOf 0 3 ++ eventsOf 1 12 ++ eventsOf 0 3

/-- The detail that a transaction has ended with. -/
def detailOf (w : Traffic) (i : Nat) : Option NegotiationDetailOut :=
  match w.txs i with
  | .done (.ok (.body (.detail d))) => some d
  | _ => none

/-- It ends with an active negotiation of two proposals. -/
theorem haggled_runs : ∃ w, (market.visited haggled haggledEnvs).runs engine rowLocks World.anyStep
      acrossCounter = some w ∧ w.log.map Prod.fst = [1]
    ∧ ∃ d, detailOf w 0 = some d ∧ d.status = .active ∧ d.proposals.length = 2 := by
  have hrun : ((market.visited haggled haggledEnvs).runs engine rowLocks World.anyStep
      acrossCounter).any (fun w => decide (w.log.map Prod.fst = [1])
        && (detailOf w 0).any fun d => decide (d.status = .active ∧ d.proposals.length = 2)) = true := by
    decide +kernel
  obtain ⟨w, hw, hall⟩ := (Option.any_eq_true _ _).mp hrun
  rw [Bool.and_eq_true] at hall
  obtain ⟨d, hd, hfacts⟩ := (Option.any_eq_true _ _).mp hall.2
  exact ⟨w, hw, of_decide_eq_true hall.1, d, hd, of_decide_eq_true hfacts⟩

/-- A visit that shows a detail has ended with it. -/
theorem done_of_detailOf {w : Traffic} {i : Nat} {d : NegotiationDetailOut}
    (h : detailOf w i = some d) : w.txs i = .done (.ok (.body (.detail d))) := by
  unfold detailOf at h
  split at h
  · next heq => rw [heq, Option.some.inj h]
  · exact absurd h (by simp)

theorem ninety_pos : 0 < 90 := by decide

theorem ninety_digits : 90 < 10 ^ 14 := by decide

/-- The client asks for 80, the first supplier looks at his negotiation, and answers with 90
from another page meanwhile. -/
def bargained : Nat → Visit
  | 0 => .read ⟨2, .getNegotiation 1⟩
  | 1 => .post (plain 1 (.counter 1 (asking 80 eighty_pos eighty_digits)))
  | 2 => .post (plain 2 (.counter 1 (asking 90 ninety_pos ninety_digits)))
  | _ => .me 1

def bargainedEnvs (i : Nat) : Env := market.numbering (10 * i)

/-- Any event that is not one of transaction `i`. -/
def anyBut (i : Nat) (_ : Traffic) (e : Event) : Prop := e.tx ≠ i

instance (i : Nat) (w : Traffic) (e : Event) : Decidable (anyBut i w e) :=
  inferInstanceAs (Decidable (¬ e.tx = i))

/-- The read begins behind the first counter.  The second one overtakes it. -/
theorem bargained_runs : ∃ v w d,
    (market.visited bargained bargainedEnvs).runs engine rowLocks (anyBut 0) (eventsOf 1 12) = some v
      ∧ v.runs engine rowLocks World.anyStep (eventsOf 0 3 ++ eventsOf 2 12 ++ eventsOf 0 3) = some w
      ∧ v.log.map Prod.fst = [1] ∧ w.log.map Prod.fst = [1, 2]
      ∧ detailOf w 0 = some d ∧ d.proposals.map ProposalOut.amount = [100, 80, 90] := by
  have hrun : ((market.visited bargained bargainedEnvs).runs engine rowLocks (anyBut 0)
      (eventsOf 1 12)).any (fun v => decide (v.log.map Prod.fst = [1])
        && (v.runs engine rowLocks World.anyStep (eventsOf 0 3 ++ eventsOf 2 12 ++ eventsOf 0 3)).any
          fun w => decide (w.log.map Prod.fst = [1, 2])
            && (detailOf w 0).any fun d =>
              decide (d.proposals.map ProposalOut.amount = [100, 80, 90])) = true := by
    decide +kernel
  obtain ⟨v, hv, hbehind⟩ := (Option.any_eq_true _ _).mp hrun
  obtain ⟨hlog, hread⟩ := Bool.and_eq_true_iff.mp hbehind
  obtain ⟨w, hw, hends⟩ := (Option.any_eq_true _ _).mp hread
  obtain ⟨hlog', hshown⟩ := Bool.and_eq_true_iff.mp hends
  obtain ⟨d, hd, hamounts⟩ := (Option.any_eq_true _ _).mp hshown
  exact ⟨v, w, d, hv, hw, of_decide_eq_true hlog, of_decide_eq_true hlog', hd,
    of_decide_eq_true hamounts⟩

/-! ## §4. Reads are invisible. -/

section
variable {db : Db} {visits : Nat → Visit} {envs : Nat → Env} {w w' : Traffic}

abbrev TrafficRun (w w' : Traffic) : Prop := World.Run engine rowLocks World.anyStep w w'

/-- The transactions of the reads. -/
def IsRead (visits : Nat → Visit) (i : Nat) : Prop := (visits i).isPost = false

/-- The traffic beside the posts alone. -/
abbrev Beside (visits : Nat → Visit) (w : Traffic) (v : Concurrent) : Prop :=
  World.Hides engine rowLocks (IsRead visits) w (v.map Reply.response)

/-- A visit that is no read is a post. -/
theorem program_of_post {i : Nat} (h : ¬ IsRead visits i) :
    (visits i).program = (handle (posts visits i)).map .response := by
  unfold IsRead at h
  unfold posts
  cases hv : visits i with
  | post req => rfl
  | read request => rw [hv] at h; exact absurd rfl h
  | me caller => rw [hv] at h; exact absurd rfl h

/-- The world of the visits starts beside the world of its posts. -/
theorem visited_beside (db : Db) (visits : Nat → Visit) (envs : Nat → Env) :
    Beside visits (db.visited visits envs) (db.opened (posts visits) envs) where
  committed := rfl
  owner := rfl
  last := rfl
  log := rfl
  others := by
    intro i hi
    show Tx.running ⟨(visits i).program, envs i, []⟩ = _
    rw [program_of_post hi]
    rfl
  reading := fun i hi => ⟨Visit.reader hi, rfl⟩
  free := fun i hi row => by simp [Db.visited, World.start]
  logged := fun entry he => absurd he List.not_mem_nil

/-- **A run of the traffic is one of its posts**, through the same states. -/
theorem beside_run (hrun : TrafficRun (db.visited visits envs) w) :
    ∃ v, World.Run engine rowLocks World.anyStep (db.opened (posts visits) envs) v
      ∧ Beside visits w v := by
  obtain ⟨v, hv, hbeside⟩ := (visited_beside db visits envs).run hrun
  obtain ⟨v', rfl, hrun'⟩ := World.Run.of_map engine rowLocks Reply.response hv
  exact ⟨v', hrun', hbeside⟩

/-- The run of the posts keeps the serial order of their commits. -/
theorem serialized_posts (h : Reachable db) {calls : Nat → HttpRequest} {v : Concurrent}
    (hv : World.Run engine rowLocks World.anyStep (db.opened calls envs) v) :
    Serialized db calls envs v := by
  have hinv : Sound calls envs v ∧ Serialized db calls envs v := by
    refine World.Run.invariant (P := fun v => Sound calls envs v ∧ Serialized db calls envs v)
      engine rowLocks ?_ hv ?_
    · intro v e v' hs _ hm
      exact ⟨hs.1.move hm, hs.2.move hs.1 hm⟩
    · refine ⟨.opened h.consistent, rfl, List.nodup_nil, ?_⟩
      intro m i ws hentry
      exact absurd hentry (by simp [Db.opened, World.start])
  exact hinv.2

/-- A reply stays a reply under the name of the visit. -/
theorem replied_map {r : Response} {t : Tx Cmd Cmd.Resp Error Write Env Response}
    (h : World.Replied engine.fault r t) :
    World.Replied engine.fault (Reply.response r) (t.map Reply.response) := by
  cases t with
  | running p =>
      obtain ⟨p, env, ws⟩ := p
      obtain rfl : p = .ret r := h
      rfl
  | done o =>
      rcases h with rfl | rfl
      · exact Or.inl rfl
      · exact Or.inr rfl

end

/-- **Reads change nothing.**  From any reachable state, after any events of any number
of posts and reads: the committed business state is the one the committed posts leave
when they are run one at a time, each with the answer it has got here, and no read is
among them; no read ever waits, and nobody waits for one. -/
theorem traffic_serializable {db : Db} (h : Reachable db) (visits : Nat → Visit) (envs : Nat → Env)
    {w : Traffic} (hrun : TrafficRun (db.visited visits envs) w) :
    w.committed.business = (stateAfter db (serially (posts visits) envs w.log)).business
      ∧ (w.log.map Prod.fst).Nodup
      ∧ (∀ entry ∈ w.log, (visits entry.1).isPost = true)
      ∧ (∀ (m i : Nat) (ws : List Write), w.log[m]? = some (i, ws) →
          ∃ r : Response, (answers db (serially (posts visits) envs w.log))[m]? = some (.ok r)
            ∧ World.Replied engine.fault (Reply.response r) (w.txs i))
      ∧ ∀ i, (visits i).isPost = false →
          ((∀ o, w.txs i ≠ .done o) → ∃ w', w.next engine rowLocks (.step i) = some w')
            ∧ ∀ j, ¬ World.WaitsFor engine rowLocks (fun _ => True) w j i := by
  obtain ⟨v, hv, hbeside⟩ := beside_run hrun
  have hcommitted : w.committed = v.committed := hbeside.committed
  have hlog : w.log = v.log := hbeside.log
  have hposts : ∀ entry ∈ w.log, (visits entry.1).isPost = true := by
    intro entry hentry
    simpa [IsRead] using hbeside.logged entry hentry
  have hserialized : Serialized db (posts visits) envs v := serialized_posts h hv
  refine ⟨?_, ?_, hposts, ?_, ?_⟩
  · rw [hcommitted, hlog]
    exact hserialized.business
  · rw [hlog]
    exact hserialized.once
  · intro m i ws hentry
    have hpost : ¬ IsRead visits i := by
      have hmem := hposts _ (List.mem_of_getElem? hentry)
      simpa [IsRead] using hmem
    rw [hlog] at hentry ⊢
    obtain ⟨r, hr, hreplied⟩ := hserialized.answered m i ws hentry
    refine ⟨r, hr, ?_⟩
    rw [hbeside.others i hpost]
    exact replied_map hreplied
  · intro i hi
    refine ⟨World.next_reading engine rowLocks (hbeside.reading i hi), ?_⟩
    rintro j ⟨row, _, _, howns, _⟩
    exact hbeside.free i hi row howns

/-- The counter, beside the read that it overtakes. -/
theorem traffic_serializable_haggled :
    ∃ w, (market.visited haggled haggledEnvs).runs engine rowLocks World.anyStep acrossCounter = some w
      ∧ w.log.map Prod.fst = [1]
      ∧ w.committed.business
        = (stateAfter market (serially (posts haggled) haggledEnvs w.log)).business := by
  obtain ⟨w, hw, hlog, _⟩ := haggled_runs
  have hreach := World.Run.of_runs engine rowLocks hw
  exact ⟨w, hw, hlog, (traffic_serializable market_reachable haggled haggledEnvs hreach).1⟩

/-! ## §5. What others do between two SELECTs. -/

/-- The users stay, the requests keep their clients, and the rest only grows. -/
structure Grown (s s' : Db) : Prop where
  users : s'.users = s.users
  owner : ∀ i r, s.request i = some r → ∃ r', s'.request i = some r' ∧ r'.clientId = r.clientId
  extended : Extends s s'

/-- A state has grown from itself. -/
theorem Grown.refl (s : Db) : Grown s s := ⟨rfl, fun _ r hr => ⟨r, hr, rfl⟩, .refl s⟩

/-- Growth goes on. -/
theorem Grown.trans {s s' s'' : Db} (h : Grown s s') (h' : Grown s' s'') : Grown s s'' where
  users := h'.users.trans h.users
  owner := by
    intro i r hr
    obtain ⟨r', hr', hclient⟩ := h.owner i r hr
    obtain ⟨r'', hr'', hclient'⟩ := h'.owner i r' hr'
    exact ⟨r'', hr'', hclient'.trans hclient⟩
  extended := h.extended.trans h'.extended

/-- What extends a state does so with any audit log. -/
theorem Extends.business {s a b : Db} (h : Extends s a) (hab : a.business = b.business) :
    Extends s b := by
  have hproposals : a.proposals = b.proposals :=
    show a.business.proposals = b.business.proposals by rw [hab]
  have hnegotiations : a.negotiations = b.negotiations :=
    show a.business.negotiations = b.business.negotiations by rw [hab]
  have hrequests : a.requests = b.requests :=
    show a.business.requests = b.business.requests by rw [hab]
  obtain ⟨hp, hd, hc⟩ := h
  unfold Db.proposalsOf Db.negotiationsOf at *
  rw [hproposals] at hp hd
  rw [hnegotiations] at hd hc
  rw [hrequests] at hc
  exact ⟨hp, hd, hc⟩

/-- An admissible commit extends the state. -/
theorem Produces.extends_admissible {db : Db} {user : User} {env : Env} {op : Op} {o : Produced}
    (h : Produces db user env op o) (hc : Consistent db) (ha : Admissible o.writes db) :
    Extends db (engine.view o.writes db) := by
  have hh := h
  cases h with
  | createRequest data =>
      exact
        { proposals := List.prefix_refl _
          decided := fun n hn _ => ⟨hn, rfl⟩
          closed := fun r hr _ => ⟨List.mem_append_left _ hr, rfl⟩ }
  | makeOffer data hread ho =>
      exact hh.extends hc (ha.negotiations _ (List.mem_cons_self ..))
  | accept hread hm hrow => exact hc.accept_extends hread hm hrow
  | @reject neg client ps last hread hm =>
      -- its writes draw no id of a negotiation, so any environment will do
      have hother := @Produces.reject db user (Env.following db) neg client ps last hread hm
      have hext := hother.extends hc ((Env.following_fresh db).unused .negotiations 0)
      exact ⟨hext.proposals, hext.decided, hext.closed⟩
  | @counter neg client ps last data hread hm =>
      have hneg : neg ∈ db.negotiations := lookup_mem hread.row
      refine ⟨List.prefix_append _ _, ?_, fun r hr _ => ⟨hr, rfl⟩⟩
      intro n hn hs
      exact ⟨hn, proposalsOf_concat (hc.ne_of_active hn hs hneg hm.active).symm⟩

/-- **Every event lets the committed state grow**, or leaves it alone. -/
theorem Sound.grown {calls : Nat → HttpRequest} {envs : Nat → Env} {w w' : Concurrent} {e : Event}
    (h : Sound calls envs w) (hm : Moves w e w') : Grown w.committed w'.committed := by
  cases hm with
  | committed i k env ws ht =>
      obtain ⟨user, o, o', _, hx, hadm, _, _, hbusiness⟩ := h.commit ht
      have hrely := h.committed_rely ht (Nat.succ_ne_self i)
      have hext := hx.produces.extends_admissible h.consistent hadm
      have hcommit : Extends w.committed
          (engine.view (committedWrites (calls i) user o') w.committed) := by
        rw [view_committed]
        exact ⟨hext.proposals, hext.decided, hext.closed⟩
      exact ⟨hrely.users, hrely.owner, hcommit.business hbusiness⟩
  | _ => exact Grown.refl _

/-- What holds between two worlds of a run of the traffic. -/
theorem traffic_grown {db : Db} (h : Reachable db) {visits : Nat → Visit} {envs : Nat → Env}
    {u v : Traffic} (hu : TrafficRun (db.visited visits envs) u) (hv : TrafficRun u v) :
    Consistent u.committed ∧ Grown u.committed v.committed := by
  obtain ⟨u₀, hrun, hbeside⟩ := beside_run hu
  obtain ⟨v', hv', hbeside'⟩ := hbeside.run hv
  obtain ⟨v₀, rfl, hrun'⟩ := World.Run.of_map engine rowLocks Reply.response hv'
  have hsound : Sound (posts visits) envs u₀ :=
    World.Run.invariant engine rowLocks (fun _ _ _ hw _ hm => hw.move hm) hrun
      (.opened h.consistent)
  have hgrown : Sound (posts visits) envs v₀ ∧ Grown u₀.committed v₀.committed := by
    refine World.Run.invariant (P := fun w => Sound (posts visits) envs w
      ∧ Grown u₀.committed w.committed) engine rowLocks ?_ hrun' ⟨hsound, .refl _⟩
    exact fun w e w' hw _ hm => ⟨hw.1.move hm, hw.2.trans (hw.1.grown hm)⟩
  rw [show u.committed = u₀.committed from hbeside.committed,
    show v.committed = v₀.committed from hbeside'.committed]
  exact ⟨hsound.consistent, hgrown.2⟩

/-! ## §6. What a read is answered. -/

/-- Between `u` and `w` the committed state was `s`. -/
def Passed (u w : Traffic) (s : Db) : Prop := ∃ m, TrafficRun u m ∧ TrafficRun m w ∧ m.committed = s

/-- The chain of `n` in `s'` goes on from the one in `s`, and does not when the row has
been decided. -/
structure GoesOn (s s' : Db) (n : Negotiation) : Prop where
  begins : s.chain n.id <+: s'.chain n.id
  frozen : n.status ≠ .active → s'.chain n.id = s.chain n.id

/-- The answer is the one of the state `s`, but for the proposals of each negotiation,
which have been loaded from a later state. -/
def AnsweredAt (s : Db) (later : Db → Prop) (user : User) : ReadOp → Except Error ReadBody → Prop
  | .listRequests p, o => o = ReadOp.answer s user (.listRequests p)
  | .getRequest i, o => o = ReadOp.answer s user (.getRequest i)
  | .listNegotiations p, o => ∃ bodies, o = .ok (.items bodies)
      ∧ List.Forall₂ (fun n body => ∃ s', later s' ∧ GoesOn s s' n ∧ body = .negotiation (s'.out n))
        (page Negotiation.id p.limit p.offset (s.listedNegotiations user)) bodies
  | .getNegotiation i, o =>
      (∃ e, s.negotiationFor user i = .error e ∧ o = .error e)
        ∨ ∃ n s', s.negotiationFor user i = .ok n ∧ later s' ∧ GoesOn s s' n
          ∧ o = .ok (.detail (s'.detail n))

section
variable {env : Env} {u v w : Traffic} {α : Type} {o : Except Error α}

abbrev Sampled (env : Env) (u : Traffic) (p : Prog α) (v : Traffic) (o : Except Error α) : Prop :=
  World.Sampled engine rowLocks env u p v o

/-- The committed state of a world is passed. -/
theorem Passed.here (h : TrafficRun u w) : Passed u w u.committed := ⟨u, .refl, h, rfl⟩

/-- One SELECT. -/
theorem Sampled.select {c : Cmd} {k : c.Resp → Prog α} (h : Sampled env u (.call c k) v o) :
    ∃ m r, TrafficRun u m ∧ c.answer env m.committed = .ok r ∧ Sampled env m (k r) v o := by
  cases h with
  | call hrun ha rest => exact ⟨_, _, hrun, ha, rest⟩

/-- A request is dumped as it was selected. -/
theorem productRequestOut_sampled {r : ProductRequest} {o : Except Error Body}
    (h : Sampled env u (productRequestOut r) v o) : o = .ok (renderedRequest r) := by
  obtain ⟨m, _, _, _, rest⟩ := Sampled.select h
  cases rest with
  | ret _ => rfl

/-- The proposals of a row are loaded from one state. -/
theorem negotiationOut_sampled {n : Negotiation} {o : Except Error Body}
    (h : Sampled env u (negotiationOut n) v o) :
    ∃ s', Passed u v s' ∧ o = .ok (.negotiation (s'.out n)) := by
  obtain ⟨m, ps, hm, hps, rest⟩ := Sampled.select h
  obtain rfl := Except.ok.inj hps
  obtain ⟨m', _, hm', _, rest⟩ := Sampled.select rest
  cases rest with
  | ret hv => exact ⟨m.committed, ⟨m, hm, hm'.trans hv, rfl⟩, rfl⟩

/-- What is passed in a part of a run is passed in all of it. -/
theorem Passed.between {m m' : Traffic} {s : Db} (h : Passed m m' s) (hu : TrafficRun u m)
    (hw : TrafficRun m' w) : Passed u w s := by
  obtain ⟨n, hm, hm', hs⟩ := h
  exact ⟨n, hu.trans hm, hm'.trans hw, hs⟩

/-- A list is rendered row by row. -/
theorem listOut_sampled {ρ : Type} {out : ρ → Prog Body} {R : ρ → Body → Prop} (rows : List ρ)
    (hout : ∀ row ∈ rows, ∀ m m' (o : Except Error Body), TrafficRun w m → TrafficRun m' v →
      Sampled env m (out row) m' o → ∃ body, o = .ok body ∧ R row body)
    {u : Traffic} {o : Except Error (List Body)} (hu : TrafficRun w u)
    (h : Sampled env u (listOut out rows) v o) :
    ∃ bodies, o = .ok bodies ∧ List.Forall₂ R rows bodies := by
  induction rows generalizing u o with
  | nil =>
      cases h with
      | ret _ => exact ⟨[], rfl, .nil⟩
  | cons row rows ih =>
      have hout' := fun r hr => hout r (List.mem_cons_of_mem row hr)
      rcases World.Sampled.bind h with ⟨e, rfl, hrow⟩ | ⟨body, m, hrow, hrest⟩
      · obtain ⟨body, hbody, _⟩ := hout row List.mem_cons_self u v _ hu .refl hrow
        exact absurd hbody (by simp)
      have hm : TrafficRun w m := hu.trans hrow.run
      obtain ⟨_, hbody, hR⟩ := hout row List.mem_cons_self u m _ hu hrest.run hrow
      obtain rfl := Except.ok.inj hbody
      rcases World.Sampled.bind hrest with ⟨e, rfl, hrows⟩ | ⟨bodies, m', hrows, hend⟩
      · obtain ⟨bodies, hbodies, _⟩ := ih hout' hm hrows
        exact absurd hbodies (by simp)
      · obtain ⟨_, hbodies, hall⟩ := ih hout' hm (hrows.until hend.run)
        obtain rfl := Except.ok.inj hbodies
        cases hend with
        | ret _ => exact ⟨body :: bodies, rfl, .cons hR hall⟩

end

/-- A negotiation goes on in every state that has grown from its own. -/
theorem GoesOn.of_grown {s s' : Db} (hs : Consistent s) (hs' : Consistent s') (h : Grown s s')
    {n : Negotiation} (hn : n ∈ s.negotiations) : GoesOn s s' n where
  begins := by
    rw [hs.chain_eq, hs'.chain_eq]
    exact h.extended.proposals.filter _
  frozen := by
    intro hdecided
    rw [hs.chain_eq, hs'.chain_eq]
    exact (h.extended.decided n hn hdecided).2

/-- The committed states of the traffic behind `u` are consistent and grow. -/
def Growing (u : Traffic) : Prop :=
  ∀ m m', TrafficRun u m → TrafficRun m m' →
    Consistent m.committed ∧ Grown m.committed m'.committed

section
variable {env : Env} {u v w : Traffic} {user : User}

/-- A growing world stays one. -/
theorem Growing.later (h : Growing u) (hrun : TrafficRun u v) : Growing v :=
  fun m m' hm hm' => h m m' (hrun.trans hm) hm'

/-- A negotiation that was selected goes on in every state that is passed later. -/
theorem Growing.goesOn (h : Growing u) {m : Traffic} {s' : Db} {n : Negotiation}
    (hm : TrafficRun u m) (hs : Passed m v s') (hn : n ∈ m.committed.negotiations) :
    GoesOn m.committed s' n := by
  obtain ⟨m', hm', _, rfl⟩ := hs
  exact .of_grown (h m m hm .refl).1 (h m' m' (hm.trans hm') .refl).1 (h m m' hm hm').2 hn

/-- The rows of a page are rows. -/
theorem mem_listed {s : Db} {n : Negotiation} {limit offset : Nat}
    (h : n ∈ page Negotiation.id limit offset (s.listedNegotiations user)) : n ∈ s.negotiations := by
  have hlisted := mem_of_mem_page h
  unfold Db.listedNegotiations at hlisted
  split at hlisted <;> exact List.mem_of_mem_filter hlisted

/-- Its row is read before the guard, but the guard says what it says there. -/
theorem getNegotiation_sampled (hu : Growing u) {i : Id} {o : Except Error Negotiation}
    (h : Sampled env u (getNegotiation user i) v o) :
    ∃ m, TrafficRun u m ∧ TrafficRun m v ∧ o = m.committed.negotiationFor user i := by
  obtain ⟨m, row, hm, hrow, rest⟩ := Sampled.select h
  obtain rfl := Except.ok.inj hrow
  refine ⟨m, hm, rest.run, ?_⟩
  unfold Db.negotiationFor
  cases hneg : m.committed.negotiation i with
  | none =>
      rw [hneg] at rest
      cases rest with
      | raise _ => rfl
  | some n =>
      rw [hneg] at rest
      obtain ⟨m', row', hm', hrow', rest⟩ := Sampled.select rest
      obtain rfl := Except.ok.inj hrow'
      obtain ⟨hcons, hgrown⟩ := hu m m' hm hm'
      obtain ⟨r, _, hr, _⟩ := hcons.client (lookup_mem hneg)
      obtain ⟨r', hr', hclient⟩ := hgrown.owner _ _ hr
      -- the request keeps its client
      simp only [hr, ← hclient]
      rw [hr'] at rest
      change Sampled env m' ((if user.id ≠ r'.clientId ∧ user.id ≠ n.supplierId then
        raise (.permissionDenied "You are not a participant in this negotiation")
        else pure r') >>= fun _ => pure n) v o at rest
      by_cases hp : user.id ≠ r'.clientId ∧ user.id ≠ n.supplierId
      · rw [if_pos hp] at rest ⊢
        cases rest with
        | raise _ => rfl
      · rw [if_neg hp] at rest ⊢
        cases rest with
        | ret _ => rfl

/-- A listing is one SELECT, and the rendering of its rows. -/
theorem listRequests_sampled {p : Page} {k : List ProductRequest → Prog ReadBody}
    {o : Except Error ReadBody} (h : Sampled env u (listRequests user p.limit p.offset >>= k) v o) :
    ∃ m, TrafficRun u m ∧ Sampled env m
      (k (page ProductRequest.id p.limit p.offset (m.committed.listedRequests user))) v o := by
  unfold listRequests at h
  unfold Db.listedRequests
  split at h
  · next hrole =>
    obtain ⟨m, rows, hm, hrows, rest⟩ := Sampled.select h
    obtain rfl := Except.ok.inj hrows
    exact ⟨m, hm, by rw [if_pos hrole]; exact rest⟩
  · next hrole =>
    obtain ⟨m, rows, hm, hrows, rest⟩ := Sampled.select h
    obtain rfl := Except.ok.inj hrows
    exact ⟨m, hm, by rw [if_neg hrole]; exact rest⟩

/-- A listing of negotiations is one SELECT. -/
theorem listNegotiations_sampled {p : Page} {k : List Negotiation → Prog ReadBody}
    {o : Except Error ReadBody}
    (h : Sampled env u (listNegotiations user p.limit p.offset >>= k) v o) :
    ∃ m, TrafficRun u m ∧ Sampled env m
      (k (page Negotiation.id p.limit p.offset (m.committed.listedNegotiations user))) v o := by
  unfold listNegotiations at h
  unfold Db.listedNegotiations
  split at h
  · next hrole =>
    obtain ⟨m, rows, hm, hrows, rest⟩ := Sampled.select h
    obtain rfl := Except.ok.inj hrows
    exact ⟨m, hm, by rw [if_pos hrole]; exact rest⟩
  · next hrole =>
    obtain ⟨m, rows, hm, hrows, rest⟩ := Sampled.select h
    obtain rfl := Except.ok.inj hrows
    exact ⟨m, hm, by rw [if_neg hrole]; exact rest⟩

/-- The rows of a page are dumped one behind the other, each on states that are passed. -/
theorem items_sampled {ρ : Type} {out : ρ → Prog Body} {R : ρ → Body → Prop} {rows : List ρ}
    (hout : ∀ row ∈ rows, ∀ m m' (o : Except Error Body), TrafficRun u m → TrafficRun m' v →
      Sampled env m (out row) m' o → ∃ body, o = .ok body ∧ R row body)
    {o : Except Error ReadBody}
    (h : Sampled env u (listOut out rows >>= fun bodies => .ret (.items bodies)) v o) :
    ∃ bodies, o = .ok (.items bodies) ∧ List.Forall₂ R rows bodies := by
  rcases World.Sampled.bind h with ⟨e, rfl, hlist⟩ | ⟨bodies, m, hlist, rest⟩
  · obtain ⟨bodies, hbodies, _⟩ := listOut_sampled rows hout .refl hlist
    exact absurd hbodies (by simp)
  · obtain ⟨_, hbodies, hall⟩ := listOut_sampled rows hout .refl (hlist.until rest.run)
    obtain rfl := Except.ok.inj hbodies
    cases rest with
    | ret _ => exact ⟨bodies, rfl, hall⟩

/-- `get_request` answers on the state of its one SELECT. -/
theorem getRequest_sampled {i : Id} {o : Except Error ProductRequest}
    (h : Sampled env u (getRequest user i) v o) :
    ∃ m, TrafficRun u m ∧ TrafficRun m v ∧ o = m.committed.requestFor user i := by
  obtain ⟨m, row, hm, hrow, rest⟩ := Sampled.select h
  obtain rfl := Except.ok.inj hrow
  refine ⟨m, hm, rest.run, ?_⟩
  unfold Db.requestFor
  cases hreq : m.committed.request i with
  | none =>
      rw [hreq] at rest
      cases rest with
      | raise _ => rfl
  | some r =>
      rw [hreq] at rest
      change Sampled env m (if user.role = .client ∧ r.clientId ≠ user.id then
        raise (.permissionDenied "Not your request") else pure r) v o at rest
      by_cases hp : user.role = .client ∧ r.clientId ≠ user.id
      · simp only [if_pos hp] at rest ⊢
        cases rest with
        | raise _ => rfl
      · simp only [if_neg hp] at rest ⊢
        cases rest with
        | ret _ => rfl

theorem map_of_forall₂ {α β : Type} {f : α → β} {as : List α} {bs : List β}
    (h : List.Forall₂ (fun a b => b = f a) as bs) : bs = as.map f := by
  induction h with
  | nil => rfl
  | cons hb _ ih => rw [hb, ih, List.map_cons]

/-- **What a read is answered.** -/
theorem read_sampled (hu : Growing u) {op : ReadOp} {o : Except Error ReadBody}
    (h : Sampled env u (op.produce user) v o) :
    ∃ m, TrafficRun u m ∧ TrafficRun m v ∧ AnsweredAt m.committed (Passed m v) user op o := by
  cases op with
  | listRequests p =>
      -- the first SELECT fixes the moment m; rendering a request asks for nothing
      obtain ⟨m, hm, hrest⟩ := listRequests_sampled h
      have hrow : ∀ r ∈ page ProductRequest.id p.limit p.offset (m.committed.listedRequests user),
          ∀ l l' (o : Except Error Body), TrafficRun m l → TrafficRun l' v →
            Sampled env l (productRequestOut r) l' o → ∃ body, o = .ok body ∧ body = renderedRequest r :=
        fun r _ l l' o _ _ hr => ⟨_, productRequestOut_sampled hr, rfl⟩
      obtain ⟨bodies, rfl, hall⟩ := items_sampled hrow hrest
      obtain rfl := map_of_forall₂ hall
      exact ⟨m, hm, hrest.run, rfl⟩
  | getRequest i =>
      rcases World.Sampled.bind h with ⟨e, rfl, hget⟩ | ⟨r, m', hget, rest⟩
      · obtain ⟨m, hm, hv, he⟩ := getRequest_sampled hget
        refine ⟨m, hm, hv, ?_⟩
        show _ = (m.committed.requestFor user i).map _
        rw [← he]
        rfl
      · obtain ⟨m, hm, hm', hr⟩ := getRequest_sampled hget
        rcases World.Sampled.bind rest with ⟨e, rfl, hout⟩ | ⟨body, l, hout, rest⟩
        · exact absurd (productRequestOut_sampled hout) (by simp)
        · obtain rfl := Except.ok.inj (productRequestOut_sampled hout)
          cases rest with
          | ret hv =>
              refine ⟨m, hm, hm'.trans (hout.run.trans hv), ?_⟩
              show _ = (m.committed.requestFor user i).map _
              rw [← hr]
              rfl
  | listNegotiations p =>
      -- the rows are those of m, but each is rendered with the proposals of a later moment
      obtain ⟨m, hm, hrest⟩ := listNegotiations_sampled h
      have hrow : ∀ n ∈ page Negotiation.id p.limit p.offset (m.committed.listedNegotiations user),
          ∀ l l' (o : Except Error Body), TrafficRun m l → TrafficRun l' v →
            Sampled env l (negotiationOut n) l' o → ∃ body, o = .ok body ∧ ∃ s', Passed m v s'
              ∧ GoesOn m.committed s' n ∧ body = .negotiation (s'.out n) := by
        intro n hn l l' o hl hl' hout
        obtain ⟨s', hs', rfl⟩ := negotiationOut_sampled hout
        have hpassed : Passed m v s' := hs'.between hl hl'
        exact ⟨_, rfl, s', hpassed, hu.goesOn hm hpassed (mem_listed hn), rfl⟩
      obtain ⟨bodies, rfl, hall⟩ := items_sampled hrow hrest
      exact ⟨m, hm, hrest.run, bodies, rfl, hall⟩
  | getNegotiation i =>
      rcases World.Sampled.bind h with ⟨e, rfl, hget⟩ | ⟨n, m', hget, rest⟩
      · obtain ⟨m, hm, hv, he⟩ := getNegotiation_sampled hu hget
        exact ⟨m, hm, hv, Or.inl ⟨e, he.symm, rfl⟩⟩
      · obtain ⟨m, hm, hm', hn⟩ := getNegotiation_sampled hu hget
        -- the negotiation is found at m, its proposals are read at m'', which may be later
        obtain ⟨m'', ps, hps, hanswer, rest⟩ := Sampled.select rest
        obtain rfl := Except.ok.inj hanswer
        obtain ⟨l, _, hl, _, rest⟩ := Sampled.select rest
        cases rest with
        | ret hv =>
            have hlater : TrafficRun m m'' := hm'.trans hps
            have hrest : TrafficRun m'' v := hl.trans hv
            have hrow := (Db.negotiationFor_iff.mp hn.symm).1
            have hpassed : Passed m v m''.committed := ⟨m'', hlater, hrest, rfl⟩
            exact ⟨m, hm, hlater.trans hrest, Or.inr ⟨n, m''.committed, hn.symm, hpassed,
              hu.goesOn hm hpassed (lookup_mem hrow), rfl⟩⟩

end

/-! ## §7. Coherence. -/

/-- An agreed amount is the last price that is shown. -/
def NegotiationDetailOut.Agrees (d : NegotiationDetailOut) : Prop :=
  ∀ a, d.agreedAmount = some a → d.proposals.getLast?.map ProposalOut.amount = some a

/-- Whatever later state the proposals are of, an agreed amount is the last price of them. -/
theorem detail_agrees {s s' : Db} (hs : Consistent s) {n : Negotiation} (hn : n ∈ s.negotiations)
    (h : GoesOn s s' n) : (s'.detail n).Agrees := by
  intro a ha
  change n.agreedAmount = some a at ha
  rcases hs.settled.amounts n hn with ⟨hstatus, p, hlast, hagreed⟩ | ⟨_, hnone⟩
  · -- it has been decided, so its chain is the one of the row
    have hchain : s'.chain n.id = s.proposalsOf n.id := by
      rw [h.frozen (by simp [hstatus]), hs.chain_eq]
    show ((s'.chain n.id).map proposalOut).getLast?.map _ = _
    rw [hchain, List.getLast?_map, hlast]
    exact hagreed.symm.trans ha
  · rw [hnone] at ha
    exact absurd ha (by simp)

/-- Behind a decision, nothing of a negotiation changes any more. -/
theorem detail_frozen {s s' : Db} {n : Negotiation} (h : GoesOn s s' n)
    (hdecided : n.status ≠ .active) : s'.detail n = s.detail n := by
  unfold Db.detail Db.out
  rw [h.frozen hdecided]

/-- A read that is answered with a detail shows an agreed amount with its price. -/
theorem AnsweredAt.agrees {s : Db} {later : Db → Prop} {user : User} {op : ReadOp}
    {d : NegotiationDetailOut} (hs : Consistent s)
    (h : AnsweredAt s later user op (.ok (.detail d))) : d.Agrees := by
  cases op with
  | listRequests p => exact absurd h.symm (by simp [ReadOp.answer])
  | getRequest i =>
      change _ = (s.requestFor user i).map _ at h
      cases hr : s.requestFor user i with
      | error e =>
          rw [hr] at h
          exact absurd h (by simp [Except.map])
      | ok r =>
          rw [hr] at h
          exact absurd h (by simp [Except.map])
  | listNegotiations p =>
      obtain ⟨bodies, hbodies, _⟩ := h
      exact absurd hbodies (by simp)
  | getNegotiation i =>
      rcases h with ⟨e, _, he⟩ | ⟨n, s', hn, _, hgoes, hdetail⟩
      · exact absurd he (by simp)
      · obtain rfl : s'.detail n = d := by simpa using hdetail.symm
        exact detail_agrees hs (lookup_mem (Db.negotiationFor_iff.mp hn).1) hgoes

/-- Of a decided negotiation a read shows what the one state has. -/
theorem AnsweredAt.decided {s : Db} {later : Db → Prop} {user : User} {i : Id} {n : Negotiation}
    {o : Except Error ReadBody} (h : AnsweredAt s later user (.getNegotiation i) o)
    (hn : s.negotiation i = some n) (hdecided : n.status ≠ .active) :
    o = ReadOp.answer s user (.getNegotiation i) := by
  show o = (s.negotiationFor user i).map _
  rcases h with ⟨e, he, rfl⟩ | ⟨n', s', hn', _, hgoes, rfl⟩
  · rw [he]
    rfl
  · obtain rfl : n' = n := Option.some.inj ((Db.negotiationFor_iff.mp hn').1.symm.trans hn)
    rw [hn', detail_frozen hgoes hdecided]
    rfl

/-- **Reads are coherent.**  From any reachable state, among any events of any number of
posts and reads: a read that ends, and not with its connection, has been answered as on
one committed state `u` between its start and its end, which are any `v` in which it has
not begun and any `w` in which it has ended; but for the proposals of a negotiation, which
may be those of a later state.  They go on from those of `u`; they are the same, and the
answer is the one on `u`, for a negotiation that is decided there; and an agreed amount is
always shown as the last price. -/
theorem read_coherent {db : Db} (h : Reachable db) (visits : Nat → Visit) (envs : Nat → Env)
    {v w : Traffic} (hstarted : TrafficRun (db.visited visits envs) v) (hrun : TrafficRun v w)
    {i : Nat} {request : ReadRequest} (hi : visits i = .read request)
    (hbegin : v.txs i = (db.visited visits envs).txs i) {o : Except Error Reply}
    (hdone : w.txs i = .done o) (hfault : o ≠ .error .server) :
    ∃ u o', TrafficRun v u ∧ TrafficRun u w ∧ o = o'.map Reply.body
      ∧ ((db.user request.caller = none ∧ o' = .error (.http 401 "Could not validate credentials"))
        ∨ ∃ user, db.user request.caller = some user
          ∧ AnsweredAt u.committed (Passed u w) user request.op o')
      ∧ (∀ j n, request.op = .getNegotiation j → u.committed.negotiation j = some n →
          n.status ≠ .active → o' = request.answer u.committed)
      ∧ ∀ d, o' = .ok (.detail d) → d.Agrees := by
  have hgrowing : Growing (db.visited visits envs) :=
    fun m m' hm hm' => traffic_grown h hm hm'
  have hread : (visits i).isPost = false := by
    rw [hi]
    rfl
  rcases World.samples_of_run hbegin hrun (Visit.reader hread) hdone with hlost | hsampled
  · exact absurd hlost hfault
  change Sampled (envs i) v (visits i).program w o at hsampled
  rw [hi] at hsampled
  obtain ⟨o', rfl, hbody⟩ := World.Sampled.of_map hsampled
  obtain ⟨m, user, hm, huser, rest⟩ := Sampled.select hbody
  obtain rfl := Except.ok.inj huser
  -- nobody is registered meanwhile
  have hsame : ∀ l, TrafficRun v l →
      l.committed.user request.caller = db.user request.caller := by
    intro l hl
    unfold Db.user
    rw [(hgrowing _ l .refl (hstarted.trans hl)).2.users]
    rfl
  cases hu : db.user request.caller with
  | none =>
      rw [hsame m hm, hu] at rest
      obtain rfl : o' = .error (.http 401 "Could not validate credentials") := by
        cases rest with
        | raise _ => rfl
      refine ⟨m, _, hm, rest.run, rfl, Or.inl ⟨rfl, rfl⟩, ?_, fun d hd => absurd hd (by simp)⟩
      intro j n _ _ _
      unfold ReadRequest.answer
      rw [hsame m hm, hu]
  | some user =>
      rw [hsame m hm, hu] at rest
      change Sampled (envs i) m (request.op.produce user) w o' at rest
      obtain ⟨u, hmu, huw, hanswered⟩ := read_sampled (hgrowing.later (hstarted.trans hm)) rest
      have hstart : TrafficRun v u := hm.trans hmu
      have hcons : Consistent u.committed := (hgrowing u u (hstarted.trans hstart) .refl).1
      refine ⟨u, o', hstart, huw, rfl, Or.inr ⟨user, rfl, hanswered⟩, ?_, ?_⟩
      · rintro j n hop hn hdecided
        unfold ReadRequest.answer
        rw [hsame u hstart, hu]
        rw [hop] at hanswered ⊢
        exact hanswered.decided hn hdecided
      · rintro d rfl
        exact hanswered.agrees hcons

/-- The answer is the one of a state behind the first counter, with the chain of a later one. -/
theorem read_coherent_bargained : ∃ v w d u, ∃ o' : Except Error ReadBody,
    v.log.map Prod.fst = [1] ∧ TrafficRun v u ∧ TrafficRun u w ∧ w.log.map Prod.fst = [1, 2]
      ∧ detailOf w 0 = some d ∧ d.proposals.map ProposalOut.amount = [100, 80, 90]
      ∧ o' = .ok (.detail d) ∧ d.Agrees := by
  obtain ⟨v, w, d, hv, hw, hlog, hlog', hd, hamounts⟩ := bargained_runs
  have hrun := World.Run.of_runs engine rowLocks hv
  have hbegin : v.txs 0 = (market.visited bargained bargainedEnvs).txs 0 :=
    World.Run.invariant (P := fun w => w.txs 0 = _) engine rowLocks
      (fun _ _ _ hsame hok hm => (hm.others (Ne.symm hok)).trans hsame) hrun rfl
  have hstarted : TrafficRun (market.visited bargained bargainedEnvs) v :=
    hrun.any engine rowLocks
  obtain ⟨u, o', hu, huw, ho', _, _, hagrees⟩ := read_coherent market_reachable bargained
    bargainedEnvs hstarted (World.Run.of_runs engine rowLocks hw) (i := 0) rfl hbegin
    (done_of_detailOf hd) (by simp)
  have hdetail : o' = .ok (.detail d) := by
    cases o' with
    | error e => exact absurd ho' (by simp [Except.map])
    | ok body => simpa [Except.map] using ho'.symm
  exact ⟨v, w, d, u, o', hlog, hu, huw, hlog', hd, hamounts, hdetail, hagrees d hdetail⟩

end Procurement
