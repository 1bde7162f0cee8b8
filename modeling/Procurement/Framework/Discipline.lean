/-
  Procurement.Framework.Discipline
  ────────────────────────────────
  **WHAT LOCKS AND SEQUENCES ARE GOOD FOR.**

  `Discipline` says how writes, locks and sequences belong together: a guarded
  write is staged by a command that locks its row, a new row gets its id from a
  sequence.  From it follow, in every world that a run reaches, the facts that a
  transaction may rely on (`World.Orderly`): its guarded writes are its own
  until it ends, and its new ids are nobody else's.

  Behind its commit a transaction has only its value to return
  (`World.Replied`).
-/
import Procurement.Framework.Interleaving

namespace Procurement.Framework

variable {Cmd : Type} {Resp : Cmd → Type} {ε Db Write Env Row Seq α : Type}
variable [DecidableEq Row] [DecidableEq Seq]

/-! ## §1. Locks. -/

section
variable {i j : Nat} {row : Row} {owner : Row → Option Nat}

omit [DecidableEq Row] in
theorem release_eq_some : release i owner row = some j ↔ owner row = some j ∧ j ≠ i := by
  unfold release
  by_cases h : owner row = some i
  · rw [if_pos h]
    constructor
    · exact fun h => absurd h (by simp)
    · intro ⟨hj, hne⟩
      exact absurd (Option.some.inj (hj.symm.trans h)) hne
  · rw [if_neg h]
    constructor
    · intro hj
      exact ⟨hj, fun he => h (he ▸ hj)⟩
    · exact fun hj => hj.1

/-- A grant takes nothing away: it is given on rows that nobody else owns. -/
theorem grant_keeps {r : Option Row} (hf : foreign i r owner = false) (h : owner row = some j) :
    grant i r owner row = some j := by
  cases r with
  | none => exact h
  | some r =>
      show Function.update owner r (some i) row = some j
      by_cases hr : row = r
      · subst hr
        have hji : j = i := by
          unfold foreign at hf
          rw [Option.bind_some, h] at hf
          simpa using hf
        rw [Function.update_self, hji]
      · rw [Function.update_of_ne hr]
        exact h

/-- Who owns a row after a grant. -/
theorem grant_eq_some {r : Option Row} (h : grant i r owner row = some j) :
    owner row = some j ∨ r = some row ∧ j = i := by
  cases r with
  | none => exact Or.inl h
  | some r =>
      have hu : Function.update owner r (some i) row = some j := h
      by_cases hr : row = r
      · subst hr
        rw [Function.update_self] at hu
        exact Or.inr ⟨rfl, (Option.some.inj hu).symm⟩
      · rw [Function.update_of_ne hr] at hu
        exact Or.inl hu

theorem grant_self {owner : Row → Option Nat} : grant i (some row) owner row = some i :=
  Function.update_self ..

end

/-! ## §2. Sequences. -/

section
variable {value : Option (Seq × Int)} {last last' : Seq → Int}

theorem le_drawn (h : drawn value last = some last') (s : Seq) : last s ≤ last' s := by
  cases value with
  | none =>
      obtain rfl : last = last' := Option.some.inj h
      exact Int.le_refl _
  | some v =>
      obtain ⟨t, n⟩ := v
      unfold drawn at h
      by_cases hlt : last t < n
      · simp only [hlt, if_true] at h
        obtain rfl := Option.some.inj h
        by_cases hs : s = t
        · subst hs
          rw [Function.update_self]
          omega
        · exact Int.le_of_eq (Function.update_of_ne hs ..).symm
      · simp [hlt] at h

theorem drawn_value {s : Seq} {n : Int} (h : drawn (some (s, n)) last = some last') :
    last s < n ∧ last' s = n := by
  unfold drawn at h
  by_cases hlt : last s < n
  · simp only [hlt, if_true] at h
    obtain rfl := Option.some.inj h
    exact ⟨hlt, Function.update_self ..⟩
  · simp [hlt] at h

end

/-! ## §3. Discipline. -/

/-- How writes, locks and sequences belong together: a guarded write is staged
by a command that locks its row, a stamped write by one that draws its value,
and rows get into the tables by stamped writes. -/
structure Discipline (E : Engine Cmd Resp ε Db Write Env) (L : Locking Cmd Db Env Row Seq)
    (guard : Write → Option Row) (stamp : Write → Option (Seq × Int))
    (ids : Db → Seq → List Int) : Prop where
  guarded : ∀ {c env wr row}, wr ∈ E.writes c env → guard wr = some row →
    ∀ db, L.locks c db = some row
  stamped : ∀ {c env wr v}, wr ∈ E.writes c env → stamp wr = some v → L.draw c env = some v
  inserted : ∀ {wr db s n}, n ∈ ids (E.apply wr db) s → n ∈ ids db s ∨ stamp wr = some (s, n)

variable {E : Engine Cmd Resp ε Db Write Env} {L : Locking Cmd Db Env Row Seq}
variable {guard : Write → Option Row} {stamp : Write → Option (Seq × Int)}
variable {ids : Db → Seq → List Int}

omit [DecidableEq Row] [DecidableEq Seq] in
/-- A row behind staged writes is a committed one or comes from one of them. -/
theorem Discipline.mem_view (D : Discipline E L guard stamp ids) {ws : List Write} {db : Db}
    {s : Seq} {n : Int} (h : n ∈ ids (E.view ws db) s) :
    n ∈ ids db s ∨ ∃ wr ∈ ws, stamp wr = some (s, n) := by
  induction ws generalizing db with
  | nil => exact Or.inl h
  | cons wr ws ih =>
      rw [Engine.view_cons] at h
      rcases ih h with h | ⟨v, hv, hs⟩
      · rcases D.inserted h with h | h
        · exact Or.inl h
        · exact Or.inr ⟨wr, List.mem_cons_self .., h⟩
      · exact Or.inr ⟨v, List.mem_cons_of_mem _ hv, hs⟩

/-- The writes a transaction has staged. -/
def Tx.staged : Tx Cmd Resp ε Write Env α → List Write
  | .running p => p.staged
  | .done _ => []

section
variable {txs : Nat → Tx Cmd Resp ε Write Env α} {t : Tx Cmd Resp ε Write Env α} {i j : Nat}
  {wr : Write}

/-- What is staged when transaction `i` has nothing staged any more. -/
theorem mem_staged_emptied (ht : t.staged = [])
    (h : wr ∈ (Function.update txs i t j).staged) : j ≠ i ∧ wr ∈ (txs j).staged := by
  by_cases hji : j = i
  · subst hji
    rw [Function.update_self, ht] at h
    exact absurd h List.not_mem_nil
  · rw [Function.update_of_ne hji] at h
    exact ⟨hji, h⟩

/-- What is staged when transaction `i` has staged `vs` more. -/
theorem mem_staged_added (vs : List Write) (ht : t.staged = (txs i).staged ++ vs)
    (h : wr ∈ (Function.update txs i t j).staged) : wr ∈ (txs j).staged ∨ j = i ∧ wr ∈ vs := by
  by_cases hji : j = i
  · subst hji
    rw [Function.update_self, ht] at h
    exact (List.mem_append.mp h).imp id fun h => ⟨rfl, h⟩
  · rw [Function.update_of_ne hji] at h
    exact Or.inl h

end

namespace World

/-- What every transaction of a world may rely on. -/
structure Orderly (guard : Write → Option Row) (stamp : Write → Option (Seq × Int))
    (ids : Db → Seq → List Int) (w : World Cmd Resp ε Db Write Env Row Seq α) : Prop where
  guarded : ∀ {i wr row}, wr ∈ (w.txs i).staged → guard wr = some row → w.owner row = some i
  drawn : ∀ {i wr s n}, wr ∈ (w.txs i).staged → stamp wr = some (s, n) → n ≤ w.last s
  committed : ∀ {s n}, n ∈ ids w.committed s → n ≤ w.last s
  unused : ∀ {i wr s n}, wr ∈ (w.txs i).staged → stamp wr = some (s, n) → n ∉ ids w.committed s
  apart : ∀ {i j wr wr' v}, i ≠ j → wr ∈ (w.txs i).staged → wr' ∈ (w.txs j).staged →
    stamp wr = some v → stamp wr' ≠ some v

omit [DecidableEq Row] [DecidableEq Seq] in
theorem Orderly.start {db : Db} {last : Seq → Int} (h : ∀ s, ∀ n ∈ ids db s, n ≤ last s)
    (programs : Nat → Program Cmd Resp ε α) (envs : Nat → Env) :
    (World.start db last programs envs :
      World Cmd Resp ε Db Write Env Row Seq α).Orderly guard stamp ids where
  guarded := fun hwr => absurd hwr (by simp [World.start, Tx.staged])
  drawn := fun hwr => absurd hwr (by simp [World.start, Tx.staged])
  committed := fun hn => h _ _ hn
  unused := fun hwr => absurd hwr (by simp [World.start, Tx.staged])
  apart := fun _ hwr => absurd hwr (by simp [World.start, Tx.staged])

omit [DecidableEq Row] [DecidableEq Seq] in
/-- An event that leaves `i` without staged writes, with or without having
committed them. -/
theorem Orderly.emptied {w w' : World Cmd Resp ε Db Write Env Row Seq α} {i : Nat}
    (h : w.Orderly guard stamp ids) (howner : w'.owner = release i w.owner)
    (hlast : ∀ s, w.last s ≤ w'.last s)
    (hothers : ∀ j, j ≠ i → (w'.txs j).staged = (w.txs j).staged)
    (hself : (w'.txs i).staged = [])
    (hids : ∀ s n, n ∈ ids w'.committed s →
      n ∈ ids w.committed s ∨ ∃ wr ∈ (w.txs i).staged, stamp wr = some (s, n)) :
    w'.Orderly guard stamp ids := by
  -- a staged write of the new world is one of another transaction
  have hold : ∀ {j wr}, wr ∈ (w'.txs j).staged → j ≠ i ∧ wr ∈ (w.txs j).staged := by
    intro j wr hwr
    by_cases hji : j = i
    · rw [hji, hself] at hwr
      exact absurd hwr (by simp)
    · rw [hothers j hji] at hwr
      exact ⟨hji, hwr⟩
  refine ⟨?_, ?_, ?_, ?_, ?_⟩
  · intro j wr row hwr hg
    obtain ⟨hji, hwr⟩ := hold hwr
    rw [howner]
    exact release_eq_some.mpr ⟨h.guarded hwr hg, hji⟩
  · intro j wr s n hwr hs
    exact Int.le_trans (h.drawn (hold hwr).2 hs) (hlast s)
  · intro s n hn
    rcases hids s n hn with hn | ⟨wr, hwr, hs⟩
    · exact Int.le_trans (h.committed hn) (hlast s)
    · exact Int.le_trans (h.drawn hwr hs) (hlast s)
  · intro j wr s n hwr hs hn
    obtain ⟨hji, hwr⟩ := hold hwr
    rcases hids s n hn with hn | ⟨wr', hwr', hs'⟩
    · exact h.unused hwr hs hn
    · exact h.apart hji hwr hwr' hs hs'
  · intro j k wr wr' v hjk hwr hwr'
    exact h.apart hjk (hold hwr).2 (hold hwr').2

/-- A command that is answered. -/
theorem Orderly.answered (D : Discipline E L guard stamp ids)
    {w w' : World Cmd Resp ε Db Write Env Row Seq α} {i : Nat} {c : Cmd} {env : Env}
    (h : w.Orderly guard stamp ids)
    (hf : foreign i (L.locks c (E.view (w.txs i).staged w.committed)) w.owner = false)
    (howner : w'.owner = grant i (L.locks c (E.view (w.txs i).staged w.committed)) w.owner)
    (hlast : Framework.drawn (L.draw c env) w.last = some w'.last)
    (hothers : ∀ j, j ≠ i → (w'.txs j).staged = (w.txs j).staged)
    (hself : (w'.txs i).staged = (w.txs i).staged ++ E.writes c env)
    (hsame : w'.committed = w.committed) : w'.Orderly guard stamp ids := by
  -- a staged write of the new world is an old one, or one of this command
  have hold : ∀ {j wr}, wr ∈ (w'.txs j).staged →
      wr ∈ (w.txs j).staged ∨ j = i ∧ wr ∈ E.writes c env := by
    intro j wr hwr
    by_cases hji : j = i
    · subst hji
      rw [hself] at hwr
      rcases List.mem_append.mp hwr with hwr | hwr
      · exact Or.inl hwr
      · exact Or.inr ⟨rfl, hwr⟩
    · rw [hothers j hji] at hwr
      exact Or.inl hwr
  -- the stamp of a new write is the value this command draws
  have hnew : ∀ {wr s n}, wr ∈ E.writes c env → stamp wr = some (s, n) →
      w.last s < n ∧ w'.last s = n := by
    intro wr s n hwr hs
    rw [D.stamped hwr hs] at hlast
    exact drawn_value hlast
  refine ⟨?_, ?_, ?_, ?_, ?_⟩
  -- the command that stages a guarded write has just been granted its row
  · intro j wr row hwr hg
    rw [howner]
    rcases hold hwr with hwr | ⟨rfl, hwr⟩
    · exact grant_keeps hf (h.guarded hwr hg)
    · rw [D.guarded hwr hg]
      exact grant_self
  · intro j wr s n hwr hs
    rcases hold hwr with hwr | ⟨rfl, hwr⟩
    · exact Int.le_trans (h.drawn hwr hs) (le_drawn hlast s)
    · exact Int.le_of_eq (hnew hwr hs).2.symm
  · intro s n hn
    rw [hsame] at hn
    exact Int.le_trans (h.committed hn) (le_drawn hlast s)
  · intro j wr s n hwr hs hn
    rw [hsame] at hn
    rcases hold hwr with hwr | ⟨rfl, hwr⟩
    · exact h.unused hwr hs hn
    -- the drawn value is above everything committed
    · have hle := h.committed hn
      have hlt := (hnew hwr hs).1
      omega
  · intro j k wr wr' v hjk hwr hwr' hs hs'
    obtain ⟨s, n⟩ := v
    rcases hold hwr with hwr | ⟨rfl, hwr⟩
    · rcases hold hwr' with hwr' | ⟨rfl, hwr'⟩
      · exact h.apart hjk hwr hwr' hs hs'
      -- above everything the others have drawn, from either side
      · have hle := h.drawn hwr hs
        have hlt := (hnew hwr' hs').1
        omega
    · rcases hold hwr' with hwr' | ⟨rfl, hwr'⟩
      · have hle := h.drawn hwr' hs'
        have hlt := (hnew hwr hs).1
        omega
      · exact hjk rfl

/-- **Every event keeps order.** -/
theorem Orderly.move (D : Discipline E L guard stamp ids)
    {w w' : World Cmd Resp ε Db Write Env Row Seq α} {e : Event}
    (h : w.Orderly guard stamp ids) (hm : Move E L w e w') : w'.Orderly guard stamp ids := by
  have hother : ∀ (i : Nat) (t : Tx Cmd Resp ε Write Env α) (j : Nat), j ≠ i →
      (Function.update w.txs i t j).staged = (w.txs j).staged :=
    fun i t j hji => congrArg Tx.staged (Function.update_of_ne hji ..)
  have hself : ∀ (i : Nat) (t : Tx Cmd Resp ε Write Env α),
      (Function.update w.txs i t i).staged = t.staged :=
    fun i t => congrArg Tx.staged (Function.update_self ..)
  have hfinish : ∀ (i : Nat) (o : Except ε α), (w.finish i o).Orderly guard stamp ids :=
    fun i o => h.emptied rfl (fun _ => Int.le_refl _) (hother i _) (hself i _) (fun _ _ hn => Or.inl hn)
  cases hm with
  | aborted i p ht => exact hfinish i _
  | returned i a env ws ht => exact hfinish i _
  | raised i e env ws ht => exact hfinish i _
  | refused i c k env ws last e ht hl ha =>
      exact h.emptied rfl (le_drawn hl) (hother i _) (hself i _) (fun _ _ hn => Or.inl hn)
  | committed i k env ws ht =>
      refine h.emptied rfl (fun _ => Int.le_refl _) (hother i _) (hself i _) ?_
      intro s n hn
      -- a new row in the tables comes from a staged write of `i`
      rw [ht]
      exact D.mem_view hn
  | answered i c k env ws last r ht hf hl ha =>
      have hws : (w.txs i).staged = ws := by rw [ht]; rfl
      refine h.answered D (c := c) (i := i) (by rw [hws]; exact hf) (by rw [hws]) hl (hother i _) ?_ rfl
      rw [hws]
      exact hself i _

/-! ## §4. Commits. -/

/-- The committed state is the start with the logged commits on top. -/
theorem committed_eq {w w' : World Cmd Resp ε Db Write Env Row Seq α} {db : Db} {e : Event}
    (h : w.committed = E.view (w.log.flatMap Prod.snd) db) (hm : Move E L w e w') :
    w'.committed = E.view (w'.log.flatMap Prod.snd) db := by
  cases hm with
  | committed i k env ws ht =>
      show E.view ws w.committed = E.view ((w.log ++ [(i, ws)]).flatMap Prod.snd) db
      rw [List.flatMap_append, Engine.view_append, ← h]
      simp
  | _ => exact h

/-- The transaction stands behind its commit, and ends with the value `a`
unless it is cut off. -/
def Replied (fault : ε) (a : α) : Tx Cmd Resp ε Write Env α → Prop
  | .running p => p.prog = .ret a
  | .done o => o = .ok a ∨ o = .error fault

/-- It stays there. -/
theorem Replied.move {w w' : World Cmd Resp ε Db Write Env Row Seq α} {e : Event} {i : Nat} {a : α}
    (h : Replied E.fault a (w.txs i)) (hm : Move E L w e w') : Replied E.fault a (w'.txs i) := by
  by_cases hi : i = e.tx
  · -- its own events: it returns, or is cut off
    have hself : ∀ o, o = .ok a ∨ o = .error E.fault →
        Replied E.fault a (Function.update w.txs i (.done o) i) := by
      intro o ho
      rw [Function.update_self]
      exact ho
    cases hm with
    | aborted j p ht =>
        obtain rfl : i = j := hi
        exact hself _ (Or.inr rfl)
    | returned j b env ws ht =>
        obtain rfl : i = j := hi
        rw [ht] at h
        obtain rfl : b = a := Program.ret.inj h
        exact hself _ (Or.inl rfl)
    | raised j e env ws ht =>
        obtain rfl : i = j := hi
        rw [ht] at h
        exact absurd h (by simp [Replied])
    | committed j k env ws ht =>
        obtain rfl : i = j := hi
        rw [ht] at h
        exact absurd h (by simp [Replied])
    | refused j c k env ws last e ht hl ha =>
        obtain rfl : i = j := hi
        rw [ht] at h
        exact absurd h (by simp [Replied])
    | answered j c k env ws last r ht hf hl ha =>
        obtain rfl : i = j := hi
        rw [ht] at h
        exact absurd h (by simp [Replied])
  · rw [hm.others hi]
    exact h

end World

/-! ## §5. Cycles. -/

/-- A relation without paths of length three has no cycle. -/
theorem no_cycle {W : Nat → Nat → Prop} (h : ∀ a b c d, W a b → W b c → W c d → False) (i : Nat) :
    ¬ Relation.TransGen W i i := by
  intro hi
  -- the step into `i`, the step out of it, and the one behind that
  obtain ⟨k, _, hk⟩ := Relation.TransGen.tail'_iff.mp hi
  obtain ⟨j, hj, hrest⟩ := Relation.TransGen.head'_iff.mp hi
  rcases Relation.ReflTransGen.cases_head_iff.mp hrest with rfl | ⟨l, hl, _⟩
  · exact h _ _ _ _ hk hj hj
  · exact h _ _ _ _ hk hj hl

end Procurement.Framework
