/-
  Procurement.Framework.Paging
  ────────────────────────────
  **OFFSET PAGING OVER ROWS THAT CHANGE.**

  A listing orders its rows by a unique key, greatest first, and is read in
  pages.  A walk asks for the offsets 0, L, 2L, … until a page is shorter than
  L; between two fetches the rows may change.

  Everything follows a row's rank, the number of rows above it: a row is on a
  page exactly when its rank is (`mem_pageOf_iff`).  So a walk loses a row only
  where the rank falls from behind the rows asked for so far to among them
  (`Walk.Reads.returned`), and rows that never leave the listing are not lost
  (`Walk.Reads.covers`).
-/
import Mathlib.Data.List.Sort
import Mathlib.Data.List.Nodup
import Mathlib.Logic.Relation
import Mathlib.Order.Lattice
import Mathlib.Tactic.Linarith

namespace Procurement.Framework

variable {ρ κ σ : Type} [LinearOrder κ] {key : ρ → κ}

/-! ## §1. Ranks. -/

/-- The number of rows with a key greater than `i`. -/
def rank (key : ρ → κ) (rows : List ρ) (i : κ) : Nat := rows.countP fun r => i < key r

/-- Greatest key first, `limit` rows from `offset` on. -/
def pageOf (key : ρ → κ) (limit offset : Nat) (rows : List ρ) : List ρ :=
  ((rows.insertionSort fun a b => key b ≤ key a).drop offset).take limit

/-- In a decreasing list, the rank of a row is its position. -/
theorem rank_getElem {rows : List ρ} (h : rows.Pairwise fun a b => key b < key a) {n : Nat}
    (hn : n < rows.length) : rank key rows (key rows[n]) = n := by
  unfold rank
  induction rows generalizing n with
  | nil => exact absurd hn (Nat.not_lt_zero n)
  | cons r rows ih =>
      rw [List.pairwise_cons] at h
      cases n with
      | zero =>
          rw [List.countP_eq_zero]
          intro q hq
          rcases List.mem_cons.mp hq with rfl | hq
          · simp
          · simpa using le_of_lt (h.1 q hq)
      | succ n =>
          have hn' : n < rows.length := Nat.lt_of_succ_lt_succ hn
          have habove : key rows[n] < key r := h.1 _ (List.getElem_mem hn')
          rw [List.getElem_cons_succ, List.countP_cons_of_pos (by simpa using habove), ih h.2 hn']

/-- The listing, decreasing. -/
theorem pairwise_listing {rows : List ρ} (hkeys : (rows.map key).Nodup) :
    (rows.insertionSort fun a b => key b ≤ key a).Pairwise fun a b => key b < key a := by
  have hperm := List.perm_insertionSort (fun a b => key b ≤ key a) rows
  have hnodup : ((rows.insertionSort fun a b => key b ≤ key a).map key).Nodup :=
    (hperm.map key).nodup_iff.mpr hkeys
  have hsorted := List.pairwise_insertionSort (fun a b => key b ≤ key a) rows
  rw [List.Nodup, List.pairwise_map] at hnodup
  exact (hsorted.and hnodup).imp fun hab => lt_of_le_of_ne hab.1 (Ne.symm hab.2)

/-- **A row is on the page its rank is on.** -/
theorem mem_pageOf_iff {rows : List ρ} (hkeys : (rows.map key).Nodup) {row : ρ} (hrow : row ∈ rows)
    (limit offset : Nat) :
    row ∈ pageOf key limit offset rows
      ↔ offset ≤ rank key rows (key row) ∧ rank key rows (key row) < offset + limit := by
  have hperm := List.perm_insertionSort (fun a b => key b ≤ key a) rows
  have hrank : ∀ i, rank key rows i = rank key (rows.insertionSort fun a b => key b ≤ key a) i :=
    fun i => (hperm.countP_eq _).symm
  unfold pageOf
  rw [hrank]
  have hdecreasing := pairwise_listing hkeys
  have hmem := hperm.mem_iff.mpr hrow
  generalize rows.insertionSort (fun a b => key b ≤ key a) = l at hdecreasing hmem
  rw [List.mem_take_iff_getElem]
  constructor
  · rintro ⟨n, hn, rfl⟩
    rw [List.length_drop] at hn
    rw [List.getElem_drop, rank_getElem hdecreasing]
    omega
  · obtain ⟨n, hn, rfl⟩ := List.mem_iff_getElem.mp hmem
    rw [rank_getElem hdecreasing]
    intro hpage
    have hlen : n - offset < min limit (l.drop offset).length := by
      rw [List.length_drop]
      omega
    refine ⟨n - offset, hlen, ?_⟩
    rw [List.getElem_drop]
    congr 1
    omega

/-- A page that is not full is the end of the listing. -/
theorem rank_lt_of_short {rows : List ρ} {row : ρ} (hrow : row ∈ rows) {limit offset : Nat}
    (hshort : (pageOf key limit offset rows).length < limit) :
    rank key rows (key row) < offset + limit := by
  have hbelow : rank key rows (key row) < rows.length := by
    unfold rank
    rw [List.length_eq_countP_add_countP fun r => decide (key row < key r)]
    have hself : 0 < rows.countP fun r => ¬ decide (key row < key r) := by
      rw [List.countP_pos_iff]
      exact ⟨row, hrow, by simp⟩
    omega
  unfold pageOf at hshort
  rw [List.length_take, List.length_drop, List.length_insertionSort] at hshort
  omega

/-- Where no row leaves, no row gets a smaller rank. -/
theorem rank_mono {rows later : List ρ} (hkeys : (rows.map key).Nodup)
    (hkept : rows.map key ⊆ later.map key) (i : κ) : rank key rows i ≤ rank key later i := by
  have hsub := (List.subperm_of_subset hkeys hkept).countP_le fun k => decide (i < k)
  rw [List.countP_map, List.countP_map] at hsub
  exact hsub

/-! ## §2. Walks. -/

/-- A walk through a listing that `fetch` reads, while the state moves. -/
structure Walk (moves : σ → σ → Prop) (fetch : Nat → σ → List ρ → Prop) (limit : Nat) where
  /-- the state at each fetch -/
  state : Nat → σ
  page : Nat → List ρ
  last : Nat
  fetched : ∀ j, j ≤ last → fetch (j * limit) (state j) (page j)
  between : ∀ j, j < last → Relation.ReflTransGen moves (state j) (state (j + 1))
  full : ∀ j, j < last → (page j).length = limit
  short : (page last).length < limit

namespace Walk

variable {moves : σ → σ → Prop} {fetch : Nat → σ → List ρ → Prop} {limit : Nat}

/-- Page `j` of the walk has a row with the key. -/
def Returns (w : Walk moves fetch limit) (key : ρ → κ) (i : κ) (j : Nat) : Prop :=
  j ≤ w.last ∧ ∃ row ∈ w.page j, key row = i

/-- Every row of the first state is on some page, and on one page only if the walk
ends with no other keys than it started with. -/
def Covers (w : Walk moves fetch limit) (key : ρ → κ) (rows : σ → List ρ) : Prop :=
  ∀ row ∈ rows (w.state 0),
    (∃ j, w.Returns key (key row) j)
    ∧ ((rows (w.state w.last)).map key ⊆ (rows (w.state 0)).map key →
        ∃! j, w.Returns key (key row) j)

/-- The walk that fetches `rows` in the given states. -/
def along {rows : σ → List ρ} (hfetch : ∀ offset s, fetch offset s (pageOf key limit offset (rows s)))
    (state : Nat → σ) (last : Nat)
    (between : ∀ j, j < last → Relation.ReflTransGen moves (state j) (state (j + 1)))
    (full : ∀ j, j < last → (pageOf key limit (j * limit) (rows (state j))).length = limit)
    (short : (pageOf key limit (last * limit) (rows (state last))).length < limit) :
    Walk moves fetch limit where
  state := state
  page j := pageOf key limit (j * limit) (rows (state j))
  last := last
  fetched _ _ := hfetch _ _
  between := between
  full := full
  short := short

theorem along_state {rows : σ → List ρ}
    (hfetch : ∀ offset s, fetch offset s (pageOf key limit offset (rows s))) (state : Nat → σ)
    (last : Nat) (between : ∀ j, j < last → Relation.ReflTransGen moves (state j) (state (j + 1)))
    (full : ∀ j, j < last → (pageOf key limit (j * limit) (rows (state j))).length = limit)
    (short : (pageOf key limit (last * limit) (rows (state last))).length < limit) :
    (along hfetch state last between full short).state = state := rfl

/-- From one fetch to a later one. -/
theorem run (w : Walk moves fetch limit) {j k : Nat} (hjk : j ≤ k) (hk : k ≤ w.last) :
    Relation.ReflTransGen moves (w.state j) (w.state k) := by
  induction hjk with
  | refl => exact .refl
  | step _ ih => exact (ih (Nat.le_of_succ_le hk)).trans (w.between _ hk)

/-- The walk reads the listing of `rows`. -/
structure Reads (w : Walk moves fetch limit) (key : ρ → κ) (rows : σ → List ρ) : Prop where
  page : ∀ j, j ≤ w.last → w.page j = pageOf key limit (j * limit) (rows (w.state j))
  keys : ∀ j, j ≤ w.last → ((rows (w.state j)).map key).Nodup

namespace Reads

variable {w : Walk moves fetch limit} {rows : σ → List ρ}

/-- Page `j` has the row exactly when its rank is on it. -/
theorem returns_iff (h : w.Reads key rows) {i : κ} {j : Nat} (hj : j ≤ w.last)
    (hi : i ∈ (rows (w.state j)).map key) :
    w.Returns key i j ↔ j * limit ≤ rank key (rows (w.state j)) i
      ∧ rank key (rows (w.state j)) i < j * limit + limit := by
  obtain ⟨row, hrow, rfl⟩ := List.mem_map.mp hi
  rw [← mem_pageOf_iff (h.keys j hj) hrow, ← h.page j hj]
  constructor
  · rintro ⟨_, q, hq, hkey⟩
    have hq' : q ∈ rows (w.state j) := by
      rw [h.page j hj] at hq
      have hsorted := List.mem_of_mem_drop (List.mem_of_mem_take hq)
      exact (List.perm_insertionSort _ _).mem_iff.mp hsorted
    rwa [List.inj_on_of_nodup_map (h.keys j hj) hq' hrow hkey] at hq
  · exact fun hpage => ⟨hj, row, hpage, rfl⟩

/-- **A row that stays in the listing is returned**, if its rank never falls from
behind the rows asked for to among them. -/
theorem returned (h : w.Reads key rows) {i : κ}
    (hi : ∀ j, j ≤ w.last → i ∈ (rows (w.state j)).map key)
    (hstays : ∀ j, j < w.last → (j + 1) * limit ≤ rank key (rows (w.state j)) i →
      (j + 1) * limit ≤ rank key (rows (w.state (j + 1))) i) : ∃ j, w.Returns key i j := by
  by_contra hnever
  -- not returned so far, the row is behind everything asked for
  have hnext : ∀ j, j ≤ w.last → j * limit ≤ rank key (rows (w.state j)) i →
      (j + 1) * limit ≤ rank key (rows (w.state j)) i := by
    intro j hj hfrom
    by_contra hon
    rw [Nat.succ_mul] at hon
    exact hnever ⟨j, (h.returns_iff hj (hi j hj)).mpr ⟨hfrom, by omega⟩⟩
  have hbehind : ∀ j, j ≤ w.last → (j + 1) * limit ≤ rank key (rows (w.state j)) i := by
    intro j hj
    induction j with
    | zero => exact hnext 0 hj (by omega)
    | succ j ih => exact hnext (j + 1) hj (hstays j hj (ih (Nat.le_of_succ_le hj)))
  -- but the last page is the end of the listing
  obtain ⟨row, hrow, hkey⟩ := List.mem_map.mp (hi w.last le_rfl)
  have hshort := w.short
  rw [h.page w.last le_rfl] at hshort
  have hend := rank_lt_of_short hrow hshort
  have hlast := hbehind w.last le_rfl
  rw [hkey] at hend
  rw [Nat.succ_mul] at hlast
  omega

/-- A row whose rank does not change is on one page. -/
theorem returned_once (h : w.Reads key rows) {i : κ}
    (hi : ∀ j, j ≤ w.last → i ∈ (rows (w.state j)).map key)
    (hsame : ∀ j, j ≤ w.last → rank key (rows (w.state j)) i = rank key (rows (w.state 0)) i)
    {j k : Nat} (hj : w.Returns key i j) (hk : w.Returns key i k) : j = k := by
  have hon := (h.returns_iff hj.1 (hi j hj.1)).mp hj
  have hon' := (h.returns_iff hk.1 (hi k hk.1)).mp hk
  rw [hsame j hj.1] at hon
  rw [hsame k hk.1] at hon'
  have hjk : j < k + 1 := by
    refine Nat.lt_of_mul_lt_mul_right (a := limit) ?_
    rw [Nat.succ_mul]
    omega
  have hkj : k < j + 1 := by
    refine Nat.lt_of_mul_lt_mul_right (a := limit) ?_
    rw [Nat.succ_mul]
    omega
  omega

omit [LinearOrder κ] in
/-- What no move takes out, no run does.  `I` is an invariant of the moves. -/
theorem keys_subset_of_run {I : σ → Prop}
    (hkept : ∀ s s', I s → moves s s' → I s' ∧ (rows s).map key ⊆ (rows s').map key) {s s' : σ}
    (hs : I s) (hrun : Relation.ReflTransGen moves s s') :
    I s' ∧ (rows s).map key ⊆ (rows s').map key := by
  induction hrun with
  | refl => exact ⟨hs, List.Subset.refl _⟩
  | tail _ hmove ih =>
      have hstep := hkept _ _ ih.1 hmove
      exact ⟨hstep.1, List.Subset.trans ih.2 hstep.2⟩

/-- **When no move takes a key out of the listing, a walk covers it.** -/
theorem covers (h : w.Reads key rows) {I : σ → Prop} (h0 : I (w.state 0))
    (hkept : ∀ s s', I s → moves s s' → I s' ∧ (rows s).map key ⊆ (rows s').map key) :
    w.Covers key rows := by
  have hgrow : ∀ {j k}, j ≤ k → k ≤ w.last →
      (rows (w.state j)).map key ⊆ (rows (w.state k)).map key := by
    intro j k hjk hk
    have hI := (keys_subset_of_run hkept h0 (w.run (Nat.zero_le j) (hjk.trans hk))).1
    exact (keys_subset_of_run hkept hI (w.run hjk hk)).2
  intro row hrow
  have hi : ∀ j, j ≤ w.last → key row ∈ (rows (w.state j)).map key :=
    fun j hj => hgrow (Nat.zero_le j) hj (List.mem_map_of_mem hrow)
  have hup : ∀ {j k}, j ≤ k → k ≤ w.last →
      rank key (rows (w.state j)) (key row) ≤ rank key (rows (w.state k)) (key row) :=
    fun hjk hk => rank_mono (h.keys _ (hjk.trans hk)) (hgrow hjk hk) _
  obtain ⟨j, hj⟩ := h.returned hi fun j hj hbehind => hbehind.trans (hup (Nat.le_succ j) hj)
  refine ⟨⟨j, hj⟩, fun hnonew => ⟨j, hj, fun k hk => h.returned_once hi ?_ hk hj⟩⟩
  -- nothing leaves and nothing comes
  intro j hj
  have hdown : rank key (rows (w.state w.last)) (key row) ≤ rank key (rows (w.state 0)) (key row) :=
    rank_mono (h.keys _ le_rfl) hnonew _
  have hfrom := hup (Nat.zero_le j) hj
  have hto := hup hj le_rfl
  omega

end Reads

end Walk

end Procurement.Framework
