/-
  Procurement.Framework.Window
  ────────────────────────────
  **SLIDING WINDOWS: A BUDGET OF HITS PER KEY.**

  The reference keeps every hit it has ever admitted and counts:

      h is admitted  ⟺  fewer than `limit` admitted hits of its key
                        have an age of at most `window` when h arrives

  An implementation does not keep the whole history.  It keeps a queue of
  times per key and drops expired ones from the front; `Pruned` says when such
  a queue still answers like the history (`Pruned.live`), which needs times
  that do not decrease.

  A hit is anything with a key and a time.  One history can so be counted under
  two keys; `withinBudget_iff` says when counting under a finer key than the
  budget is meant for still keeps the budget.

  When the times do decrease, a queue still bounds the times around a new one,
  as long as those it has dropped are far from it (`inInterval_length_le`).

  What bounds every window bounds several of them (`inInterval_windows_le`).
-/
import Mathlib.Algebra.Order.Group.Defs
import Mathlib.Data.List.Induction
import Mathlib.Data.List.TakeWhile

namespace Procurement.Framework

variable {α κ τ : Type} [DecidableEq κ]
variable [AddCommGroup τ] [LinearOrder τ]

/-! ## §1. The reference. -/

section
variable (key : α → κ) (time : α → τ) (limit : ℤ) (window : τ)

/-- The admitted hits that still count when `h` arrives. -/
def counting (past : List α) (h : α) : List α :=
  past.filter fun g => key g = key h ∧ time h - time g ≤ window

/-- One hit arrives at the reference, which has admitted `past`. -/
def arrive (past : List α) (h : α) : List α :=
  if ((counting key time window past h).length : ℤ) < limit then past ++ [h] else past

/-- **What the reference admits**, hit after hit. -/
def admitted (hs : List α) : List α := hs.foldl (arrive key time limit window) []

end

variable {key : α → κ} {time : α → τ} {limit : ℤ} {window : τ}

theorem admitted_concat (hs : List α) (h : α) :
    admitted key time limit window (hs ++ [h])
      = arrive key time limit window (admitted key time limit window hs) h := by
  unfold admitted
  rw [List.foldl_append]
  rfl

theorem arrive_of_le {past : List α} {h : α}
    (hle : limit ≤ (counting key time window past h).length) :
    arrive key time limit window past h = past := if_neg (not_lt.mpr hle)

/-- The admitted hits are among those that arrived, in their order. -/
theorem admitted_sublist (hs : List α) : (admitted key time limit window hs).Sublist hs := by
  induction hs using List.reverseRecOn with
  | nil => exact List.Sublist.refl _
  | append_singleton hs h ih =>
      rw [admitted_concat]
      unfold arrive
      split
      · exact ih.append (List.Sublist.refl _)
      · exact ih.trans (List.sublist_append_left _ _)

/-- A hit that is refused leaves no trace. -/
theorem admitted_refused {past rest : List α} {h : α}
    (hle : limit ≤ (counting key time window (admitted key time limit window past) h).length) :
    admitted key time limit window (past ++ h :: rest)
      = admitted key time limit window (past ++ rest) := by
  have hsame : arrive key time limit window (admitted key time limit window past) h
      = admitted key time limit window past := arrive_of_le hle
  unfold admitted at hsame ⊢
  rw [List.foldl_append, List.foldl_append, List.foldl_cons, hsame]

/-- Only hits of the same key are counted. -/
theorem counting_filter (past : List α) (h : α) :
    counting key time window (past.filter fun g => key g = key h) h
      = counting key time window past h := by
  unfold counting
  rw [List.filter_filter]
  refine List.filter_congr fun g _ => ?_
  simp only [Bool.decide_and]
  cases decide (key g = key h) <;> simp

/-- **Other keys do not matter**: what is admitted of a key is what would be
admitted of it alone. -/
theorem admitted_filter (k : κ) (hs : List α) :
    (admitted key time limit window hs).filter (fun g => key g = k)
      = admitted key time limit window (hs.filter fun g => key g = k) := by
  induction hs using List.reverseRecOn with
  | nil => rfl
  | append_singleton hs h ih =>
      rw [admitted_concat, List.filter_append]
      by_cases hk : key h = k
      · -- a hit of this key is counted among its own
        have hone : [h].filter (fun g => key g = k) = [h] := by simp [hk]
        have hcount : counting key time window (admitted key time limit window
            (hs.filter fun g => key g = k)) h
              = counting key time window (admitted key time limit window hs) h := by
          rw [← ih, ← hk]
          exact counting_filter _ h
        rw [hone, admitted_concat]
        unfold arrive
        rw [hcount]
        by_cases hlt : ((counting key time window (admitted key time limit window hs) h).length : ℤ)
            < limit
        · rw [if_pos hlt, if_pos hlt, List.filter_append, hone, ih]
        · rw [if_neg hlt, if_neg hlt, ih]
      · -- a hit of another key does not show
        have hnone : [h].filter (fun g => key g = k) = [] := by simp [hk]
        rw [hnone, List.append_nil, ← ih]
        unfold arrive
        split
        · rw [List.filter_append, hnone, List.append_nil]
        · rfl

/-! ## §2. The budget. -/

/-- The hits of an interval that starts at `a` and is `window` long, both ends
included. -/
def inInterval (time : α → τ) (window a : τ) (hs : List α) : List α :=
  hs.filter fun g => a ≤ time g ∧ time g ≤ a + window

theorem inInterval_append (a : τ) (hs gs : List α) :
    inInterval time window a (hs ++ gs)
      = inInterval time window a hs ++ inInterval time window a gs := List.filter_append ..

/-- When `h` is in the interval, the hits before it in that interval still
count. -/
theorem inInterval_sublist [IsOrderedAddMonoid τ] {a : τ} {past : List α} {h : α} (hkey : ∀ g ∈ past, key g = key h)
    (hle : time h ≤ a + window) :
    (inInterval time window a past).Sublist (counting key time window past h) := by
  unfold inInterval counting
  have hsub : (past.filter fun g => a ≤ time g ∧ time g ≤ a + window)
      = (past.filter fun g => key g = key h ∧ time h - time g ≤ window).filter
          fun g => a ≤ time g ∧ time g ≤ a + window := by
    rw [List.filter_filter]
    refine List.filter_congr fun g hg => ?_
    -- age of `g` when `h` arrives: at most the length of the interval
    have hage : a ≤ time g → time h - time g ≤ window := by
      intro ha
      have hup : time h ≤ time g + window := le_trans hle (add_le_add_left ha window)
      exact sub_le_iff_le_add'.mpr hup
    by_cases ha : a ≤ time g
    · simp [ha, hkey g hg, hage ha]
    · simp [ha]
  rw [hsub]
  exact List.filter_sublist

/-- **At most `limit` admitted hits of a key in any interval.** -/
theorem admitted_inInterval [IsOrderedAddMonoid τ] (hl : 0 ≤ limit) (k : κ) (a : τ) (hs : List α) :
    ((inInterval time window a
      ((admitted key time limit window hs).filter fun g => key g = k)).length : ℤ) ≤ limit := by
  rw [admitted_filter]
  have hkeys : ∀ g ∈ hs.filter (fun g => key g = k), key g = k := by
    intro g hg
    simpa using (List.mem_filter.mp hg).2
  generalize hs.filter (fun g => key g = k) = ks at hkeys
  induction ks using List.reverseRecOn with
  | nil => exact hl
  | append_singleton ks h ih =>
      have hpast : ∀ g ∈ ks, key g = k := fun g hg => hkeys g (List.mem_append_left _ hg)
      have hh : key h = k := hkeys h (by simp)
      have hcount := ih hpast
      -- only an admitted hit within the interval adds to the count
      rw [admitted_concat]
      unfold arrive
      split
      next hlt =>
        rw [inInterval_append, List.length_append]
        by_cases hin : a ≤ time h ∧ time h ≤ a + window
        · -- those of the interval all still counted when `h` was admitted
          have hadm : ∀ g ∈ admitted key time limit window ks, key g = key h := by
            intro g hg
            rw [hpast g ((admitted_sublist ks).subset hg), hh]
          have hsub := (inInterval_sublist (a := a) hadm hin.2).length_le
          have hone : (inInterval time window a [h]).length = 1 := by simp [inInterval, hin]
          omega
        · have hzero : (inInterval time window a [h]).length = 0 := by simp [inInterval, hin]
          omega
      next => exact hcount

/-! ## §3. Pruned queues. -/

/-- The queue at time `now`, without the expired times at its front. -/
def prune (window now : τ) (q : List τ) : List τ := q.dropWhile fun t => window < now - t

/-- The times that still count at `now`. -/
def live (window now : τ) (ts : List τ) : List τ := ts.filter fun t => now - t ≤ window

/-- With increasing times, nothing expired is left behind the front. -/
theorem prune_eq_live [IsOrderedAddMonoid τ] {now : τ} {q : List τ} (hq : q.Pairwise (· ≤ ·)) :
    prune window now q = live window now q := by
  induction q with
  | nil => rfl
  | cons t q ih =>
      rw [List.pairwise_cons] at hq
      unfold prune live at ih ⊢
      by_cases ht : window < now - t
      · have hold : ¬ now - t ≤ window := not_le.mpr ht
        simp only [List.dropWhile_cons, ht, decide_true, if_true, List.filter_cons, hold,
          decide_false]
        exact ih hq.2
      · -- the front still counts, and everything behind it is younger
        have hall : ∀ u ∈ t :: q, now - u ≤ window := by
          intro u hu
          have htu : t ≤ u := by
            rcases List.mem_cons.mp hu with rfl | hu
            · exact le_refl _
            · exact hq.1 u hu
          exact le_trans (sub_le_sub_left htu now) (not_lt.mp ht)
        have hkeep : (t :: q).filter (fun u => now - u ≤ window) = t :: q := by
          rw [List.filter_eq_self]
          intro u hu
          simpa using hall u hu
        rw [hkeep]
        simp [ht]

/-- `q` is what is left of the times `full` when, up to `now`, only expired
times have been dropped from the front. -/
def Pruned (window now : τ) (full q : List τ) : Prop :=
  ∃ old, full = old ++ q ∧ ∀ t ∈ old, window < now - t

namespace Pruned

variable {now later t : τ} {full q : List τ}

theorem refl (window now : τ) (q : List τ) : Pruned window now q q :=
  ⟨[], rfl, by simp⟩

/-- Time passes. -/
theorem mono [IsOrderedAddMonoid τ] (h : Pruned window now full q) (hle : now ≤ later) :
    Pruned window later full q := by
  obtain ⟨old, hfull, hold⟩ := h
  refine ⟨old, hfull, ?_⟩
  intro t ht
  exact lt_of_lt_of_le (hold t ht) (sub_le_sub_right hle t)

/-- Expired times are dropped from the front. -/
theorem prune (h : Pruned window now full q) :
    Pruned window now full (Framework.prune window now q) := by
  obtain ⟨old, hfull, hold⟩ := h
  refine ⟨old ++ q.takeWhile fun t => window < now - t, ?_, ?_⟩
  · unfold Framework.prune
    rw [hfull, List.append_assoc, List.takeWhile_append_dropWhile]
  · intro t ht
    rcases List.mem_append.mp ht with ht | ht
    · exact hold t ht
    · simpa using List.mem_takeWhile_imp ht

/-- A time is added at the back. -/
theorem push (h : Pruned window now full q) (t : τ) : Pruned window now (full ++ [t]) (q ++ [t]) := by
  obtain ⟨old, hfull, hold⟩ := h
  refine ⟨old, ?_, hold⟩
  rw [hfull, List.append_assoc]

/-- **The pruned queue answers like the full one.** -/
theorem live [IsOrderedAddMonoid τ] (h : Pruned window now full q)
    (hfull : full.Pairwise (· ≤ ·)) :
    Framework.prune window now q = Framework.live window now full := by
  obtain ⟨old, rfl, hold⟩ := h
  rw [List.pairwise_append] at hfull
  rw [prune_eq_live hfull.2.1]
  unfold Framework.live
  have hnone : old.filter (fun t => now - t ≤ window) = [] := by
    rw [List.filter_eq_nil_iff]
    intro t ht
    rw [decide_eq_true_eq, not_le]
    exact hold t ht
  rw [List.filter_append, hnone, List.nil_append]

end Pruned

/-! ## §4. Counting under a finer key. -/

section
variable {κ' : Type} [DecidableEq κ'] {fine : α → κ'} {p : κ}

variable {hs : List α}

/-- Hits of one key, in the order of their times. -/
structure Arrivals (key : α → κ) (time : α → τ) (p : κ) (hs : List α) : Prop where
  inOrder : (hs.map time).Pairwise (· ≤ ·)
  oneKey : ∀ g ∈ hs, key g = p

omit [DecidableEq κ] [AddCommGroup τ] in
theorem Arrivals.before {h : α} (ha : Arrivals key time p (hs ++ [h])) :
    Arrivals key time p hs ∧ ∀ g ∈ hs, key g = key h ∧ time g ≤ time h := by
  have horder := ha.inOrder
  rw [List.map_append, List.pairwise_append] at horder
  have hh : key h = p := ha.oneKey h (by simp)
  have hpast : ∀ g ∈ hs, key g = p := fun g hg => ha.oneKey g (List.mem_append_left _ hg)
  refine ⟨⟨horder.1, hpast⟩, ?_⟩
  intro g hg
  refine ⟨(hpast g hg).trans hh.symm, ?_⟩
  exact horder.2.2 _ (List.mem_map_of_mem hg) _ (by simp)

end

/-! ## §5. Readings out of order. -/

/-- When the times that are no longer in the queue are all further than the window
from `now`, no interval around `now` has more times than the pruned queue. -/
theorem inInterval_length_le [IsOrderedAddMonoid τ] {a now : τ} {old q : List τ}
    (hold : ∀ t ∈ old, window < now - t ∨ window < t - now) (hlow : a ≤ now)
    (hup : now ≤ a + window) :
    (inInterval id window a (old ++ q)).length ≤ (prune window now q).length := by
  have hage : ∀ t, a ≤ t → ¬ window < now - t := fun t ht =>
    not_lt.mpr (sub_le_iff_le_add'.mpr (le_trans hup (add_le_add_left ht window)))
  have hfuture : ∀ t, t ≤ a + window → ¬ window < t - now := fun t ht =>
    not_lt.mpr (sub_le_iff_le_add'.mpr (le_trans ht (add_le_add_left hlow window)))
  -- neither the forgotten times nor those that are pruned now are in the interval
  have hnone : ∀ ts : List τ, (∀ t ∈ ts, window < now - t ∨ window < t - now) →
      inInterval id window a ts = [] := by
    intro ts hts
    unfold inInterval
    rw [List.filter_eq_nil_iff]
    intro t ht hin
    have hboth : a ≤ t ∧ t ≤ a + window := by simpa using hin
    rcases hts t ht with h | h
    · exact hage t hboth.1 h
    · exact hfuture t hboth.2 h
  have hexpired : ∀ t ∈ q.takeWhile (fun t => window < now - t), window < now - t ∨ window < t - now := by
    intro t ht
    exact Or.inl (by simpa using List.mem_takeWhile_imp ht)
  have hsplit : q = q.takeWhile (fun t => window < now - t) ++ prune window now q :=
    List.takeWhile_append_dropWhile.symm
  rw [inInterval_append, hnone old hold, List.nil_append]
  conv_lhs => rw [hsplit]
  rw [inInterval_append, hnone _ hexpired, List.nil_append]
  exact List.length_filter_le _ _

/-! ## §6. Several windows. -/

section
variable {time : α → τ} {limit : ℤ} {window : τ}

theorem filter_length_le {p q r : α → Bool} (h : ∀ x, p x = true → q x = true ∨ r x = true)
    (l : List α) : (l.filter p).length ≤ (l.filter q).length + (l.filter r).length := by
  induction l with
  | nil => simp
  | cons x l ih =>
      by_cases hp : p x = true
      · rcases h x hp with hq | hr
        · simp only [List.filter_cons, hp, hq, if_true]
          split <;> simp only [List.length_cons] <;> omega
        · simp only [List.filter_cons, hp, hr, if_true]
          split <;> simp only [List.length_cons] <;> omega
      · rw [List.filter_cons_of_neg hp, List.filter_cons, List.filter_cons]
        split <;> split <;> grind

/-- A bound for every window bounds an interval of several windows. -/
theorem inInterval_windows_le [IsOrderedAddMonoid τ] {hs : List α}
    (h : ∀ a, ((inInterval time window a hs).length : ℤ) ≤ limit) (n : ℕ) (a : τ) :
    ((inInterval time ((n + 1) • window) a hs).length : ℤ) ≤ (n + 1) * limit := by
  induction n generalizing a with
  | zero => simpa [one_nsmul] using h a
  | succ n ih =>
      have hfirst := h a
      have hrest := ih (a + window)
      -- a hit is in the first window, or in the windows that start behind it
      have hsplit : (inInterval time ((n + 1 + 1) • window) a hs).length
          ≤ (inInterval time window a hs).length
            + (inInterval time ((n + 1) • window) (a + window) hs).length := by
        refine filter_length_le (fun g hg => ?_) hs
        obtain ⟨hlow, hhigh⟩ : a ≤ time g ∧ time g ≤ a + (n + 1 + 1) • window := of_decide_eq_true hg
        rcases le_total (time g) (a + window) with hle | hge
        · exact Or.inl (decide_eq_true ⟨hlow, hle⟩)
        · refine Or.inr (decide_eq_true ⟨hge, ?_⟩)
          rwa [add_assoc, ← succ_nsmul']
      have hsum : ((n + 1 : ℕ) + 1 : ℤ) * limit = limit + ((n : ℤ) + 1) * limit := by
        rw [Int.add_mul, Int.one_mul, Int.add_comm]
        rfl
      rw [hsum]
      omega

end

end Procurement.Framework
