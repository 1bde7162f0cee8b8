/-
  Procurement.Framework.Table
  ───────────────────────────
  **KEYED TABLES AS LISTS OF ROWS.**

  A table is the list of its rows in insertion order.  `lookup` is the read by
  primary key, `update` the write by primary key; both take the key as a
  function of the row, so one set of laws serves every table.  The last
  section is about tables filtered down to rows with increasing keys, where
  `ORDER BY key` and `ORDER BY key DESC LIMIT 1` have simple answers.
-/
import Mathlib.Data.List.MinMax
import Mathlib.Data.List.Sort
import Mathlib.Data.List.Nodup

namespace Procurement.Framework

variable {ρ κ : Type} [DecidableEq κ]

/-! ## §1. Reading and writing by key. -/

/-- The row with key `i`. -/
def lookup (key : ρ → κ) (t : List ρ) (i : κ) : Option ρ := t.find? fun r => key r = i

/-- Rewrite the row with key `i`. -/
def update (key : ρ → κ) (t : List ρ) (i : κ) (f : ρ → ρ) : List ρ :=
  t.map fun r => if key r = i then f r else r

variable {key : ρ → κ} {t : List ρ} {i j : κ} {r : ρ}

theorem lookup_mem (h : lookup key t i = some r) : r ∈ t := List.mem_of_find?_eq_some h

theorem lookup_key (h : lookup key t i = some r) : key r = i := by
  simpa using List.find?_some h

theorem lookup_eq_none : lookup key t i = none ↔ ∀ r ∈ t, key r ≠ i := by
  simp [lookup]

theorem lookup_isSome : (lookup key t i).isSome ↔ ∃ r ∈ t, key r = i := by
  simp [lookup]

/-- Keys are unique, so a row is what its key reads. -/
theorem lookup_of_mem (hn : (t.map key).Nodup) (hr : r ∈ t) : lookup key t (key r) = some r := by
  obtain ⟨a, ha⟩ : ∃ a, lookup key t (key r) = some a :=
    Option.isSome_iff_exists.mp (lookup_isSome.mpr ⟨r, hr, rfl⟩)
  rw [ha, List.inj_on_of_nodup_map hn (lookup_mem ha) hr (lookup_key ha)]

/-- A row that is found stays found when rows are added behind it. -/
theorem lookup_append_of_some (u : List ρ) (h : lookup key t i = some r) :
    lookup key (t ++ u) i = some r := by
  unfold lookup at h ⊢
  rw [List.find?_append, h]
  rfl

theorem lookup_append_of_none (u : List ρ) (h : lookup key t i = none) :
    lookup key (t ++ u) i = lookup key u i := by
  unfold lookup at h ⊢
  rw [List.find?_append, h]
  rfl

@[simp] theorem lookup_singleton : lookup key [r] i = if key r = i then some r else none := by
  by_cases h : key r = i <;> simp [lookup, h]

/-- Reading behind the insertion of a row with a new key. -/
theorem lookup_concat (h : lookup key t (key r) = none) (i : κ) :
    lookup key (t ++ [r]) i = if i = key r then some r else lookup key t i := by
  by_cases hi : i = key r
  · rw [if_pos hi, hi, lookup_append_of_none _ h, lookup_singleton, if_pos rfl]
  · rw [if_neg hi]
    cases hr : lookup key t i with
    | some q => exact lookup_append_of_some _ hr
    | none => rw [lookup_append_of_none _ hr, lookup_singleton, if_neg (Ne.symm hi)]

/-- Reading after a rewriting that keeps the keys. -/
theorem lookup_map (g : ρ → ρ) (hg : ∀ r, key (g r) = key r) :
    lookup key (t.map g) i = (lookup key t i).map g := by
  unfold lookup
  rw [List.find?_map]
  congr 2
  funext r
  simp [hg]

omit [DecidableEq κ] in
theorem map_key_map (g : ρ → ρ) (hg : ∀ r, key (g r) = key r) :
    (t.map g).map key = t.map key := by
  rw [List.map_map]
  exact List.map_congr_left fun r _ => hg r

/-- The row written by `update` is the one with its key, the others stay. -/
theorem lookup_update (f : ρ → ρ) (hf : ∀ r, key (f r) = key r) :
    lookup key (update key t i f) j
      = if j = i then (lookup key t j).map f else lookup key t j := by
  have hg : ∀ r, key (if key r = i then f r else r) = key r := by
    intro r
    split <;> simp [hf]
  unfold update
  rw [lookup_map _ hg]
  cases h : lookup key t j with
  | none => split <;> rfl
  | some r =>
      have hk : key r = j := lookup_key h
      simp only [Option.map_some, hk]
      split <;> rfl

theorem map_key_update (f : ρ → ρ) (hf : ∀ r, key (f r) = key r) :
    (update key t i f).map key = t.map key := by
  unfold update
  refine map_key_map _ fun r => ?_
  split <;> simp [hf]

/-! ## §2. Rows with increasing keys. -/

variable {α : Type} [LinearOrder α] {f : ρ → α}

/-- The last row of an increasing list has the greatest key. -/
theorem argmax_eq_getLast? {l : List ρ} (h : l.Pairwise fun a b => f a < f b) :
    l.argmax f = l.getLast? := by
  induction l using List.reverseRecOn with
  | nil => rfl
  -- the new last element is greater than the maximum so far
  | append_singleton l a ih =>
      rw [List.pairwise_append] at h
      have ihl := ih h.1
      rw [List.argmax_concat, ihl, List.getLast?_append]
      cases hl : l.getLast? with
      | none => rfl
      | some c =>
          have hc : f c < f a := h.2.2 c (List.mem_of_getLast? hl) a (by simp)
          simp [hc]

/-- An increasing list is its own `ORDER BY`. -/
theorem insertionSort_eq_self {l : List ρ} (h : l.Pairwise fun a b => f a < f b) :
    l.insertionSort (fun a b => f a ≤ f b) = l :=
  List.Pairwise.insertionSort_eq (h.imp fun hab => le_of_lt hab)

end Procurement.Framework
