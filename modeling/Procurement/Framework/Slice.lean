/-
  Procurement.Framework.Slice
  ───────────────────────────
  **TABLES THAT AGREE ON A SLICE.**

  Two tables are `Sliced p b` when the rows that `p` selects are the same in
  both, in the same order, once `b` has blurred what may differ.  A read that
  selects inside the slice and does not look at what is blurred cannot tell the
  tables apart; a write on both sides keeps them sliced, and so does a write on
  one side outside the slice.
-/
import Procurement.Framework.Table

namespace Procurement.Framework

variable {ρ : Type}

/-- The rows that `p` selects are the same in both tables, seen through `b`. -/
def Sliced (p : ρ → Bool) (b : ρ → ρ) (t t' : List ρ) : Prop :=
  (t.filter p).map b = (t'.filter p).map b

namespace Sliced

variable {p q : ρ → Bool} {b : ρ → ρ} {t t' : List ρ} {r r' : ρ}

theorem refl (p : ρ → Bool) (b : ρ → ρ) (t : List ρ) : Sliced p b t t := rfl

/-! ## §1. Reads. -/

/-- Selecting behind the blur is selecting before it. -/
theorem filter_map_blur (hb : ∀ r, q (b r) = q r) (t : List ρ) :
    (t.map b).filter q = (t.filter q).map b := by
  rw [List.filter_map]
  congr 1
  exact List.filter_congr fun r _ => hb r

/-- A slice inside the slice. -/
theorem narrow (h : Sliced p b t t') (hq : ∀ r ∈ t, q r → p r) (hq' : ∀ r ∈ t', q r → p r)
    (hb : ∀ r, q (b r) = q r) : Sliced q b t t' := by
  have hinside : ∀ t : List ρ, (∀ r ∈ t, q r → p r) →
      (t.filter q).map b = ((t.filter p).map b).filter q := by
    intro t hqp
    rw [filter_map_blur hb, List.filter_filter]
    congr 1
    refine List.filter_congr fun r hr => ?_
    cases hqr : q r with
    | false => rfl
    | true => rw [hqp r hr hqr]; rfl
  show (t.filter q).map b = (t'.filter q).map b
  rw [hinside t hq, hinside t' hq']
  exact congrArg (List.filter q) h

/-- Another blur, which takes no more away from the rows of the slice. -/
theorem reblur {c : ρ → ρ} (h : Sliced p b t t') (hc : ∀ r ∈ t, p r → c (b r) = c r)
    (hc' : ∀ r ∈ t', p r → c (b r) = c r) : Sliced p c t t' := by
  have hblurred : ∀ t : List ρ, (∀ r ∈ t, p r → c (b r) = c r) →
      (t.filter p).map c = ((t.filter p).map b).map c := by
    intro t hcb
    rw [List.map_map]
    refine List.map_congr_left fun r hr => ?_
    rw [List.mem_filter] at hr
    exact (hcb r hr.1 hr.2).symm
  show (t.filter p).map c = (t'.filter p).map c
  rw [hblurred t hc, hblurred t' hc']
  exact congrArg (List.map c) h

/-- Nothing of the slice is blurred, so it is the same. -/
theorem eq (h : Sliced p b t t') (hb : ∀ r ∈ t, p r → b r = r) (hb' : ∀ r ∈ t', p r → b r = r) :
    t.filter p = t'.filter p := by
  have hsharp : ∀ t : List ρ, (∀ r ∈ t, p r → b r = r) → (t.filter p).map b = t.filter p := by
    intro t hbr
    conv_rhs => rw [← List.map_id (t.filter p)]
    refine List.map_congr_left fun r hr => ?_
    rw [List.mem_filter] at hr
    exact hbr r hr.1 hr.2
  rw [← hsharp t hb, ← hsharp t' hb']
  exact h

/-- The first row of the slice. -/
theorem find? (h : Sliced p b t t') : (t.find? p).map b = (t'.find? p).map b := by
  rw [← List.head?_filter, ← List.head?_filter, ← List.head?_map, ← List.head?_map]
  exact congrArg List.head? h

/-- Rows that are found on both sides, and what is known of each pair. -/
theorem rel_of_map_eq {x y : Option ρ} {R : ρ → ρ → Prop} (h : x.map b = y.map b)
    (hR : ∀ r r', x = some r → y = some r' → b r = b r' → R r r') : Option.Rel R x y := by
  cases x with
  | none =>
      rw [Option.map_eq_none_iff.mp h.symm]
      exact .none
  | some r =>
      obtain ⟨r', hr', hb⟩ := Option.map_eq_some_iff.mp h.symm
      rw [hr']
      exact .some (hR r r' rfl hr' hb.symm)

/-- A row of the slice has its counterpart. -/
theorem exists_mem (h : Sliced p b t t') (hr : r ∈ t') (hp : p r) :
    ∃ q ∈ t, p q ∧ b q = b r := by
  have hmem : b r ∈ (t.filter p).map b := by
    rw [show (t.filter p).map b = (t'.filter p).map b from h]
    exact List.mem_map_of_mem (List.mem_filter.mpr ⟨hr, hp⟩)
  obtain ⟨q, hq, hbq⟩ := List.mem_map.mp hmem
  obtain ⟨hq, hpq⟩ := List.mem_filter.mp hq
  exact ⟨q, hq, hpq, hbq⟩

section
variable {α : Type} [LinearOrder α] {f : ρ → α}

theorem argmax_map (hf : ∀ r, f (b r) = f r) (l : List ρ) :
    (l.map b).argmax f = (l.argmax f).map b := by
  induction l using List.reverseRecOn with
  | nil => rfl
  -- the maximum so far against the last row
  | append_singleton l a ih =>
      rw [List.map_append, List.map_singleton, List.argmax_concat, List.argmax_concat, ih]
      cases l.argmax f with
      | none => rfl
      | some c =>
          simp only [Option.map_some, hf]
          split <;> rfl

/-- `ORDER BY … DESC LIMIT 1` in the slice. -/
theorem argmax (h : Sliced p b t t') (hf : ∀ r, f (b r) = f r) :
    ((t.filter p).argmax f).map b = ((t'.filter p).argmax f).map b := by
  rw [← argmax_map hf, ← argmax_map hf]
  exact congrArg (List.argmax f) h

/-- `ORDER BY` in the slice. -/
theorem insertionSort (h : Sliced p b t t') (hf : ∀ r, f (b r) = f r) :
    ((t.filter p).insertionSort fun r s => f r ≤ f s).map b
      = ((t'.filter p).insertionSort fun r s => f r ≤ f s).map b := by
  have hmap : ∀ l : List ρ, (l.insertionSort fun r s => f r ≤ f s).map b
      = (l.map b).insertionSort fun r s => f r ≤ f s := by
    intro l
    refine List.map_insertionSort _ _ b l fun r _ s _ => ?_
    simp only [hf]
  rw [hmap, hmap]
  exact congrArg (List.insertionSort fun r s => f r ≤ f s) h

end

/-! ## §2. Writes. -/

/-- The same row, as far as the blur shows, on both sides. -/
theorem concat (h : Sliced p b t t') (hp : p r = p r') (hb : b r = b r') :
    Sliced p b (t ++ [r]) (t' ++ [r']) := by
  show ((t ++ [r]).filter p).map b = ((t' ++ [r']).filter p).map b
  rw [List.filter_append, List.filter_append, List.map_append, List.map_append,
    show (t.filter p).map b = (t'.filter p).map b from h]
  congr 1
  cases hr : p r with
  | true =>
      have hr' : p r' = true := hp.symm.trans hr
      simp [List.filter, hr, hr', hb]
  | false =>
      have hr' : p r' = false := hp.symm.trans hr
      simp [List.filter, hr, hr']

/-- A row outside the slice, on one side. -/
theorem concat_left (h : Sliced p b t t') (hp : p r = false) : Sliced p b (t ++ [r]) t' := by
  show ((t ++ [r]).filter p).map b = _
  rw [List.filter_append]
  simp only [List.filter, hp, List.append_nil]
  exact h

/-- Rows rewritten on both sides, in a way that `g` follows behind the blur. -/
theorem map {f f' : ρ → ρ} (g : ρ → ρ) (h : Sliced p b t t') (hf : ∀ r, b (f r) = g (b r))
    (hf' : ∀ r, b (f' r) = g (b r)) (hp : ∀ r, p (f r) = p r) (hp' : ∀ r, p (f' r) = p r) :
    Sliced p b (t.map f) (t'.map f') := by
  have hside : ∀ (t : List ρ) (f : ρ → ρ), (∀ r, b (f r) = g (b r)) → (∀ r, p (f r) = p r) →
      ((t.map f).filter p).map b = ((t.filter p).map b).map g := by
    intro t f hbf hpf
    rw [filter_map_blur hpf, List.map_map, List.map_map]
    exact List.map_congr_left fun r _ => hbf r
  show ((t.map f).filter p).map b = ((t'.map f').filter p).map b
  rw [hside t f hf hp, hside t' f' hf' hp']
  exact congrArg (List.map g) h

/-- Rows outside the slice rewritten, on one side. -/
theorem map_left {f : ρ → ρ} (h : Sliced p b t t') (hp : ∀ r, p (f r) = p r)
    (hfix : ∀ r ∈ t, p r → f r = r) : Sliced p b (t.map f) t' := by
  show ((t.map f).filter p).map b = _
  rw [filter_map_blur hp]
  have hsame : (t.filter p).map f = t.filter p := by
    conv_rhs => rw [← List.map_id (t.filter p)]
    refine List.map_congr_left fun r hr => ?_
    rw [List.mem_filter] at hr
    exact hfix r hr.1 hr.2
  rw [hsame]
  exact h

end Sliced

end Procurement.Framework
