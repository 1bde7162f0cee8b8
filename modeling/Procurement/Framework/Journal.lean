/-
  Procurement.Framework.Journal
  ─────────────────────────────
  **LOGS THAT RECORD A STATE.**

  A log is read by a step function, one entry after the other.  `Records s es s'`
  says that reading `es` leads from `s` to `s'` and that no entry is redundant:
  each of them changes the state, the silent ones excepted.  Logs that are
  written behind each other record the way of both (`Records.append`), which is
  how a run is followed by its log.
-/
import Mathlib.Data.List.Basic

namespace Procurement.Framework

variable {σ ε : Type}

/-- Reading `es` leads from `s` to `s'`, and every entry that is not silent
changes the state it is read in. -/
def Records (step : σ → ε → σ) (silent : ε → Prop) : σ → List ε → σ → Prop
  | s, [], s' => s = s'
  | s, e :: es, s' => (¬ silent e → step s e ≠ s) ∧ Records step silent (step s e) es s'

variable {step : σ → ε → σ} {silent : ε → Prop} {s s' s'' : σ}

namespace Records

/-- An entry that changes the state. -/
theorem single {e : ε} (h : step s e = s') (hne : s' ≠ s) : Records step silent s [e] s' :=
  ⟨fun _ => h.symm ▸ hne, h⟩

/-- A silent entry. -/
theorem quiet {e : ε} (h : step s e = s) (he : silent e) : Records step silent s [e] s :=
  ⟨fun hno => absurd he hno, h⟩

theorem append {es fs : List ε} (h : Records step silent s es s')
    (h' : Records step silent s' fs s'') : Records step silent s (es ++ fs) s'' := by
  induction es generalizing s with
  | nil =>
      have hs : s = s' := h
      rw [hs]
      exact h'
  | cons e es ih => exact ⟨h.1, ih h.2⟩

/-- The state that the log records is the one that reading it gives. -/
theorem foldl {es : List ε} (h : Records step silent s es s') : es.foldl step s = s' := by
  induction es generalizing s with
  | nil => exact h
  | cons e es ih => exact ih h.2

/-- No entry is redundant, wherever it stands. -/
theorem changes {before after : List ε} {e : ε}
    (h : Records step silent s (before ++ e :: after) s') (he : ¬ silent e) :
    (before ++ [e]).foldl step s ≠ before.foldl step s := by
  induction before generalizing s with
  | nil => exact h.1 he
  | cons b before ih => exact ih h.2

end Records

end Procurement.Framework
