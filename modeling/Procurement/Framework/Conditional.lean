/-
  Procurement.Framework.Conditional
  ─────────────────────────────────
  **RUNS WHOSE STEPS MEET A CONDITION.**

  A property that some steps break holds in the runs that avoid those steps.
  `Meeting step meets s es` says that on the way from `s` along the events `es`
  every event meets the condition in the state it happens in.  An invariant of the
  steps that do is an invariant of such runs (`Meeting.invariant`), in every
  state on the way (`Meeting.of_prefix`).
-/
import Mathlib.Data.List.Basic

namespace Procurement.Framework

variable {σ ε : Type}

/-- Every event of the run meets the condition in the state it happens in. -/
def Meeting (step : σ → ε → σ) (meets : σ → ε → Prop) : σ → List ε → Prop
  | _, [] => True
  | s, e :: es => meets s e ∧ Meeting step meets (step s e) es

namespace Meeting

variable {step : σ → ε → σ} {meets : σ → ε → Prop}

/-- Runs can be checked. -/
instance decidable [∀ s e, Decidable (meets s e)] :
    (s : σ) → (es : List ε) → Decidable (Meeting step meets s es)
  | _, [] => isTrue trivial
  | s, e :: es =>
      have : Decidable (Meeting step meets (step s e) es) := decidable (step s e) es
      inferInstanceAs (Decidable (meets s e ∧ Meeting step meets (step s e) es))

/-- What every step that meets the condition keeps, the run keeps. -/
theorem invariant {P : σ → Prop} (hstep : ∀ s e, P s → meets s e → P (step s e)) {es : List ε} :
    ∀ {s : σ}, P s → Meeting step meets s es → P (es.foldl step s) := by
  induction es with
  | nil => exact fun hs _ => hs
  | cons e es ih =>
      intro s hs hrun
      exact ih (hstep s e hs hrun.1) hrun.2

/-- The beginning of such a run is one. -/
theorem of_prefix {es fs : List ε} (hp : es <+: fs) :
    ∀ {s : σ}, Meeting step meets s fs → Meeting step meets s es := by
  induction es generalizing fs with
  | nil => exact fun _ => trivial
  | cons e es ih =>
      intro s hrun
      obtain ⟨rest, rfl⟩ := hp
      exact ⟨hrun.1, ih (List.prefix_append _ _) hrun.2⟩

end Meeting

end Procurement.Framework
