/-
  Procurement.Framework.Coroutine
  ───────────────────────────────
  **TASKS SIDE BY SIDE, EACH WITH ITS OWN CONTEXT.**

  A coroutine reads and writes a context variable and emits outputs.  Any
  number of them run side by side: a schedule names, step by step, whose turn
  it is; contexts are private, the trace of outputs is shared.

  Privacy makes a task's outputs independent of the schedule:

      what task i has emitted  ++  what it would still emit alone
        = what it emits when it runs alone from the start     (`run_outputs`)

  so a fact about all outputs of solo runs holds in every interleaving.
-/
import Mathlib.Data.List.Basic
import Mathlib.Logic.Function.Basic

namespace Procurement.Framework

/-! ## §1. Coroutines. -/

/-- A task over the context `σ` that emits `ω` and returns an `α`. -/
inductive Coroutine (σ ω α : Type) : Type where
  /-- Return a value. -/
  | ret (a : α)
  /-- Read the context. -/
  | get (k : σ → Coroutine σ ω α)
  /-- Write the context. -/
  | set (s : σ) (k : Coroutine σ ω α)
  /-- Emit one output. -/
  | emit (x : ω) (k : Coroutine σ ω α)

variable {ι σ ω α β : Type}

namespace Coroutine

/-- Sequential composition. -/
def bind : Coroutine σ ω α → (α → Coroutine σ ω β) → Coroutine σ ω β
  | .ret a, f => f a
  | .get k, f => .get fun s => (k s).bind f
  | .set s k, f => .set s (k.bind f)
  | .emit x k, f => .emit x (k.bind f)

instance : Monad (Coroutine σ ω) where
  pure := .ret
  bind := bind

def read : Coroutine σ ω σ := .get .ret

def write (s : σ) : Coroutine σ ω Unit := .set s (.ret ())

def put (x : ω) : Coroutine σ ω Unit := .emit x (.ret ())

/-! ### Alone. -/

/-- What the task emits when it runs alone from the context `s`. -/
def outputs : Coroutine σ ω α → σ → List ω
  | .ret _, _ => []
  | .get k, s => (k s).outputs s
  | .set s k, _ => k.outputs s
  | .emit x k, s => x :: k.outputs s

/-- What it returns. -/
def result : Coroutine σ ω α → σ → α
  | .ret a, _ => a
  | .get k, s => (k s).result s
  | .set s k, _ => k.result s
  | .emit _ k, s => k.result s

/-- The context it leaves. -/
def leaves : Coroutine σ ω α → σ → σ
  | .ret _, s => s
  | .get k, s => (k s).leaves s
  | .set s k, _ => k.leaves s
  | .emit _ k, s => k.leaves s

section
variable (p : Coroutine σ ω α) (f : α → Coroutine σ ω β) (s : σ) (a : α) (x : ω)

/-- Two coroutines, one behind the other, emit what the two of them emit. -/
@[simp] theorem outputs_bind :
    (p >>= f).outputs s = p.outputs s ++ (f (p.result s)).outputs (p.leaves s) := by
  induction p generalizing s with
  | ret a => rfl
  | get k ih => exact ih s s
  | set t k ih => exact ih t
  | emit x k ih => exact congrArg (x :: ·) (ih s)

/-- They return what the second one returns. -/
@[simp] theorem result_bind : (p >>= f).result s = (f (p.result s)).result (p.leaves s) := by
  induction p generalizing s with
  | ret a => rfl
  | get k ih => exact ih s s
  | set t k ih => exact ih t
  | emit x k ih => exact ih s

/-- They leave the context that the second one leaves. -/
@[simp] theorem leaves_bind : (p >>= f).leaves s = (f (p.result s)).leaves (p.leaves s) := by
  induction p generalizing s with
  | ret a => rfl
  | get k ih => exact ih s s
  | set t k ih => exact ih t
  | emit x k ih => exact ih s

@[simp] theorem outputs_pure : (pure a : Coroutine σ ω α).outputs s = [] := rfl
@[simp] theorem result_pure : (pure a : Coroutine σ ω α).result s = a := rfl
@[simp] theorem leaves_pure : (pure a : Coroutine σ ω α).leaves s = s := rfl

@[simp] theorem outputs_read : (read : Coroutine σ ω σ).outputs s = [] := rfl
@[simp] theorem result_read : (read : Coroutine σ ω σ).result s = s := rfl
@[simp] theorem leaves_read : (read : Coroutine σ ω σ).leaves s = s := rfl

@[simp] theorem outputs_write (t : σ) : (write t : Coroutine σ ω Unit).outputs s = [] := rfl
@[simp] theorem leaves_write (t : σ) : (write t : Coroutine σ ω Unit).leaves s = t := rfl

@[simp] theorem outputs_put : (put x : Coroutine σ ω Unit).outputs s = [x] := rfl
@[simp] theorem leaves_put : (put x : Coroutine σ ω Unit).leaves s = s := rfl

end

end Coroutine

/-! ## §2. Side by side. -/

/-- What is left of each task, its context, and the outputs so far, each with
the task that emitted it. -/
structure Tasks (ι σ ω α : Type) where
  code : ι → Coroutine σ ω α
  ctx : ι → σ
  trace : List (ι × ω)

namespace Tasks

variable [DecidableEq ι]

/-- Task `i` takes one step. -/
def step (w : Tasks ι σ ω α) (i : ι) : Tasks ι σ ω α :=
  match w.code i with
  | .ret _ => w
  | .get k => { w with code := Function.update w.code i (k (w.ctx i)) }
  | .set s k =>
      { w with code := Function.update w.code i k, ctx := Function.update w.ctx i s }
  | .emit x k => { w with code := Function.update w.code i k, trace := w.trace ++ [(i, x)] }

/-- The tasks take the steps of a schedule. -/
def run (w : Tasks ι σ ω α) (schedule : List ι) : Tasks ι σ ω α := schedule.foldl step w

/-- What task `i` has emitted. -/
def emitted (w : Tasks ι σ ω α) (i : ι) : List ω :=
  w.trace.filterMap fun e => if e.1 = i then some e.2 else none

/-- What task `i` would still emit alone. -/
def rest (w : Tasks ι σ ω α) (i : ι) : List ω := (w.code i).outputs (w.ctx i)

/-- What a task has emitted is in the trace under its name. -/
theorem mem_emitted {w : Tasks ι σ ω α} {i : ι} {x : ω} : x ∈ w.emitted i ↔ (i, x) ∈ w.trace := by
  unfold emitted
  rw [List.mem_filterMap]
  constructor
  · rintro ⟨⟨j, y⟩, he, hsome⟩
    by_cases hj : j = i
    · simp only [hj, if_true, Option.some.injEq] at hsome
      rwa [← hj, ← hsome] at *
    · simp [hj] at hsome
  · intro he
    exact ⟨(i, x), he, if_pos rfl⟩

/-- A step leaves the other tasks alone. -/
theorem step_other (w : Tasks ι σ ω α) {i j : ι} (h : i ≠ j) :
    (w.step j).code i = w.code i ∧ (w.step j).ctx i = w.ctx i
      ∧ (w.step j).emitted i = w.emitted i := by
  unfold step
  cases w.code j with
  | ret a => exact ⟨rfl, rfl, rfl⟩
  | get k => exact ⟨Function.update_of_ne h _ _, rfl, rfl⟩
  | set s k => exact ⟨Function.update_of_ne h _ _, Function.update_of_ne h _ _, rfl⟩
  | emit x k =>
      refine ⟨Function.update_of_ne h _ _, rfl, ?_⟩
      have hji : ¬ j = i := fun hj => h hj.symm
      simp [emitted, hji]

/-- One step moves outputs of its task from `rest` to `emitted`. -/
theorem step_outputs (w : Tasks ι σ ω α) (i j : ι) :
    (w.step j).emitted i ++ (w.step j).rest i = w.emitted i ++ w.rest i := by
  by_cases hij : i = j
  · subst hij
    unfold step
    cases hcode : w.code i with
    | ret a => rfl
    | get k => simp [emitted, rest, hcode, Coroutine.outputs]
    | set s k => simp [emitted, rest, hcode, Coroutine.outputs]
    | emit x k => simp [emitted, rest, hcode, Coroutine.outputs]
  · obtain ⟨hcode, hctx, hemitted⟩ := w.step_other hij
    unfold rest
    rw [hcode, hctx, hemitted]

/-- What task `i` returns in the end does not change. -/
theorem step_result (w : Tasks ι σ ω α) (i j : ι) :
    ((w.step j).code i).result ((w.step j).ctx i) = (w.code i).result (w.ctx i) := by
  by_cases hij : i = j
  · subst hij
    unfold step
    cases hcode : w.code i with
    | ret a => simp [hcode]
    | get k => simp [Coroutine.result]
    | set s k => simp [Coroutine.result]
    | emit x k => simp [Coroutine.result]
  · obtain ⟨hcode, hctx, _⟩ := w.step_other hij
    rw [hcode, hctx]

/-- **A task's outputs do not depend on the schedule.** -/
theorem run_outputs (w : Tasks ι σ ω α) (schedule : List ι) (i : ι) :
    (w.run schedule).emitted i ++ (w.run schedule).rest i = w.emitted i ++ w.rest i := by
  induction schedule generalizing w with
  | nil => rfl
  | cons j schedule ih =>
      show ((w.step j).run schedule).emitted i ++ ((w.step j).run schedule).rest i = _
      rw [ih, step_outputs]

/-- A task returns what it would return alone. -/
theorem run_result (w : Tasks ι σ ω α) (schedule : List ι) (i : ι) :
    ((w.run schedule).code i).result ((w.run schedule).ctx i) = (w.code i).result (w.ctx i) := by
  induction schedule generalizing w with
  | nil => rfl
  | cons j schedule ih =>
      show (((w.step j).run schedule).code i).result (((w.step j).run schedule).ctx i) = _
      rw [ih, step_result]

/-! ### From the start. -/

/-- Every task at its start, in a context that it has been given a copy of. -/
def start (code : ι → Coroutine σ ω α) (s : σ) : Tasks ι σ ω α := ⟨code, fun _ => s, []⟩

variable {code : ι → Coroutine σ ω α} {s : σ} {schedule : List ι} {i : ι} {x : ω} {a : α}

/-- **What a task has emitted is emitted by its solo run.** -/
theorem mem_outputs (h : (i, x) ∈ ((start code s).run schedule).trace) :
    x ∈ (code i).outputs s := by
  have hall : _ = [] ++ (code i).outputs s := run_outputs (start code s) schedule i
  rw [List.nil_append] at hall
  rw [← hall]
  exact List.mem_append_left _ (mem_emitted.mpr h)

/-- A task that has returned has emitted what its solo run emits, and returned
what that returns. -/
theorem finished (h : ((start code s).run schedule).code i = .ret a) :
    ((start code s).run schedule).emitted i = (code i).outputs s ∧ a = (code i).result s := by
  have hall : _ = [] ++ (code i).outputs s := run_outputs (start code s) schedule i
  have hres : _ = (code i).result s := run_result (start code s) schedule i
  unfold rest at hall
  rw [h] at hall hres
  rw [List.nil_append] at hall
  have hnone : (Coroutine.ret a : Coroutine σ ω α).outputs
      (((start code s).run schedule).ctx i) = [] := rfl
  rw [hnone, List.append_nil] at hall
  exact ⟨hall, hres⟩

end Tasks

end Procurement.Framework
