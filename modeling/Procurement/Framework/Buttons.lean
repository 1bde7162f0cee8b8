/-
  Procurement.Framework.Buttons
  ─────────────────────────────
  **ONE TASK FOR A BUTTON.**

  A button is disabled while the function runs that it has called.  Functions run side
  by side, so the button is only as safe as all of them: each enables the one it has
  disabled, in the end and whatever it is answered (`Frees`), and leaves the others
  alone.  Then a button that is disabled has one task, which will enable it, and an
  enabled one has none.
-/
import Procurement.Framework.EventLoop

namespace Procurement.Framework

variable {σ Req Ans ε α β G D : Type}

/-! ## §1. Functions with a button. -/

/-- The function is at its end. -/
def Async.Ends : Async σ Req Ans ε α → Prop
  | .ret _ | .throw _ => True
  | _ => False

section
variable {B : Type} [DecidableEq B] {disabled : σ → B → Bool} {disable : B → Bool → σ → σ}
variable {button : G → Option B}

/-- Button `b` is disabled while `p` runs; who finds it disabled does nothing. -/
def Async.locked (disabled : σ → B → Bool) (disable : B → Bool → σ → σ) (b : B)
    (p : Async σ Req Ans ε Unit) : Async σ Req Ans ε Unit :=
  .get fun s =>
    if disabled s b then .ret ()
    else .set (disable b true) (p.lastly (modify (disable b false)))

/-- The function leaves the buttons alone. -/
def Async.Quiet (disabled : σ → B → Bool) : Async σ Req Ans ε α → Prop
  | .ret _ | .throw _ => True
  | .get k => ∀ s, (k s).Quiet disabled
  | .set f k => (∀ s, disabled (f s) = disabled s) ∧ k.Quiet disabled
  | .await _ k => ∀ x, (k x).Quiet disabled

/-- The function enables `b` and ends, whatever it is answered; else it leaves the
buttons alone. -/
def Async.Frees (disabled : σ → B → Bool) (b : B) : Async σ Req Ans ε α → Prop
  | .ret _ | .throw _ => False
  | .get k => ∀ s, (k s).Frees disabled b
  | .set f k => (∀ s, disabled (f s) = disabled s) ∧ k.Frees disabled b
      ∨ (∀ s, disabled (f s) = Function.update (disabled s) b false) ∧ k.Ends
  | .await _ k => ∀ x, (k x).Frees disabled b

namespace Async

omit [DecidableEq B] in
/-- Two quiet functions are quiet one behind the other. -/
theorem Quiet.bind {p : Async σ Req Ans ε α} {f : α → Async σ Req Ans ε β}
    (hp : p.Quiet disabled) (hf : ∀ a, (f a).Quiet disabled) : (p >>= f).Quiet disabled := by
  induction p with
  | ret a => exact hf a
  | throw e => trivial
  | get k ih => exact fun s => ih s (hp s)
  | set g k ih => exact ⟨hp.1, ih hp.2⟩
  | await rs k ih => exact fun x => ih x (hp x)

omit [DecidableEq B] in
/-- A quiet function with a quiet handler is quiet. -/
theorem Quiet.tryCatch {p : Async σ Req Ans ε α} {h : ε → Async σ Req Ans ε α}
    (hp : p.Quiet disabled) (hh : ∀ e, (h e).Quiet disabled) :
    (p.tryCatch h).Quiet disabled := by
  induction p with
  | ret a => trivial
  | throw e => exact hh e
  | get k ih => exact fun s => ih s (hp s)
  | set g k ih => exact ⟨hp.1, ih hp.2⟩
  | await rs k ih => exact fun x => ih x (hp x)

omit [DecidableEq B] in
/-- Waiting is quiet. -/
theorem Quiet.all (rs : List Req) : (Async.all rs : Async σ Req Ans ε _).Quiet disabled := by
  intro x
  cases x <;> trivial

/-- In the end the button is enabled. -/
theorem Quiet.frees (hdisable : ∀ b v s, disabled (disable b v s) = Function.update (disabled s) b v)
    {p : Async σ Req Ans ε α} (hp : p.Quiet disabled) (b : B) :
    (p.lastly (modify (disable b false))).Frees disabled b := by
  induction p with
  | ret a => exact Or.inr ⟨hdisable b false, trivial⟩
  | throw e => exact Or.inr ⟨hdisable b false, trivial⟩
  | get k ih => exact fun s => ih s (hp s)
  | set g k ih => exact Or.inl ⟨hp.1, ih hp.2⟩
  | await rs k ih => exact fun x => ih x (hp x)

omit [DecidableEq B] in
/-- A turn of a quiet function leaves a quiet one, and the buttons as they were. -/
theorem Quiet.turn {p : Async σ Req Ans ε α} (hp : p.Quiet disabled) (s : σ) :
    (p.turn s).1.Quiet disabled ∧ disabled (p.turn s).2 = disabled s := by
  induction p generalizing s with
  | get k ih => exact ih s (hp s) s
  | set f k ih => exact ⟨(ih hp.2 (f s)).1, (ih hp.2 (f s)).2.trans (hp.1 s)⟩
  | ret a => exact ⟨hp, rfl⟩
  | throw e => exact ⟨hp, rfl⟩
  | await rs k ih => exact ⟨hp, rfl⟩

/-- What has ended has no turn left. -/
theorem Ends.turn {p : Async σ Req Ans ε α} (hp : p.Ends) (s : σ) : p.turn s = (p, s) := by
  cases p with
  | ret a => rfl
  | throw e => rfl
  | get k => exact absurd hp id
  | set f k => exact absurd hp id
  | await rs k => exact absurd hp id

/-- To its next await it has not enabled the button, or it is at its end and has. -/
theorem Frees.turn {b : B} {p : Async σ Req Ans ε α} (hp : p.Frees disabled b) (s : σ) :
    (∃ rs k, (p.turn s).1 = .await rs k ∧ (∀ x, (k x).Frees disabled b)
        ∧ disabled (p.turn s).2 = disabled s)
      ∨ (p.turn s).1.Ends ∧ disabled (p.turn s).2 = Function.update (disabled s) b false := by
  induction p generalizing s with
  | ret a => exact absurd hp id
  | throw e => exact absurd hp id
  | get k ih => exact ih s (hp s) s
  | await rs k ih => exact Or.inl ⟨rs, k, rfl, hp, rfl⟩
  | set f k ih =>
      rcases hp with ⟨hsame, hk⟩ | ⟨hfree, hends⟩
      · show _ ∨ (k.turn (f s)).1.Ends ∧ disabled (k.turn (f s)).2 = _
        rw [← hsame s]
        exact ih hk (f s)
      · refine Or.inr ?_
        show (k.turn (f s)).1.Ends ∧ disabled (k.turn (f s)).2 = _
        rw [hends.turn]
        exact ⟨hends, hfree s⟩

/-- What a function has done to its button when it awaits or ends: it has taken it, or
has left all of them as they were. -/
def Takes (disabled : σ → B → Bool) (b : B) (p : Async σ Req Ans ε Unit) (s : σ) : Prop :=
  (p.turn s).1.Ends ∧ disabled (p.turn s).2 = disabled s
    ∨ ∃ rs k, (p.turn s).1 = .await rs k ∧ (∀ x, (k x).Frees disabled b)
        ∧ disabled s b = false ∧ disabled (p.turn s).2 = Function.update (disabled s) b true

/-- **`locked` takes its button**, and gives it back however its function ends. -/
theorem takes_locked
    (hdisable : ∀ b v s, disabled (disable b v s) = Function.update (disabled s) b v) {b : B}
    {p : Async σ Req Ans ε Unit} (hp : p.Quiet disabled) (s : σ) :
    (locked disabled disable b p).Takes disabled b s := by
  unfold Takes
  have hturn : (locked disabled disable b p).turn s
      = if disabled s b then (.ret (), s)
        else (p.lastly (modify (disable b false))).turn (disable b true s) := by
    show (if disabled s b then _ else _ : Async σ Req Ans ε Unit).turn s = _
    split <;> rfl
  rw [hturn]
  by_cases hd : disabled s b = true
  · rw [if_pos hd]
    exact Or.inl ⟨trivial, rfl⟩
  · rw [if_neg hd]
    rcases (hp.frees hdisable b).turn (disable b true s) with ⟨rs, k, hq, hk, hsame⟩ | ⟨hends, hfree⟩
    · refine Or.inr ⟨rs, k, hq, hk, by simpa using hd, ?_⟩
      rw [hsame, hdisable]
    · -- it has not awaited anything
      refine Or.inl ⟨hends, ?_⟩
      rw [hfree, hdisable, Function.update_idem]
      refine Function.update_eq_self_iff.mpr ?_
      simpa using hd

end Async

/-- What a gesture calls takes the gesture's button, or leaves the buttons alone. -/
def Async.Minds (disabled : σ → B → Bool) (p : Async σ Req Ans ε Unit) : Option B → Prop
  | none => p.Quiet disabled
  | some b => ∀ s, p.Takes disabled b s

/-- The task holds its button, or has none. -/
def Waiting.Holds (disabled : σ → B → Bool) (button : G → Option B)
    (task : Waiting G σ Req Ans ε) : Prop :=
  match button task.cause with
  | none => ∀ x, (task.rest x).Quiet disabled
  | some b => ∀ x, (task.rest x).Frees disabled b

/-- Task `t` waits, and was called with button `b`. -/
def Tab.Presses (button : G → Option B) (tab : Tab G σ Req Ans ε) (t : Nat) (b : B) : Prop :=
  ∃ task, tab.tasks t = some task ∧ button task.cause = some b

/-- **A disabled button has one task, which will enable it**, and an enabled one has none. -/
structure Tab.Locked (disabled : σ → B → Bool) (button : G → Option B)
    (tab : Tab G σ Req Ans ε) : Prop where
  unstarted : ∀ t, tab.started ≤ t → tab.tasks t = none
  holds : ∀ t task, tab.tasks t = some task → task.Holds disabled button
  disabled_iff : ∀ b, disabled tab.page b = true ↔ ∃ t, tab.Presses button t b
  alone : ∀ {t u b}, tab.Presses button t b → tab.Presses button u b → t = u

/-- Behind a change of task `t`: it has the button, and nobody else had it; or it has not,
and the button is disabled if another task has it. -/
def Tab.After (disabled : σ → B → Bool) (button : G → Option B) (tab : Tab G σ Req Ans ε) (t : Nat)
    (tab' : Tab G σ Req Ans ε) (b : B) : Prop :=
  tab'.Presses button t b ∧ disabled tab'.page b = true
      ∧ (∀ u, u ≠ t → ¬ tab.Presses button u b)
    ∨ ¬ tab'.Presses button t b
      ∧ (disabled tab'.page b = true ↔ ∃ u, u ≠ t ∧ tab.Presses button u b)

variable {tab tab' : Tab G σ Req Ans ε} {t : Nat}

omit [DecidableEq B] in
/-- Whom a task has been started by is read off the task. -/
theorem Tab.Presses.congr {b : B} (htasks : tab'.tasks t = tab.tasks t) :
    tab'.Presses button t b ↔ tab.Presses button t b := by
  unfold Tab.Presses
  rw [htasks]

/-- Where task `t` is not the one, it is another. -/
theorem Tab.Locked.others (h : tab.Locked disabled button) {b : B}
    (ht : ¬ tab.Presses button t b) :
    disabled tab.page b = true ↔ ∃ u, u ≠ t ∧ tab.Presses button u b := by
  rw [h.disabled_iff]
  constructor
  · rintro ⟨u, hu⟩
    exact ⟨u, fun hut => ht (hut ▸ hu), hu⟩
  · rintro ⟨u, _, hu⟩
    exact ⟨u, hu⟩

/-- Only task `t` and its button change. -/
theorem Tab.Locked.replace (h : tab.Locked disabled button)
    (htasks : ∀ u, u ≠ t → tab'.tasks u = tab.tasks u)
    (hunstarted : ∀ u, tab'.started ≤ u → tab'.tasks u = none)
    (hholds : ∀ task, tab'.tasks t = some task → task.Holds disabled button)
    (hbutton : ∀ b, tab.After disabled button t tab' b) :
    tab'.Locked disabled button := by
  have hsame : ∀ {u b}, u ≠ t → (tab'.Presses button u b ↔ tab.Presses button u b) :=
    fun hu => Tab.Presses.congr (htasks _ hu)
  refine ⟨hunstarted, fun u task hu => ?_, fun b => ?_, fun {u v b} hu hv => ?_⟩
  · by_cases hut : u = t
    · exact hholds task (hut ▸ hu)
    · exact h.holds u task ((htasks u hut).symm.trans hu)
  · rcases hbutton b with ⟨hpress, hdisabled, _⟩ | ⟨hnot, hiff⟩
    · exact ⟨fun _ => ⟨t, hpress⟩, fun _ => hdisabled⟩
    · rw [hiff]
      constructor
      · rintro ⟨u, hut, hu⟩
        exact ⟨u, (hsame hut).mpr hu⟩
      · rintro ⟨u, hu⟩
        have hut : u ≠ t := fun hut => hnot (hut ▸ hu)
        exact ⟨u, hut, (hsame hut).mp hu⟩
  · rcases hbutton b with ⟨_, _, halone⟩ | ⟨hnot, _⟩
    · have hself : ∀ {u}, tab'.Presses button u b → u = t := by
        intro u hu
        by_contra hut
        exact halone u hut ((hsame hut).mp hu)
      exact (hself hu).trans (hself hv).symm
    · have hother : ∀ {u}, tab'.Presses button u b → u ≠ t := fun hu hut => hnot (hut ▸ hu)
      exact h.alone ((hsame (hother hu)).mp hu) ((hsame (hother hv)).mp hv)

/-- Everybody keeps his button. -/
theorem Tab.Locked.same (h : tab.Locked disabled button)
    (hpage : disabled tab'.page = disabled tab.page)
    (hpress : ∀ b, tab'.Presses button t b ↔ tab.Presses button t b) (b : B) :
    tab.After disabled button t tab' b := by
  unfold Tab.After
  rw [hpage]
  by_cases hb : tab.Presses button t b
  · refine Or.inl ⟨(hpress b).mpr hb, (h.disabled_iff b).mpr ⟨t, hb⟩, fun u hut hu => ?_⟩
    exact hut (h.alone hu hb)
  · exact Or.inr ⟨fun hb' => hb ((hpress b).mp hb'), h.others hb⟩

/-- Task `t` has given its button back. -/
theorem Tab.Locked.freed (h : tab.Locked disabled button) {b₀ : B}
    (hpage : disabled tab'.page = Function.update (disabled tab.page) b₀ false)
    (hold : ∀ b, tab.Presses button t b ↔ b = b₀) (hnew : ∀ b, ¬ tab'.Presses button t b) (b : B) :
    tab.After disabled button t tab' b := by
  refine Or.inr ⟨hnew b, ?_⟩
  rw [hpage]
  by_cases hb : b = b₀
  · subst hb
    rw [Function.update_self]
    refine iff_of_false Bool.false_ne_true ?_
    rintro ⟨u, hut, hu⟩
    exact hut (h.alone hu ((hold b).mpr rfl))
  · rw [Function.update_of_ne hb]
    exact h.others fun hb' => hb ((hold b).mp hb')

/-- Task `t` has taken a button that was free. -/
theorem Tab.Locked.taken (h : tab.Locked disabled button) {b₀ : B}
    (hfree : disabled tab.page b₀ = false)
    (hpage : disabled tab'.page = Function.update (disabled tab.page) b₀ true)
    (hold : ∀ b, ¬ tab.Presses button t b) (hnew : ∀ b, tab'.Presses button t b ↔ b = b₀) (b : B) :
    tab.After disabled button t tab' b := by
  unfold Tab.After
  rw [hpage]
  by_cases hb : b = b₀
  · subst hb
    refine Or.inl ⟨(hnew b).mpr rfl, Function.update_self .., fun u _ hu => ?_⟩
    exact absurd ((h.disabled_iff b).mpr ⟨u, hu⟩) (by simp [hfree])
  · rw [Function.update_of_ne hb]
    exact Or.inr ⟨fun hb' => hb ((hnew b).mp hb'), h.others (hold b)⟩

omit [DecidableEq B] in
/-- A call that waits becomes a task. -/
theorem Tab.go_await {cause : G} {p : Async σ Req Ans ε Unit} {rs : List Req}
    {k : Except ε (List Ans) → Async σ Req Ans ε Unit} (h : (p.turn tab.page).1 = .await rs k) :
    tab.go t cause p = { tab with
      page := (p.turn tab.page).2
      tasks := Function.update tab.tasks t (some ⟨cause, rs.map .sent, k⟩) } := by
  unfold Tab.go
  split
  · next rs' k' s heq =>
      rw [heq] at h ⊢
      obtain ⟨rfl, rfl⟩ := Async.await.inj h
      rfl
  · next q s hno heq =>
      rw [heq] at h
      exact absurd h (hno rs k)

omit [DecidableEq B] in
/-- A call that ends leaves no task. -/
theorem Tab.go_ends {cause : G} {p : Async σ Req Ans ε Unit} (h : (p.turn tab.page).1.Ends) :
    tab.go t cause p = { tab with
      page := (p.turn tab.page).2
      tasks := Function.update tab.tasks t none } := by
  unfold Tab.go
  split
  · next rs k s heq =>
      rw [heq] at h
      exact absurd h id
  · next q s _ heq => rw [heq]

omit [DecidableEq B] in
/-- A turn leads to an await or to the end. -/
theorem Async.awaits_or_ends (p : Async σ Req Ans ε α) (s : σ) :
    (∃ rs k, (p.turn s).1 = .await rs k) ∨ (p.turn s).1.Ends := by
  induction p generalizing s with
  | get k ih => exact ih s s
  | set f k ih => exact ih (f s)
  | ret a => exact Or.inr trivial
  | throw e => exact Or.inr trivial
  | await rs k ih => exact Or.inl ⟨rs, k, rfl⟩

/-- An answer that arrives starts nothing. -/
theorem Tab.Locked.put (h : tab.Locked disabled button) {j : Nat} {p : Promise Req Ans ε} :
    (tab.put t j p).Locked disabled button := by
  have htasks : ∀ u, u ≠ t → (tab.put t j p).tasks u = tab.tasks u :=
    fun u hu => Function.update_of_ne hu _ _
  have hself : (tab.put t j p).tasks t
      = (tab.tasks t).map fun task => { task with promises := task.promises.set j p } :=
    Function.update_self ..
  refine h.replace htasks (fun u hu => ?_) (fun task ht => ?_) (h.same rfl fun b => ?_)
  · by_cases hut : u = t
    · subst hut
      rw [hself, h.unstarted u hu]
      rfl
    · rw [htasks u hut]
      exact h.unstarted u hu
  · rw [hself] at ht
    obtain ⟨old, hold, rfl⟩ := Option.map_eq_some_iff.mp ht
    exact h.holds t old hold
  · unfold Tab.Presses
    rw [hself]
    cases tab.tasks t <;> simp

/-- **A task runs**: one that has no button, or has one, or takes one. -/
theorem Tab.Locked.go (h : tab.Locked disabled button) {cause : G} {p : Async σ Req Ans ε Unit}
    (hpage : tab'.page = (tab.go t cause p).page) (htasks : tab'.tasks = (tab.go t cause p).tasks)
    (hstarted : ∀ u, tab'.started ≤ u → tab.started ≤ u ∧ u ≠ t)
    (hp : button cause = none ∧ p.Quiet disabled ∧ (∀ b, ¬ tab.Presses button t b)
      ∨ ∃ b₀, button cause = some b₀
        ∧ (p.Frees disabled b₀ ∧ (∀ b, tab.Presses button t b ↔ b = b₀)
          ∨ p.Takes disabled b₀ tab.page ∧ ∀ b, ¬ tab.Presses button t b)) :
    tab'.Locked disabled button := by
  -- the task has come to an await, or to its end
  have hawait : ∀ {rs k}, (p.turn tab.page).1 = .await rs k →
      tab'.page = (p.turn tab.page).2
        ∧ tab'.tasks = Function.update tab.tasks t (some ⟨cause, rs.map .sent, k⟩) := by
    intro rs k hq
    rw [Tab.go_await hq] at hpage htasks
    exact ⟨hpage, htasks⟩
  have hend : (p.turn tab.page).1.Ends →
      tab'.page = (p.turn tab.page).2 ∧ tab'.tasks = Function.update tab.tasks t none := by
    intro hq
    rw [Tab.go_ends hq] at hpage htasks
    exact ⟨hpage, htasks⟩
  have hcarry : ∀ {x : Option (Waiting G σ Req Ans ε)}, tab'.tasks = Function.update tab.tasks t x →
      (∀ task, x = some task → task.Holds disabled button) →
      (∀ b, tab.After disabled button t tab' b) →
      tab'.Locked disabled button := by
    intro x hx hholds hbutton
    have hother : ∀ u, u ≠ t → tab'.tasks u = tab.tasks u := by
      intro u hu
      rw [hx, Function.update_of_ne hu]
    refine h.replace hother (fun u hu => ?_) (fun task ht => ?_) hbutton
    · rw [hother u (hstarted u hu).2]
      exact h.unstarted u (hstarted u hu).1
    · rw [hx, Function.update_self] at ht
      exact hholds task ht
  have hpress : ∀ {x : Option (Waiting G σ Req Ans ε)} {b},
      tab'.tasks = Function.update tab.tasks t x →
        (tab'.Presses button t b ↔ ∃ task, x = some task ∧ button task.cause = some b) := by
    intro x b hx
    unfold Tab.Presses
    rw [hx, Function.update_self]
  rcases hp with ⟨hnone, hquiet, hold⟩ | ⟨b₀, hsome, ⟨hfrees, hold⟩ | ⟨htakes, hold⟩⟩
  · obtain ⟨hq, hsame⟩ := hquiet.turn tab.page
    have hnot : ∀ {x : Option (Waiting G σ Req Ans ε)}, tab'.tasks = Function.update tab.tasks t x →
        (∀ task, x = some task → task.cause = cause) →
          ∀ b, tab'.Presses button t b ↔ tab.Presses button t b := by
      intro x hx hcause b
      refine iff_of_false (fun hb => ?_) (hold b)
      obtain ⟨task, htask, hb⟩ := (hpress hx).mp hb
      rw [hcause task htask, hnone] at hb
      exact absurd hb (by simp)
    rcases p.awaits_or_ends tab.page with ⟨rs, k, hrest⟩ | hends
    · obtain ⟨hpage, htasks⟩ := hawait hrest
      rw [hrest] at hq
      refine hcarry htasks ?_ (h.same (hpage ▸ hsame) (hnot htasks (by rintro task ⟨⟩; rfl)))
      rintro task ⟨⟩
      unfold Waiting.Holds
      rw [hnone]
      exact hq
    · obtain ⟨hpage, htasks⟩ := hend hends
      exact hcarry htasks (by simp) (h.same (hpage ▸ hsame) (hnot htasks (by simp)))
  · rcases hfrees.turn tab.page with ⟨rs, k, hrest, hk, hsame⟩ | ⟨hends, hfree⟩
    · obtain ⟨hpage, htasks⟩ := hawait hrest
      refine hcarry htasks ?_ (h.same (hpage ▸ hsame) fun b => ?_)
      · rintro task ⟨⟩
        unfold Waiting.Holds
        rw [hsome]
        exact hk
      · rw [hpress htasks, hold b]
        simp [hsome, eq_comm]
    · obtain ⟨hpage, htasks⟩ := hend hends
      refine hcarry htasks (by simp) (h.freed (hpage ▸ hfree) hold fun b hb => ?_)
      obtain ⟨task, htask, _⟩ := (hpress htasks).mp hb
      exact absurd htask (by simp)
  · rcases htakes with ⟨hends, hsame⟩ | ⟨rs, k, hrest, hk, hfree, htaken⟩
    · obtain ⟨hpage, htasks⟩ := hend hends
      refine hcarry htasks (by simp) (h.same (hpage ▸ hsame) fun b => iff_of_false (fun hb => ?_) (hold b))
      obtain ⟨task, htask, _⟩ := (hpress htasks).mp hb
      exact absurd htask (by simp)
    · obtain ⟨hpage, htasks⟩ := hawait hrest
      refine hcarry htasks ?_ (h.taken hfree (hpage ▸ htaken) hold fun b => ?_)
      · rintro task ⟨⟩
        unfold Waiting.Holds
        rw [hsome]
        exact hk
      · rw [hpress htasks]
        simp [hsome, eq_comm]

omit [DecidableEq B] in
/-- A turn counts no press. -/
theorem Tab.go_started {cause : G} {p : Async σ Req Ans ε Unit} :
    (tab.go t cause p).started = tab.started := by
  unfold Tab.go
  split <;> rfl

/-- Task `t` goes on, or ends and has freed its button then. -/
theorem Tab.Locked.resume (h : tab.Locked disabled button) (t : Nat) (x : Except ε (List Ans)) :
    (tab.resume t x).Locked disabled button := by
  unfold Tab.resume
  split
  · next task ht =>
      have hold : ∀ b, tab.Presses button t b ↔ button task.cause = some b := by
        intro b
        unfold Tab.Presses
        rw [ht]
        simp
      refine h.go rfl rfl (fun u hu => ?_) ?_
      · rw [Tab.go_started] at hu
        refine ⟨hu, fun hut => ?_⟩
        subst hut
        exact absurd (ht.symm.trans (h.unstarted u hu)) (by simp)
      · have hholds := h.holds t task ht
        unfold Waiting.Holds at hholds
        cases hb : button task.cause with
        | none =>
            rw [hb] at hholds
            exact Or.inl ⟨rfl, hholds x, fun b hpress => by simp [(hold b).mp hpress] at hb⟩
        | some b₀ =>
            rw [hb] at hholds
            refine Or.inr ⟨b₀, rfl, Or.inl ⟨hholds x, fun b => ?_⟩⟩
            rw [hold b, hb]
            simp [eq_comm]
  · exact h

/-- A gesture. -/
theorem Tab.Locked.start (h : tab.Locked disabled button) {cause : G}
    {p : Async σ Req Ans ε Unit} (hp : p.Minds disabled (button cause)) :
    (tab.start cause p).Locked disabled button := by
  have hold : ∀ b, ¬ tab.Presses button tab.started b := by
    rintro b ⟨task, htask, _⟩
    exact absurd (htask.symm.trans (h.unstarted _ (Nat.le_refl _))) (by simp)
  refine h.go rfl rfl (fun u hu => ?_) ?_
  · change tab.started + 1 ≤ u at hu
    exact ⟨Nat.le_of_succ_le hu, Nat.ne_of_gt hu⟩
  · cases hb : button cause with
    | none =>
        rw [hb] at hp
        exact Or.inl ⟨rfl, hp, hold⟩
    | some b₀ =>
        rw [hb] at hp
        exact Or.inr ⟨b₀, rfl, Or.inr ⟨hp tab.page, hold⟩⟩

namespace Net
variable {presses : Nat → G → Prop} {serves : Req → D → Except ε Ans → D → Prop}
variable {others : D → D → Prop} {handler : G → Async σ Req Ans ε Unit} {w w' : Net G σ Req Ans ε D}

def Locked (disabled : σ → B → Bool) (button : G → Option B) (w : Net G σ Req Ans ε D) : Prop :=
  ∀ i, (w.tabs i).Locked disabled button

/-- Each page has its own buttons. -/
theorem Locked.onTab {i : Nat} {f : Tab G σ Req Ans ε → Tab G σ Req Ans ε}
    (h : w.Locked disabled button) (hf : (f (w.tabs i)).Locked disabled button) :
    (w.onTab i f).Locked disabled button := by
  intro k
  show (Function.update w.tabs i (f (w.tabs i)) k).Locked disabled button
  by_cases hk : k = i
  · subst hk
    rw [Function.update_self]
    exact hf
  · rw [Function.update_of_ne hk]
    exact h k

/-- **Who takes a button with him is alone with it**, whatever happens. -/
theorem Run.locked (hminds : ∀ g, (handler g).Minds disabled (button g))
    (h : w.Locked disabled button) (hrun : Run presses serves others handler w w') :
    w'.Locked disabled button := by
  induction hrun with
  | refl => exact h
  | tail _ hm ih =>
      cases hm with
      | press i g hg => exact ih.onTab ((ih i).start (hminds g))
      | @serve i t j r a d hr hs =>
          exact ih.onTab (f := fun tab => tab.put t j (.answered r a)) (ih i).put
      | @keep i t j r a hr => exact ih.onTab (f := fun tab => tab.put t j (.kept r a)) (ih i).put
      | resume i t ht hkept => exact ih.onTab ((ih i).resume ..)
      | fail i t j hr => exact ih.onTab ((ih i).resume ..)
      | lose i t j e hp hopen => exact ih.onTab ((ih i).resume ..)
      | other hother => exact ih

end Net

end

end Procurement.Framework
