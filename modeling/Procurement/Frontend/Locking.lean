/-
  Procurement.Frontend.Locking
  ────────────────────────────
  **ONE PRESS AT A TIME** (`withLoading`).

  A press of a button sends requests, some with a fresh key each, so a second press of
  the same button would do the same a second time.  `withLoading` is there against it.

      buttons_locked — a disabled button has one call, and a press of it does nothing
-/
import Procurement.Frontend.Browser

namespace Procurement

open Procurement.Framework

/-! ## §1. The functions of the page leave the buttons alone. -/

namespace Browser

abbrev Quiet {α : Type} (p : Async Screen Fetch Delivered String α) : Prop :=
  p.Quiet Screen.disabled

/-- What does not touch the buttons is quiet. -/
theorem quiet_modify {f : Screen → Screen} (hf : ∀ page, (f page).disabled = page.disabled) :
    Quiet (.modify f) :=
  ⟨hf, trivial⟩

/-- A toast touches no button. -/
theorem quiet_toast (t : Texts) (said : Said) : Quiet (toast t said) := quiet_modify fun _ => rfl

/-- A request touches no button. -/
theorem quiet_api (endpoint : Endpoint) (idempotent : Bool) : Quiet (api endpoint idempotent) := by
  refine Async.Quiet.bind (fun _ => trivial) fun page => ?_
  refine Async.Quiet.bind (quiet_modify fun _ => rfl) fun _ => ?_
  refine Async.Quiet.bind (Async.Quiet.all _) fun answers => ?_
  cases answers.head? <;> trivial

/-- `refresh` touches no button. -/
theorem quiet_refresh : Quiet refresh := by
  intro page
  dsimp only
  cases page.user with
  | none => trivial
  | some user =>
      refine Async.Quiet.bind (Async.Quiet.all _) fun answers => ?_
      cases listings answers with
      | none => trivial
      | some bodies => exact quiet_modify fun _ => rfl

theorem render_disabled (neg : NegotiationDetailOut) (page : Screen) :
    (render neg page).disabled = page.disabled := by
  unfold render
  cases page.user <;> rfl

/-- A panel brings buttons of its own, and touches no other. -/
theorem quiet_openNegotiation (t : Texts) (id : Id) : Quiet (openNegotiation t id) := by
  refine Async.Quiet.bind (quiet_modify fun _ => rfl) fun _ => ?_
  refine Async.Quiet.bind ?_ fun neg => ?_
  · refine Async.Quiet.tryCatch (Async.Quiet.bind (quiet_api _ _) fun _ => trivial) fun err => ?_
    exact Async.Quiet.bind (quiet_toast t _) fun _ => trivial
  · cases neg with
    | none => trivial
    | some neg =>
        dsimp only
        cases asDetail neg with
        | none => trivial
        | some neg => exact quiet_modify (render_disabled neg)

/-- A decision touches no button itself. -/
theorem quiet_postDecision (t : Texts) (id : Id) (act : Endpoint) : Quiet (postDecision t id act) :=
  Async.Quiet.bind (quiet_api act true) fun _ =>
    Async.Quiet.bind quiet_refresh fun _ => quiet_openNegotiation t id

/-- What the modal confirms touches no button. -/
theorem quiet_onConfirm (t : Texts) (amount : Amount) (message : String) (c : Confirm) :
    Quiet (onConfirm t amount message c) := by
  cases c with
  | offer requestId =>
      refine Async.Quiet.bind (quiet_api _ _) fun neg => ?_
      refine Async.Quiet.bind (quiet_toast _ _) fun _ => ?_
      refine Async.Quiet.bind quiet_refresh fun _ => ?_
      cases negotiationId neg with
      | none => trivial
      | some id => exact quiet_openNegotiation t id
  | counter id => exact Async.Quiet.bind (quiet_postDecision _ _ _) fun _ => quiet_toast _ _

/-- The form of the modal touches no button itself. -/
theorem quiet_confirm (t : Texts) (amount : Amount) (message : String) :
    Quiet (confirm t amount message) := by
  intro page
  dsimp only
  split
  · trivial
  · exact quiet_onConfirm t amount message _

/-- `boot` touches no button. -/
theorem quiet_boot : Quiet boot := by
  refine Async.Quiet.bind (quiet_api _ _) fun user => ?_
  cases asUser user with
  | none => trivial
  | some user => exact Async.Quiet.bind (quiet_modify fun _ => rfl) fun _ => quiet_refresh

/-- Closing the modal touches no button. -/
theorem quiet_closeModal : Quiet closeModal := quiet_modify fun _ => rfl

/-- Reporting in the modal touches no button. -/
theorem quiet_modalError (msg : String) : Quiet (modalError msg) := quiet_modify fun _ => rfl

/-- What is written back is what `disabled` reads. -/
theorem disabled_disable (b : Element) (v : Bool) (page : Screen) :
    (page.disable b v).disabled = Function.update page.disabled b v :=
  rfl

/-- A function behind a button, which reports what it throws. -/
theorem takes_withLoading {b : Element} {p : Js Unit} {report : String → Js Unit} (hp : Quiet p)
    (hreport : ∀ err, Quiet (report err)) (page : Screen) :
    (withLoading b (p.tryCatch report)).Takes Screen.disabled b page :=
  Async.takes_locked disabled_disable (hp.tryCatch hreport) page

end Browser

/-- Nothing is called. -/
theorem takes_ret (b : Element) (page : Screen) :
    (Async.ret () : Js Unit).Takes Screen.disabled b page :=
  Or.inl ⟨trivial, rfl⟩

theorem takes_get {b : Element} {k : Screen → Js Unit} {page : Screen}
    (h : (k page).Takes Screen.disabled b page) :
    (Async.get k : Js Unit).Takes Screen.disabled b page :=
  h

/-- Each gesture minds its button. -/
theorem Gesture.minds (t : Texts) (g : Gesture) :
    (g.handler t).Minds Screen.disabled g.button := by
  cases g with
  | boot => exact Browser.quiet_boot
  | login payload =>
      refine Browser.takes_withLoading (Async.Quiet.bind (Browser.quiet_api _ _) fun answer => ?_)
        fun err => Browser.quiet_toast t _
      cases Browser.asToken answer with
      | none => trivial
      | some out =>
          -- the token is set, and boot runs inside withLoading
          exact Async.Quiet.bind (Browser.quiet_modify fun _ => rfl) fun _ => Browser.quiet_boot
  | register data =>
      exact Browser.takes_withLoading
        (Async.Quiet.bind (Browser.quiet_api _ _) fun _ => Browser.quiet_toast _ _)
        fun err => Browser.quiet_toast t _
  | createRequest data =>
      refine Browser.takes_withLoading (Async.Quiet.bind (Browser.quiet_api _ _) fun _ => ?_)
        fun err => Browser.quiet_toast t _
      exact Async.Quiet.bind (Browser.quiet_toast _ _) fun _ => Browser.quiet_refresh
  | openNegotiation id =>
      intro page
      dsimp only
      split
      · exact Browser.quiet_openNegotiation t id
      · trivial
  | makeOffer requestId =>
      intro page
      dsimp only
      split
      · exact Browser.quiet_modify fun _ => rfl
      · trivial
  | accept rendering =>
      refine fun page => takes_get ?_
      split
      · exact Browser.takes_withLoading (Async.Quiet.bind (Browser.quiet_postDecision _ _ _)
          fun _ => Browser.quiet_toast _ _) (fun err => Browser.quiet_toast t _) page
      · exact takes_ret _ page
  | counter rendering =>
      intro page
      dsimp only
      split
      · exact Browser.quiet_modify fun _ => rfl
      · trivial
  | reject rendering =>
      refine fun page => takes_get ?_
      split
      · exact Browser.takes_withLoading (Async.Quiet.bind (Browser.quiet_postDecision _ _ _)
          fun _ => Browser.quiet_toast _ _) (fun err => Browser.quiet_toast t _) page
      · exact takes_ret _ page
  | cancel => exact Browser.quiet_closeModal
  | submit amount message =>
      intro page
      show (Browser.submit t amount message).Takes Screen.disabled .confirm page
      unfold Browser.submit
      split
      · -- an amount that is refused is told in the modal, and nothing is posted
        exact Or.inl ⟨trivial, rfl⟩
      · next amount _ =>
          exact Browser.takes_withLoading
            (Async.Quiet.bind (Browser.quiet_confirm t amount message) fun _ => Browser.quiet_closeModal)
            Browser.quiet_modalError page

/-! ## §2. Presses. -/

/-- No button is pressed yet. -/
theorem opened_locked (s : Server) (token : Nat → Option String) (uuids : Nat → Nat → String) :
    (s.opened token uuids).Locked Screen.disabled Gesture.button := by
  refine fun i => ⟨fun _ _ => rfl, ?_, fun b => ⟨?_, ?_⟩, ?_⟩
  · rintro t task ⟨⟩
  · rintro ⟨⟩
  · rintro ⟨t, task, ⟨⟩, _⟩
  · rintro t u b ⟨task, ⟨⟩, _⟩

/-- A call of a disabled button ends at once. -/
theorem locked_ends {b : Element} {p : Js Unit} {page : Screen} (hd : page.disabled b = true) :
    ((Browser.withLoading b p).turn page).1.Ends := by
  show ((if page.disabled b then .ret () else _ : Js Unit).turn page).1.Ends
  rw [if_pos hd]
  trivial

/-- So does a press of it. -/
theorem Gesture.ends {g : Gesture} {b : Element} (t : Texts) (hb : g.button = some b)
    {page : Screen} (hd : page.disabled b = true) : ((g.handler t).turn page).1.Ends := by
  cases g with
  | register data =>
      obtain rfl := Option.some.inj hb
      exact locked_ends hd
  | login payload =>
      obtain rfl := Option.some.inj hb
      exact locked_ends hd
  | createRequest data =>
      obtain rfl := Option.some.inj hb
      exact locked_ends hd
  | accept rendering =>
      obtain rfl := Option.some.inj hb
      unfold Gesture.handler Async.turn
      dsimp only
      split
      · exact locked_ends hd
      · trivial
  | reject rendering =>
      obtain rfl := Option.some.inj hb
      unfold Gesture.handler Async.turn
      dsimp only
      split
      · exact locked_ends hd
      · trivial
  | submit amount message =>
      obtain rfl := Option.some.inj hb
      show ((Browser.submit t amount message).turn page).1.Ends
      unfold Browser.submit
      split
      · trivial
      · exact locked_ends hd
  | boot => exact absurd hb (by simp [Gesture.button])
  | openNegotiation id => exact absurd hb (by simp [Gesture.button])
  | makeOffer requestId => exact absurd hb (by simp [Gesture.button])
  | counter rendering => exact absurd hb (by simp [Gesture.button])
  | cancel => exact absurd hb (by simp [Gesture.button])

/-- **A button that is disabled has one call**, which waits, and an enabled one has none;
a press of a disabled one calls nothing.  So it is, whatever is pressed, answered, delayed
or lost, on any number of pages: no button is pressed twice at a time, and none stays
disabled behind its call. -/
theorem buttons_locked (S : Site) (t : Texts) {presses : Nat → Gesture → Prop} {s : Server}
    {token : Nat → Option String} {uuids : Nat → Nat → String} {w : Browsing}
    (hrun : BrowsingRun S t presses (s.opened token uuids) w) (i : Nat) :
    (∀ b, (w.tabs i).page.disabled b = true
        ↔ ∃ k, (w.tabs i).Presses Gesture.button k b)
      ∧ (∀ j k b, (w.tabs i).Presses Gesture.button j b →
          (w.tabs i).Presses Gesture.button k b → j = k)
      ∧ ∀ g b, g.button = some b → (w.tabs i).page.disabled b = true →
          ((w.tabs i).start g (g.handler t)).tasks = (w.tabs i).tasks := by
  -- every gesture minds its button alone, so all of them do together
  have hlocked := Net.Run.locked (Gesture.minds t) (opened_locked s token uuids) hrun i
  refine ⟨hlocked.disabled_iff, fun _ _ _ => hlocked.alone, fun g b hb hd => ?_⟩
  show ((w.tabs i).go (w.tabs i).started g (g.handler t)).tasks = _
  rw [Tab.go_ends (g.ends t hb hd)]
  -- there was no task of this number
  exact Function.update_eq_self_iff.mpr (hlocked.unstarted _ (Nat.le_refl _)).symm

/-- The form of a request is sent, and so is that of a login; both are pressed again before
the answers. -/
theorem buttons_locked_pressed : ∃ w : Browsing,
    BrowsingRun clearSite plainTexts (fun _ _ => True)
        (Server.boot.opened (fun _ => some "token") fun _ n => toString n) w
      ∧ (∃ k, (w.tabs 0).Presses Gesture.button k .requestForm)
      ∧ (∃ k, (w.tabs 0).Presses Gesture.button k .loginForm)
      ∧ ((w.tabs 0).start (.createRequest none)
          ((Gesture.createRequest none).handler plainTexts)).tasks = (w.tabs 0).tasks
      ∧ ((w.tabs 0).start (.login none)
          ((Gesture.login none).handler plainTexts)).tasks = (w.tabs 0).tasks := by
  have hrun : BrowsingRun clearSite plainTexts (fun _ _ => True)
      (Server.boot.opened (fun _ => some "token") fun _ n => toString n) _ :=
    (Relation.ReflTransGen.single (.press 0 (.createRequest none) trivial)).tail
      (.press 0 (.login none) trivial)
  obtain ⟨hiff, _, hnothing⟩ := buttons_locked clearSite plainTexts hrun 0
  exact ⟨_, hrun, (hiff _).mp rfl, (hiff _).mp rfl, hnothing _ _ rfl rfl, hnothing _ _ rfl rfl⟩

end Procurement
