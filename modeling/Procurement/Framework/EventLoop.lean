/-
  Procurement.Framework.EventLoop
  ───────────────────────────────
  **PAGES AROUND A SERVER.**

  An async function runs without a break to its next `await`.  The requests that it
  awaits are handled by the server, one by one and some time; their answers arrive some
  later time, if they arrive.  Meanwhile the page runs other functions, and the server
  handles other requests.

  What a function finds out about the server is true when it is answered.  It may rely
  on it behind its next `await` when it stays true.  So `Upholds` is read at a state of
  the server: where the function awaits, it must go on from every later state, with what
  the answers tell of that state.

      upholds_bind, upholds_tryCatch, upholds_lastly — how the judgement is put together
      Net.Run.upholds — functions that uphold it alone uphold it side by side
-/
import Mathlib.Data.List.Forall2
import Mathlib.Logic.Function.Basic
import Mathlib.Logic.Relation

namespace Procurement.Framework

/-! ## §1. Async functions. -/

/-- An async function of a page `σ`, which awaits the answers `Ans` of requests `Req`. -/
inductive Async (σ Req Ans ε α : Type) : Type where
  | ret (a : α)
  | throw (e : ε)
  | get (k : σ → Async σ Req Ans ε α)
  | set (f : σ → σ) (k : Async σ Req Ans ε α)
  /-- `await Promise.all(rs)`: the answers, or the first failure. -/
  | await (rs : List Req) (k : Except ε (List Ans) → Async σ Req Ans ε α)

variable {σ Req Ans ε α β : Type}

namespace Async

def bind : Async σ Req Ans ε α → (α → Async σ Req Ans ε β) → Async σ Req Ans ε β
  | .ret a, f => f a
  | .throw e, _ => .throw e
  | .get k, f => .get fun s => (k s).bind f
  | .set g k, f => .set g (k.bind f)
  | .await rs k, f => .await rs fun x => (k x).bind f

instance : Monad (Async σ Req Ans ε) where
  pure := .ret
  bind := bind

/-- `try … catch` -/
def tryCatch : Async σ Req Ans ε α → (ε → Async σ Req Ans ε α) → Async σ Req Ans ε α
  | .ret a, _ => .ret a
  | .throw e, h => h e
  | .get k, h => .get fun s => (k s).tryCatch h
  | .set g k, h => .set g (k.tryCatch h)
  | .await rs k, h => .await rs fun x => (k x).tryCatch h

/-- `try … finally` -/
def lastly : Async σ Req Ans ε α → Async σ Req Ans ε Unit → Async σ Req Ans ε α
  | .ret a, f => f.bind fun _ => .ret a
  | .throw e, f => f.bind fun _ => .throw e
  | .get k, f => .get fun s => (k s).lastly f
  | .set g k, f => .set g (k.lastly f)
  | .await rs k, f => .await rs fun x => (k x).lastly f

def read : Async σ Req Ans ε σ := .get .ret

def modify (f : σ → σ) : Async σ Req Ans ε Unit := .set f (.ret ())

/-- `await Promise.all(rs)` -/
def all (rs : List Req) : Async σ Req Ans ε (List Ans) :=
  .await rs fun
    | .ok as => .ret as
    | .error e => .throw e

/-- To the next `await`, or to the end. -/
def turn : Async σ Req Ans ε α → σ → Async σ Req Ans ε α × σ
  | .get k, s => (k s).turn s
  | .set f k, s => k.turn (f s)
  | p, s => (p, s)

end Async

/-! ## §2. Pages and the server. -/

/-- What has become of an awaited request. -/
inductive Promise (Req Ans ε : Type) where
  | sent (r : Req)
  | answered (r : Req) (a : Except ε Ans)
  | kept (r : Req) (a : Ans)

def Promise.request : Promise Req Ans ε → Req
  | .sent r => r
  | .answered r _ => r
  | .kept r _ => r

def Promise.value : Promise Req Ans ε → Option Ans
  | .kept _ a => some a
  | _ => none

/-- A function at an `await`, and the gesture that has called it. -/
structure Waiting (G σ Req Ans ε : Type) where
  cause : G
  promises : List (Promise Req Ans ε)
  rest : Except ε (List Ans) → Async σ Req Ans ε Unit

structure Tab (G σ Req Ans ε : Type) where
  page : σ
  tasks : Nat → Option (Waiting G σ Req Ans ε)
  started : Nat

variable {G D : Type}

namespace Tab

/-- Task `t` runs to its next `await`, or to its end. -/
def go (tab : Tab G σ Req Ans ε) (t : Nat) (cause : G) (p : Async σ Req Ans ε Unit) :
    Tab G σ Req Ans ε :=
  match p.turn tab.page with
  | (.await rs k, s) =>
      { tab with page := s, tasks := Function.update tab.tasks t (some ⟨cause, rs.map .sent, k⟩) }
  | (_, s) => { tab with page := s, tasks := Function.update tab.tasks t none }

/-- A new task. -/
def start (tab : Tab G σ Req Ans ε) (cause : G) (p : Async σ Req Ans ε Unit) :
    Tab G σ Req Ans ε :=
  { tab.go tab.started cause p with started := tab.started + 1 }

def promise (tab : Tab G σ Req Ans ε) (t j : Nat) : Option (Promise Req Ans ε) :=
  (tab.tasks t).bind fun task => task.promises[j]?

/-- Another promise in the place of promise `j`. -/
def put (tab : Tab G σ Req Ans ε) (t j : Nat) (p : Promise Req Ans ε) : Tab G σ Req Ans ε :=
  { tab with
    tasks := Function.update tab.tasks t
      ((tab.tasks t).map fun task => { task with promises := task.promises.set j p }) }

/-- What task `t` has awaited is settled. -/
def resume (tab : Tab G σ Req Ans ε) (t : Nat) (x : Except ε (List Ans)) : Tab G σ Req Ans ε :=
  match tab.tasks t with
  | some task => tab.go t task.cause (task.rest x)
  | none => tab

end Tab

structure Net (G σ Req Ans ε D : Type) where
  server : D
  tabs : Nat → Tab G σ Req Ans ε

namespace Net

/-- Only tab `i` changes. -/
def onTab (w : Net G σ Req Ans ε D) (i : Nat) (f : Tab G σ Req Ans ε → Tab G σ Req Ans ε) :
    Net G σ Req Ans ε D :=
  { w with tabs := Function.update w.tabs i (f (w.tabs i)) }

/-- One event: a gesture, of those that `presses` has for this tab; a request is handled;
its answer arrives, and it is a good one, or it is not, or it does not arrive; a task has all
it has awaited; or something that has nothing to do with the tabs. -/
inductive Move (presses : Nat → G → Prop) (serves : Req → D → Except ε Ans → D → Prop)
    (others : D → D → Prop) (handler : G → Async σ Req Ans ε Unit) (w : Net G σ Req Ans ε D) :
    Net G σ Req Ans ε D → Prop where
  | press (i : Nat) (g : G) (hg : presses i g) :
      Move presses serves others handler w (w.onTab i fun tab => tab.start g (handler g))
  | serve (i t j : Nat) {r : Req} {a : Except ε Ans} {d : D}
      (hr : (w.tabs i).promise t j = some (.sent r)) (h : serves r w.server a d) :
      Move presses serves others handler w
        { w.onTab i fun tab => tab.put t j (.answered r a) with server := d }
  | keep (i t j : Nat) {r : Req} {a : Ans}
      (hr : (w.tabs i).promise t j = some (.answered r (.ok a))) :
      Move presses serves others handler w (w.onTab i fun tab => tab.put t j (.kept r a))
  | resume (i t : Nat) {task : Waiting G σ Req Ans ε} {as : List Ans}
      (ht : (w.tabs i).tasks t = some task)
      (hkept : task.promises.map Promise.value = as.map some) :
      Move presses serves others handler w (w.onTab i fun tab => tab.resume t (.ok as))
  | fail (i t j : Nat) {r : Req} {e : ε}
      (hr : (w.tabs i).promise t j = some (.answered r (.error e))) :
      Move presses serves others handler w (w.onTab i fun tab => tab.resume t (.error e))
  | lose (i t j : Nat) (e : ε) {p : Promise Req Ans ε} (hp : (w.tabs i).promise t j = some p)
      (hopen : p.value = none) :
      Move presses serves others handler w (w.onTab i fun tab => tab.resume t (.error e))
  | other {d : D} (h : others w.server d) :
      Move presses serves others handler w { w with server := d }

abbrev Run (presses : Nat → G → Prop) (serves : Req → D → Except ε Ans → D → Prop)
    (others : D → D → Prop) (handler : G → Async σ Req Ans ε Unit) :
    Net G σ Req Ans ε D → Net G σ Req Ans ε D → Prop :=
  Relation.ReflTransGen (Move presses serves others handler)

end Net

/-! ## §3. What a function may rely on. -/

/-- Which states of the server come behind which, what a page may show at a state, and
what the answer to a request that was sent at one state tells about another. -/
structure Reliance (σ Req Ans D : Type) where
  later : D → D → Prop
  shows : σ → D → Prop
  told : D → Req → Ans → D → Prop

/-- What is shown and told stays true. -/
structure Reliance.Lawful (K : Reliance σ Req Ans D) : Prop where
  refl : ∀ d, K.later d d
  trans : ∀ {d d' d''}, K.later d d' → K.later d' d'' → K.later d d''
  shows_later : ∀ {s d d'}, K.shows s d → K.later d d' → K.shows s d'
  told_later : ∀ {d₀ r a d d'}, K.told d₀ r a d → K.later d d' → K.told d₀ r a d'

/-- From the state `d` of the server on, the function writes what the page may show, and
returns with `Q` or throws with `R`. -/
def Async.Upholds (K : Reliance σ Req Ans D) :
    Async σ Req Ans ε α → (α → D → Prop) → (ε → D → Prop) → D → Prop
  | .ret a, Q, _, d => Q a d
  | .throw e, _, R, d => R e d
  | .get k, Q, R, d => ∀ s, K.shows s d → (k s).Upholds K Q R d
  | .set f k, Q, R, d => (∀ s, K.shows s d → K.shows (f s) d) ∧ k.Upholds K Q R d
  | .await rs k, Q, R, d => ∀ d', K.later d d' →
      (∀ e, (k (.error e)).Upholds K Q R d')
        ∧ ∀ as, List.Forall₂ (fun r a => K.told d r a d') rs as → (k (.ok as)).Upholds K Q R d'

namespace Async

variable {K : Reliance σ Req Ans D} {p : Async σ Req Ans ε α} {Q : α → D → Prop} {R : ε → D → Prop}
  {d d' : D}

@[simp] theorem upholds_ret {a : α} : (Async.ret a : Async σ Req Ans ε α).Upholds K Q R d ↔ Q a d :=
  Iff.rfl

theorem upholds_bind {f : α → Async σ Req Ans ε β} {Q : β → D → Prop} :
    (p >>= f).Upholds K Q R d ↔ p.Upholds K (fun a d => (f a).Upholds K Q R d) R d := by
  induction p generalizing d with
  | ret a => exact Iff.rfl
  | throw e => exact Iff.rfl
  | get k ih => exact forall_congr' fun s => imp_congr_right fun _ => ih s
  | set g k ih => exact and_congr_right fun _ => ih
  | await rs k ih =>
      refine forall_congr' fun d' => imp_congr_right fun _ => and_congr ?_ ?_
      · exact forall_congr' fun e => ih (.error e)
      · exact forall_congr' fun as => imp_congr_right fun _ => ih (.ok as)

theorem upholds_tryCatch {h : ε → Async σ Req Ans ε α} :
    (p.tryCatch h).Upholds K Q R d ↔ p.Upholds K Q (fun e d => (h e).Upholds K Q R d) d := by
  induction p generalizing d with
  | ret a => exact Iff.rfl
  | throw e => exact Iff.rfl
  | get k ih => exact forall_congr' fun s => imp_congr_right fun _ => ih s
  | set g k ih => exact and_congr_right fun _ => ih
  | await rs k ih =>
      refine forall_congr' fun d' => imp_congr_right fun _ => and_congr ?_ ?_
      · exact forall_congr' fun e => ih (.error e)
      · exact forall_congr' fun as => imp_congr_right fun _ => ih (.ok as)

/-- What comes last comes in both cases. -/
theorem upholds_lastly {f : Async σ Req Ans ε Unit} :
    (p.lastly f).Upholds K Q R d ↔ p.Upholds K (fun a d => f.Upholds K (fun _ => Q a) R d)
      (fun e d => f.Upholds K (fun _ => R e) R d) d := by
  induction p generalizing d with
  | ret a => exact upholds_bind
  | throw e => exact upholds_bind
  | get k ih => exact forall_congr' fun s => imp_congr_right fun _ => ih s
  | set g k ih => exact and_congr_right fun _ => ih
  | await rs k ih =>
      refine forall_congr' fun d' => imp_congr_right fun _ => and_congr ?_ ?_
      · exact forall_congr' fun e => ih (.error e)
      · exact forall_congr' fun as => imp_congr_right fun _ => ih (.ok as)

/-- It may promise less. -/
theorem Upholds.imp {Q' : α → D → Prop} {R' : ε → D → Prop} (hK : K.Lawful)
    (h : p.Upholds K Q R d) (hQ : ∀ a d', K.later d d' → Q a d' → Q' a d')
    (hR : ∀ e d', K.later d d' → R e d' → R' e d') : p.Upholds K Q' R' d := by
  induction p generalizing d with
  | ret a => exact hQ a d (hK.refl d) h
  | throw e => exact hR e d (hK.refl d) h
  | get k ih => exact fun s hs => ih s (h s hs) hQ hR
  | set g k ih => exact ⟨h.1, ih h.2 hQ hR⟩
  | await rs k ih =>
      intro d₁ hd₁
      obtain ⟨herror, hok⟩ := h d₁ hd₁
      have hQ₁ : ∀ a d', K.later d₁ d' → Q a d' → Q' a d' :=
        fun a d' hd' => hQ a d' (hK.trans hd₁ hd')
      have hR₁ : ∀ e d', K.later d₁ d' → R e d' → R' e d' :=
        fun e d' hd' => hR e d' (hK.trans hd₁ hd')
      exact ⟨fun e => ih _ (herror e) hQ₁ hR₁, fun as has => ih _ (hok as has) hQ₁ hR₁⟩

end Async

/-! ## §4. Side by side. -/

def Promise.Told (K : Reliance σ Req Ans D) (d₀ d : D) : Promise Req Ans ε → Prop
  | .sent _ => True
  | .answered r (.ok a) => K.told d₀ r a d
  | .answered _ (.error _) => True
  | .kept r a => K.told d₀ r a d

/-- Whatever else its promises bring, the task goes on well, as it would have from the
state `d₀` at which it sent its requests. -/
structure Waiting.SoundFrom (K : Reliance σ Req Ans D) (task : Waiting G σ Req Ans ε) (d₀ d : D) :
    Prop where
  later : K.later d₀ d
  told : ∀ p ∈ task.promises, p.Told K d₀ d
  rest : (Async.await (task.promises.map Promise.request) task.rest).Upholds K
    (fun _ _ => True) (fun _ _ => True) d₀

def Waiting.Sound (K : Reliance σ Req Ans D) (task : Waiting G σ Req Ans ε) (d : D) : Prop :=
  ∃ d₀, task.SoundFrom K d₀ d

structure Tab.Sound (K : Reliance σ Req Ans D) (tab : Tab G σ Req Ans ε) (d : D) : Prop where
  page : K.shows tab.page d
  tasks : ∀ t task, tab.tasks t = some task → task.Sound K d

section
variable {K : Reliance σ Req Ans D} {tab : Tab G σ Req Ans ε} {d₀ d d' : D} {t j : Nat}

/-- Without a break nobody else comes in between. -/
theorem Async.Upholds.turn {p : Async σ Req Ans ε α} {Q : α → D → Prop} {R : ε → D → Prop}
    (h : p.Upholds K Q R d) {s : σ} (hs : K.shows s d) :
    K.shows (p.turn s).2 d ∧ (p.turn s).1.Upholds K Q R d := by
  induction p generalizing s with
  | get k ih => exact ih s (h s hs) hs
  | set f k ih => exact ih h.2 (h.1 s hs)
  | ret a => exact ⟨hs, h⟩
  | throw e => exact ⟨hs, h⟩
  | await rs k ih => exact ⟨hs, h⟩

theorem Promise.Told.later (hK : K.Lawful) {p : Promise Req Ans ε} (h : p.Told K d₀ d)
    (hd : K.later d d') : p.Told K d₀ d' := by
  cases p with
  | sent r => trivial
  | answered r a =>
      cases a with
      | ok a => exact hK.told_later h hd
      | error e => trivial
  | kept r a => exact hK.told_later h hd

theorem Tab.Sound.later (hK : K.Lawful) (h : tab.Sound K d) (hd : K.later d d') :
    tab.Sound K d' where
  page := hK.shows_later h.page hd
  tasks := fun t task ht => by
    obtain ⟨d₀, hsound⟩ := h.tasks t task ht
    exact ⟨d₀, hK.trans hsound.later hd, fun p hp => (hsound.told p hp).later hK hd, hsound.rest⟩

/-- A function that upholds it runs. -/
theorem Tab.Sound.go (hK : K.Lawful) (h : tab.Sound K d) {p : Async σ Req Ans ε Unit}
    (hp : p.Upholds K (fun _ _ => True) (fun _ _ => True) d) (t : Nat) (cause : G) :
    (tab.go t cause p).Sound K d := by
  obtain ⟨hpage, hrest⟩ := hp.turn h.page
  -- the other tasks are as they were
  have hothers : ∀ (x : Option (Waiting G σ Req Ans ε)),
      (∀ task, x = some task → task.Sound K d) →
        ∀ u task, Function.update tab.tasks t x u = some task → task.Sound K d := by
    intro x hx u task hu
    by_cases hut : u = t
    · subst hut
      rw [Function.update_self] at hu
      exact hx task hu
    · rw [Function.update_of_ne hut] at hu
      exact h.tasks u task hu
  unfold Tab.go
  split
  · next rs k s heq =>
      rw [heq] at hpage hrest
      refine ⟨hpage, hothers _ ?_⟩
      rintro task ⟨⟩
      refine ⟨d, hK.refl d, fun p hp => ?_, ?_⟩
      · obtain ⟨r, _, rfl⟩ := List.mem_map.mp hp
        trivial
      · have hrequests : (rs.map (Promise.sent : Req → Promise Req Ans ε)).map Promise.request = rs := by
          rw [List.map_map]
          exact List.map_id rs
        show (Async.await ((rs.map Promise.sent).map Promise.request) k).Upholds K _ _ d
        rw [hrequests]
        exact hrest
  · next s heq =>
      rw [heq] at hpage
      exact ⟨hpage, hothers _ (by simp)⟩

/-- A promise changes, but not its request, and the state moves on. -/
theorem Tab.Sound.put (hK : K.Lawful) (h : tab.Sound K d) (hd : K.later d d')
    {p q : Promise Req Ans ε} (hp : tab.promise t j = some p) (hq : q.request = p.request)
    (htold : ∀ task d₀, tab.tasks t = some task → task.SoundFrom K d₀ d → q.Told K d₀ d') :
    (tab.put t j q).Sound K d' where
  page := hK.shows_later h.page hd
  tasks := by
    intro u task hu
    by_cases hut : u = t
    · subst hut
      obtain ⟨old, hold, hj⟩ := Option.bind_eq_some_iff.mp hp
      obtain ⟨d₀, hsound⟩ := h.tasks u old hold
      have htask : (Function.update tab.tasks u ((tab.tasks u).map fun task =>
          { task with promises := task.promises.set j q })) u = some task := hu
      rw [Function.update_self, hold, Option.map_some] at htask
      obtain rfl := Option.some.inj htask
      refine ⟨d₀, hK.trans hsound.later hd, fun r hr => ?_, ?_⟩
      · rcases List.mem_or_eq_of_mem_set hr with hr | rfl
        · exact (hsound.told r hr).later hK hd
        · exact htold old d₀ hold hsound
      · have hrequests : (old.promises.set j q).map Promise.request
            = old.promises.map Promise.request := by
          rw [List.map_set, hq]
          refine List.ext_getElem? fun i => ?_
          rw [List.getElem?_set, List.getElem?_map]
          split
          · next hji =>
              subst hji
              rw [hj, Option.map_some]
              simp [(List.getElem?_eq_some_iff.mp hj).1]
          · rfl
        show (Async.await ((old.promises.set j q).map Promise.request) old.rest).Upholds K _ _ d₀
        rw [hrequests]
        exact hsound.rest
    · refine (h.later hK hd).tasks u task ?_
      rw [← hu]
      exact (Function.update_of_ne hut _ _).symm

/-- What all promises have brought is what the requests are told. -/
theorem Waiting.SoundFrom.told_all {task : Waiting G σ Req Ans ε} (h : task.SoundFrom K d₀ d)
    {as : List Ans} (hkept : task.promises.map Promise.value = as.map some) :
    List.Forall₂ (fun r a => K.told d₀ r a d) (task.promises.map Promise.request) as := by
  have htold := h.told
  generalize task.promises = ps at hkept htold
  induction ps generalizing as with
  | nil =>
      obtain rfl : as = [] := by simpa using hkept.symm
      exact .nil
  | cons p ps ih =>
      cases as with
      | nil => exact absurd hkept (by simp)
      | cons a as =>
          obtain ⟨hp, hps⟩ := List.cons.inj hkept
          refine .cons ?_ (ih hps fun q hq => htold q (List.mem_cons_of_mem _ hq))
          have hthis := htold p (List.mem_cons_self ..)
          cases p with
          | kept r b =>
              obtain rfl : b = a := Option.some.inj hp
              exact hthis
          | sent r => exact absurd hp (by simp [Promise.value])
          | answered r x => exact absurd hp (by simp [Promise.value])

theorem Tab.Sound.resume (hK : K.Lawful) (h : tab.Sound K d) (t : Nat) {x : Except ε (List Ans)}
    (hx : ∀ task as, tab.tasks t = some task → x = .ok as →
      task.promises.map Promise.value = as.map some) : (tab.resume t x).Sound K d := by
  unfold Tab.resume
  split
  · next task ht =>
      obtain ⟨d₀, hsound⟩ := h.tasks t task ht
      obtain ⟨herror, hok⟩ := hsound.rest d hsound.later
      refine h.go hK ?_ t task.cause
      cases x with
      | error e => exact herror e
      | ok as => exact hok as (hsound.told_all (hx task as ht rfl))
  · exact h

end

namespace Net

section
variable {presses : Nat → G → Prop} {serves : Req → D → Except ε Ans → D → Prop}
variable {others : D → D → Prop} {handler : G → Async σ Req Ans ε Unit}
variable {K : Nat → Reliance σ Req Ans D}
variable {w w' : Net G σ Req Ans ε D}

/-- What the tabs rely on, the server does, and the gestures do. -/
structure Fair (presses : Nat → G → Prop) (serves : Req → D → Except ε Ans → D → Prop)
    (others : D → D → Prop) (handler : G → Async σ Req Ans ε Unit)
    (K : Nat → Reliance σ Req Ans D) : Prop where
  lawful : ∀ i, (K i).Lawful
  serves_later : ∀ i {r d a d'}, serves r d a d' → (K i).later d d'
  others_later : ∀ i {d d'}, others d d' → (K i).later d d'
  told : ∀ i {s d₀ r d a d'}, (K i).later d₀ d → (K i).shows s d → serves r d (.ok a) d' →
    (K i).told d₀ r a d'
  upholds : ∀ i g d, presses i g →
    (handler g).Upholds (K i) (fun _ _ => True) (fun _ _ => True) d

def Sound (K : Nat → Reliance σ Req Ans D) (w : Net G σ Req Ans ε D) : Prop :=
  ∀ i, (w.tabs i).Sound (K i) w.server

theorem Sound.onTab {i : Nat} {f : Tab G σ Req Ans ε → Tab G σ Req Ans ε} (h : w.Sound K)
    (hf : (f (w.tabs i)).Sound (K i) w.server) : (w.onTab i f).Sound K := by
  intro k
  show (Function.update w.tabs i (f (w.tabs i)) k).Sound (K k) w.server
  by_cases hk : k = i
  · subst hk
    rw [Function.update_self]
    exact hf
  · rw [Function.update_of_ne hk]
    exact h k

/-- **Every event keeps it.** -/
theorem Sound.move (hfair : Fair presses serves others handler K) (h : w.Sound K)
    (hm : Move presses serves others handler w w') : w'.Sound K := by
  cases hm with
  | press i g hg =>
      have hgo := (h i).go (hfair.lawful i) (hfair.upholds i g _ hg) (w.tabs i).started g
      exact h.onTab ⟨hgo.page, hgo.tasks⟩
  | @serve i t j r a d hr hserves =>
      -- the state moves on for every tab, and the one that asked hears of it
      have hlater : ∀ k, (K k).later w.server d := fun k => hfair.serves_later k hserves
      have hput : ((w.tabs i).put t j (.answered r a)).Sound (K i) d := by
        refine (h i).put (hfair.lawful i) (hlater i) hr rfl fun task d₀ _ hsound => ?_
        cases a with
        | ok a => exact hfair.told i hsound.later (h i).page hserves
        | error e => trivial
      intro k
      show (Function.update w.tabs i ((w.tabs i).put t j (.answered r a)) k).Sound (K k) d
      by_cases hk : k = i
      · subst hk
        rw [Function.update_self]
        exact hput
      · rw [Function.update_of_ne hk]
        exact (h k).later (hfair.lawful k) (hlater k)
  | @keep i t j r a hr =>
      obtain ⟨task, ht, hj⟩ := Option.bind_eq_some_iff.mp hr
      refine h.onTab (f := fun tab => tab.put t j (.kept r a))
        ((h i).put (hfair.lawful i) ((hfair.lawful i).refl _) hr rfl ?_)
      intro task' d₀ ht' hsound
      obtain rfl := Option.some.inj (ht.symm.trans ht')
      have htold : (Promise.answered r (.ok a)).Told (K i) d₀ w.server :=
        hsound.told _ (List.mem_of_getElem? hj)
      exact htold
  | resume i t ht hkept =>
      refine h.onTab ((h i).resume (hfair.lawful i) t fun task as ht' has => ?_)
      obtain rfl := Option.some.inj (ht.symm.trans ht')
      obtain rfl := Except.ok.inj has
      exact hkept
  | fail i t j hr => exact h.onTab ((h i).resume (hfair.lawful i) t fun _ _ _ has => nomatch has)
  | lose i t j e hp hopen =>
      exact h.onTab ((h i).resume (hfair.lawful i) t fun _ _ _ has => nomatch has)
  | other hother => exact fun k => (h k).later (hfair.lawful k) (hfair.others_later k hother)

/-- **What each function upholds alone, all of them uphold side by side.** -/
theorem Run.upholds (hfair : Fair presses serves others handler K) (h : w.Sound K)
    (hrun : Run presses serves others handler w w') : w'.Sound K := by
  induction hrun with
  | refl => exact h
  | tail _ hm ih => exact ih.move hfair hm

end

end Net

end Procurement.Framework
