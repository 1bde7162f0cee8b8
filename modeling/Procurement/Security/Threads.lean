/-
  Procurement.Security.Threads
  ────────────────────────────
  **THE LIMITER UNDER CONCURRENT CALLS** (`ratelimit.py`).

  `rate_limit_login` reads the monotonic clock first and takes the lock later.
  Each call is a thread with these two steps, and the steps of all threads come
  in any order, so that sections may run in an order that is not the order of
  their readings.

  A deque is then no longer sorted, which does no harm: it keeps too much.  What
  does harm is a section whose reading is older than one that has already
  pruned the deque.  Readings that count for it may be forgotten, and
  `limit_exceeded` is such a run.
-/
import Procurement.Framework.Conditional
import Procurement.Security.RateLimit

namespace Procurement

open Procurement.Framework

/-! ## §1. Threads. -/

/-- Where a call of `rate_limit_login` stands. -/
inductive CallPhase where
  /-- before `now = time.monotonic()` -/
  | arrived
  /-- before `with _lock:` -/
  | timed (now : ℚ)
  | ended
  deriving DecidableEq, Repr

/-- The reading that a call takes into its section. -/
def CallPhase.reading : CallPhase → Option ℚ
  | .timed now => some now
  | .arrived | .ended => none

/-- A section that has run. -/
structure Section (ι : Type) where
  thread : ι
  now : ℚ
  outcome : Except LimiterError Unit

/-- The process: its clock, `_hits`, its threads, and the sections in the order
they have run. -/
structure Limiter (ι : Type) where
  clock : ℚ
  hits : Hits
  phase : ι → CallPhase
  sections : List (Section ι)

inductive LimiterEvent (ι : Type) where
  /-- The clock moves on. -/
  | tick (clock : ℚ)
  | readClock (thread : ι)
  | enter (thread : ι)

section
variable {ι : Type} [DecidableEq ι] (settings : Settings) (request : ι → LoginRequest)

/-- One step of one thread, or of the clock.  A step that a thread cannot take
does nothing. -/
def Limiter.step (s : Limiter ι) : LimiterEvent ι → Limiter ι
  | .tick clock => { s with clock := max s.clock clock }
  | .readClock i =>
      match s.phase i with
      | .arrived => { s with phase := Function.update s.phase i (.timed s.clock) }
      | .timed _ | .ended => s
  | .enter i =>
      match s.phase i with
      | .timed now =>
          let (outcome, hits) := limitLocked .float settings (clientIp (request i)) now s.hits
          { s with
            hits
            phase := Function.update s.phase i .ended
            sections := s.sections ++ [{ thread := i, now, outcome }] }
      | .arrived | .ended => s

/-- Nobody has called yet. -/
def Limiter.idle (clock : ℚ) : Limiter ι := ⟨clock, noHits, fun _ => .arrived, []⟩

/-- **A run**: the steps of all threads, in any order. -/
def Limiter.run (clock : ℚ) (schedule : List (LimiterEvent ι)) : Limiter ι :=
  schedule.foldl (Limiter.step settings request) (.idle clock)

namespace Limiter

/-- The readings of the admitted calls of a key, in the order of their sections. -/
def admitted (s : Limiter ι) (k : String) : List ℚ :=
  (s.sections.filter fun x => clientIp (request x.thread) = k ∧ x.outcome = .ok ()).map Section.now

/-- Those that have left the deque of the key. -/
def forgotten (s : Limiter ι) (k : String) : List ℚ :=
  (s.admitted request k).take ((s.admitted request k).length - (s.hits k).length)

/-- In the interval of the window's length that starts at `a`, at most the limit of
the calls of each key have been admitted. -/
def WithinLimit (s : Limiter ι) : Prop :=
  ∀ k a, ((inInterval id settings.window a (s.admitted request k)).length : ℤ)
    ≤ settings.loginRateLimit

/-- A section that finds room finds all readings that count for it: those that have
left its deque are further than the window from its own. -/
def Remembers (s : Limiter ι) (e : LimiterEvent ι) : Prop :=
  match e with
  | .tick _ | .readClock _ => True
  | .enter i =>
      ∀ now ∈ (s.phase i).reading,
        ((bucketAt settings (clientIp (request i)) now s.hits).length : ℤ) < settings.loginRateLimit →
          ∀ t ∈ s.forgotten request (clientIp (request i)),
            settings.window < now - t ∨ settings.window < t - now

instance (s : Limiter ι) (e : LimiterEvent ι) : Decidable (s.Remembers settings request e) :=
  match e with
  | .tick _ | .readClock _ => isTrue trivial
  | .enter i =>
      inferInstanceAs (Decidable (∀ now ∈ (s.phase i).reading,
        ((bucketAt settings (clientIp (request i)) now s.hits).length : ℤ) < settings.loginRateLimit →
          ∀ t ∈ s.forgotten request (clientIp (request i)),
            settings.window < now - t ∨ settings.window < t - now))

end Limiter

end

/-! ## §2. One section. -/

namespace Limiter

variable {ι : Type} [DecidableEq ι] {settings : Settings} {request : ι → LoginRequest}

omit [DecidableEq ι] in
/-- A section leaves its reading where it is admitted, and nowhere else. -/
theorem admitted_section (s : Limiter ι) (x : Section ι) (hits : Hits) (phase : ι → CallPhase)
    (k : String) :
    admitted request { s with hits, phase, sections := s.sections ++ [x] } k
      = s.admitted request k
        ++ if clientIp (request x.thread) = k ∧ x.outcome = .ok () then [x.now] else [] := by
  unfold admitted
  rw [List.filter_append, List.map_append]
  congr 1
  by_cases h : clientIp (request x.thread) = k ∧ x.outcome = .ok ()
  · simp [h]
  · simp [h]

/-- The reading that the section of the thread would add for the key, if any. -/
def adds (settings : Settings) (request : ι → LoginRequest) (s : Limiter ι) (i : ι) (now : ℚ)
    (k : String) : List ℚ :=
  if clientIp (request i) = k
      ∧ ((bucketAt settings k now s.hits).length : ℤ) < settings.loginRateLimit then [now] else []

/-- **What a section does**: the deque of its key is pruned, and the same reading is
added to the deque and to the admitted ones. -/
theorem step_enter (settings : Settings) (request : ι → LoginRequest) (s : Limiter ι) {i : ι}
    {now : ℚ} (hi : s.phase i = .timed now) (k : String) :
    (step settings request s (.enter i)).admitted request k
        = s.admitted request k ++ adds settings request s i now k
      ∧ (step settings request s (.enter i)).hits k
        = (if clientIp (request i) = k then bucketAt settings k now s.hits else s.hits k)
          ++ adds settings request s i now k := by
  have hstep : step settings request s (.enter i)
      = { s with
          hits := (limitLocked .float settings (clientIp (request i)) now s.hits).2
          phase := Function.update s.phase i .ended
          sections := s.sections ++ [⟨i, now,
            (limitLocked .float settings (clientIp (request i)) now s.hits).1⟩] } := by
    simp only [step, hi]
  rw [hstep, admitted_section]
  unfold adds
  by_cases hroom : ((bucketAt settings (clientIp (request i)) now s.hits).length : ℤ)
      < settings.loginRateLimit
  · rw [limitLocked_of_lt _ _ _ _ _ hroom]
    by_cases hk : clientIp (request i) = k
    · subst hk
      simp [hroom]
    · simp [hk, Function.update_of_ne (Ne.symm hk)]
  · rw [limitLocked_of_le _ _ _ _ _ (not_lt.mp hroom)]
    by_cases hk : clientIp (request i) = k
    · subst hk
      simp [hroom]
    · simp [hk, Function.update_of_ne (Ne.symm hk)]

/-- The other steps do not touch deques or sections. -/
theorem step_other (settings : Settings) (request : ι → LoginRequest) (s : Limiter ι)
    {e : LimiterEvent ι}
    (he : ∀ i now, e = .enter i → s.phase i ≠ .timed now) :
    (step settings request s e).hits = s.hits
      ∧ (step settings request s e).sections = s.sections := by
  cases e with
  | tick clock => exact ⟨rfl, rfl⟩
  | readClock i =>
      cases hi : s.phase i with
      | arrived => simp only [step, hi, and_self]
      | timed now => simp only [step, hi, and_self]
      | ended => simp only [step, hi, and_self]
  | enter i =>
      cases hi : s.phase i with
      | timed now => exact absurd hi (he i now rfl)
      | arrived => simp only [step, hi, and_self]
      | ended => simp only [step, hi, and_self]

/-! ## §3. Runs. -/

/-- The invariant: a deque is what is left of the admitted readings when some have
been dropped from the front, and no interval has too many of them. -/
structure Sound (settings : Settings) (request : ι → LoginRequest) (s : Limiter ι) : Prop where
  suffix : ∀ k, s.hits k <:+ s.admitted request k
  within : s.WithinLimit settings request

omit [DecidableEq ι] in
/-- The admitted readings of a key: the forgotten ones, and its deque. -/
theorem Sound.split {s : Limiter ι} (h : s.Sound settings request) (k : String) :
    s.forgotten request k ++ s.hits k = s.admitted request k := by
  obtain ⟨old, hold⟩ := h.suffix k
  have hlen : (s.admitted request k).length - (s.hits k).length = old.length := by
    rw [← hold, List.length_append]
    omega
  unfold forgotten
  rw [hlen, ← hold, List.take_left]

omit [DecidableEq ι] in
theorem Sound.idle (request : ι → LoginRequest) (hlimit : 1 ≤ settings.loginRateLimit) (clock : ℚ) :
    (Limiter.idle clock).Sound settings request := by
  constructor
  · intro k
    exact List.nil_suffix
  · intro k a
    show (0 : ℤ) ≤ settings.loginRateLimit
    omega

/-- A section that finds all readings that count keeps every interval within the
limit. -/
theorem Sound.enter {s : Limiter ι} (h : s.Sound settings request) {i : ι} {now : ℚ}
    (hi : s.phase i = .timed now) (hr : s.Remembers settings request (.enter i)) :
    (step settings request s (.enter i)).Sound settings request := by
  have hspec := step_enter settings request s hi
  constructor
  · intro k
    rw [(hspec k).1, (hspec k).2, List.suffix_append_self_iff]
    by_cases hk : clientIp (request i) = k
    · rw [if_pos hk]
      exact (bucketAt_suffix settings k now s.hits).trans (h.suffix k)
    · rw [if_neg hk]
      exact h.suffix k
  · intro k a
    rw [(hspec k).1, inInterval_append, List.length_append]
    have hbefore := h.within k a
    unfold adds
    by_cases hin : clientIp (request i) = k
        ∧ ((bucketAt settings k now s.hits).length : ℤ) < settings.loginRateLimit
    · obtain ⟨rfl, hroom⟩ := hin
      rw [if_pos ⟨rfl, hroom⟩]
      by_cases hnow : a ≤ now ∧ now ≤ a + settings.window
      · -- those of the interval are all still in the pruned deque
        have hforgotten := hr now (by rw [hi]; rfl) hroom
        have hcount := inInterval_length_le (q := s.hits (clientIp (request i))) hforgotten
          hnow.1 hnow.2
        rw [h.split] at hcount
        have hone : (inInterval id settings.window a [now]).length = 1 := by
          simp [inInterval, hnow]
        unfold bucketAt at hroom
        omega
      · have hzero : (inInterval id settings.window a [now]).length = 0 := by
          simp [inInterval, hnow]
        omega
    · rw [if_neg hin]
      exact hbefore

/-- **The step lemma.** -/
theorem Sound.step {s : Limiter ι} {e : LimiterEvent ι} (h : s.Sound settings request)
    (hr : s.Remembers settings request e) : (Limiter.step settings request s e).Sound settings request := by
  by_cases he : ∃ i now, e = .enter i ∧ s.phase i = .timed now
  · obtain ⟨i, now, rfl, hi⟩ := he
    exact h.enter hi hr
  · obtain ⟨hhits, hsections⟩ := step_other settings request s
      (fun i now heq hi => he ⟨i, now, heq, hi⟩)
    have hadmitted : ∀ k, (Limiter.step settings request s e).admitted request k = s.admitted request k := by
      intro k
      unfold admitted
      rw [hsections]
    constructor
    · intro k
      rw [hhits, hadmitted]
      exact h.suffix k
    · intro k a
      rw [hadmitted]
      exact h.within k a

end Limiter

/-- **The limit under concurrent calls.**  In every run whose sections, where they
find room, find all readings that count for them, every interval of the window's
length has at most the limit of the admitted calls of each key: in every state
that the run reaches. -/
theorem concurrent_limit {ι : Type} [DecidableEq ι] (settings : Settings)
    (hlimit : 1 ≤ settings.loginRateLimit) (request : ι → LoginRequest) (clock : ℚ)
    (schedule : List (LimiterEvent ι))
    (h : Meeting (Limiter.step settings request) (Limiter.Remembers settings request)
      (.idle clock) schedule) :
    ∀ reached, reached <+: schedule →
      (Limiter.run settings request clock reached).WithinLimit settings request := by
  intro reached hp
  have hidle := Limiter.Sound.idle request hlimit clock
  exact (Meeting.invariant (fun s e hs he => hs.step he) hidle (h.of_prefix hp)).within

/-- Two attempts a minute: the second thread's section comes between the reading and
the section of the first. -/
theorem concurrent_limit_pair :
    (Limiter.run ⟨2, 60⟩ (fun _ : Bool => (loginFrom "10.0.0.9" none 0).request) 0
      [.readClock true, .tick 1, .readClock false, .enter false, .enter true]).WithinLimit ⟨2, 60⟩
      fun _ => (loginFrom "10.0.0.9" none 0).request :=
  concurrent_limit ⟨2, 60⟩ (by decide) _ 0 _ (by decide +kernel) _ (List.prefix_refl _)

/-- Four calls of one address, two attempts a minute.  The first call reads 0 and is
held up; calls at 1 and 2 are admitted; a call at 63 prunes both of them; then the first
call enters its section and finds room.  The minute from 0 has three admitted calls. -/
theorem limit_exceeded :
    ¬ ∀ (settings : Settings) (request : Fin 4 → LoginRequest) (clock : ℚ)
        (schedule : List (LimiterEvent (Fin 4))), 1 ≤ settings.loginRateLimit →
        (Limiter.run settings request clock schedule).WithinLimit settings request := by
  intro hall
  have hminute := hall ⟨2, 60⟩ (fun _ => (loginFrom "10.0.0.9" none 0).request) 0
    [.readClock 0, .tick 1, .readClock 1, .enter 1, .tick 2, .readClock 2, .enter 2,
      .tick 63, .readClock 3, .enter 3, .enter 0] (by decide) "10.0.0.9" 0
  have hthree : (inInterval id (Settings.window ⟨2, 60⟩) 0
      ((Limiter.run ⟨2, 60⟩ (fun _ => (loginFrom "10.0.0.9" none 0).request) 0
        [.readClock 0, .tick 1, .readClock 1, .enter 1, .tick 2, .readClock 2, .enter 2,
          .tick 63, .readClock 3, .enter 3, .enter 0]).admitted
        (fun _ : Fin 4 => (loginFrom "10.0.0.9" none 0).request) "10.0.0.9")).length = 3 := by
    decide +kernel
  rw [hthree] at hminute
  exact absurd hminute (by decide)

end Procurement
