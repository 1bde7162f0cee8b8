/-
  Procurement.Security.Refusals
  ─────────────────────────────
  **WHAT A REFUSED LOGIN IS TOLD.**

  A call is refused when its deque, pruned at its reading, has reached the
  limit.  The header `Retry-After` is computed from the oldest reading of that
  deque, which is the first to expire, so the header says when the deque falls
  below the limit: it holds no more readings than the limit (`hitsAfter_length`).

      rateLimit_429_iff  — when every refusal is a 429
      retryAfter_tight   — what the header promises, from both sides
-/
import Procurement.Security.RateLimit

namespace Procurement

open Procurement.Framework

variable {settings : Settings}

/-! ## §1. Deques and outcomes. -/

/-- How the call `c` ends behind the calls `past`, whose deques are the same in any
arithmetic. -/
def outcome (arith : Arithmetic) (settings : Settings) (past : List LoginCall) (c : LoginCall) :
    Except LimiterError Unit :=
  (rateLimitLogin arith settings c.request c.now (hitsAfter settings past)).1

/-- The deque that the call `c` looks at. -/
abbrev bucketOf (settings : Settings) (past : List LoginCall) (c : LoginCall) : List ℚ :=
  bucketAt settings c.key c.now (hitsAfter settings past)

/-- A call that meets a full deque raises, in any arithmetic. -/
theorem outcome_of_refused (arith : Arithmetic) {past : List LoginCall} {c : LoginCall}
    (h : settings.loginRateLimit ≤ (bucketOf settings past c).length) :
    outcome arith settings past c
      = .error (refusal arith settings c.now (bucketOf settings past c)) :=
  congrArg Prod.fst (limitLocked_of_le arith settings c.key c.now _ h)

/-- **A deque never holds more readings than the limit.** -/
theorem hitsAfter_length (settings : Settings) (calls : List LoginCall) (k : String) :
    ((hitsAfter settings calls k).length : ℤ) ≤ max settings.loginRateLimit 0 := by
  induction calls using List.reverseRecOn with
  | nil => exact le_max_right _ _
  | append_singleton past c ih =>
      rw [hitsAfter_concat]
      by_cases hk : k = c.key
      · rw [if_pos hk]
        have hshort := (bucketAt_suffix settings c.key c.now
          (hitsAfter settings past)).length_le
        rw [hk] at ih
        by_cases hp : Passes settings past c
        · have hroom := passes_iff.mp hp
          rw [if_pos hp, List.length_append, List.length_singleton]
          omega
        · rw [if_neg hp, List.append_nil]
          omega
      · rw [if_neg hk]
        exact ih

/-- The readings of a deque are those of earlier calls of its key. -/
theorem mem_hitsAfter {calls : List LoginCall} {k : String} {t : ℚ}
    (h : t ∈ hitsAfter settings calls k) : ∃ c ∈ calls, c.key = k ∧ c.now = t := by
  induction calls using List.reverseRecOn with
  | nil => exact absurd h List.not_mem_nil
  | append_singleton past c ih =>
      rw [hitsAfter_concat] at h
      have hpast : t ∈ hitsAfter settings past k → ∃ g ∈ past ++ [c], g.key = k ∧ g.now = t := by
        intro ht
        obtain ⟨g, hg, hfacts⟩ := ih ht
        exact ⟨g, List.mem_append_left _ hg, hfacts⟩
      by_cases hk : k = c.key
      · rw [if_pos hk, List.mem_append] at h
        rcases h with h | h
        · rw [← hk] at h
          exact hpast ((bucketAt_suffix settings k c.now _).subset h)
        · have ht : t = c.now := by
            split at h
            · exact List.mem_singleton.mp h
            · exact absurd h List.not_mem_nil
          exact ⟨c, by simp, hk.symm, ht.symm⟩
      · rw [if_neg hk] at h
        exact hpast h

/-! ## §2. Refusals are answered 429. -/

/-- The call returns, or raises the 429. -/
def ReturnsOr429 (o : Except LimiterError Unit) : Prop :=
  o = .ok () ∨ ∃ detail retryAfter, o = .error (.http 429 detail retryAfter)

theorem refusal_of_converts {arith : Arithmetic}
    (h : arith.converts settings.loginRateWindowSeconds = true) {now oldest : ℚ} {rest : List ℚ} :
    refusal arith settings now (oldest :: rest)
      = .http 429 "Too many login attempts. Try again later."
          (retryAfter settings.window now oldest) :=
  if_pos h

/-- No call comes when as many calls of its key as the limit are at most the window back. -/
def Uncrowded (settings : Settings) (calls : List LoginCall) : Prop :=
  ∀ past c, past ++ [c] <+: calls →
    ((counting LoginCall.key LoginCall.now settings.window past c).length : ℤ)
      < settings.loginRateLimit

/-- When every call passes, all of them are admitted. -/
theorem admittedCalls_of_all {calls : List LoginCall}
    (h : ∀ past c, past ++ [c] <+: calls → Passes settings past c) :
    admittedCalls settings calls = calls := by
  induction calls using List.reverseRecOn with
  | nil => rfl
  | append_singleton past c ih =>
      have hpast := ih fun pre d hp => h pre d (hp.trans (List.prefix_append _ _))
      rw [admittedCalls_concat, hpast, if_pos (h past c (List.prefix_refl _))]

/-- **Every call passes** exactly when no call comes to a crowd. -/
theorem all_pass_iff {calls : List LoginCall} (hin : InOrder calls) :
    (∀ past c, past ++ [c] <+: calls → Passes settings past c) ↔ Uncrowded settings calls := by
  constructor
  · intro hall past c hp
    have hpast : admittedCalls settings past = past :=
      admittedCalls_of_all fun pre d hd =>
        hall pre d (hd.trans ((List.prefix_append _ _).trans hp))
    have hpass := (passes_iff_counting (hin.sublist (hp.sublist.map _))).mp (hall past c hp)
    rwa [hpast] at hpass
  · intro hroom
    induction calls using List.reverseRecOn with
    | nil => exact fun past c hp => absurd (List.prefix_nil.mp hp) (by simp)
    | append_singleton calls d ih =>
        have hall := ih hin.before.1 fun past c hp => hroom past c (hp.trans (List.prefix_append _ _))
        intro past c hp
        rcases List.prefix_concat_iff.mp hp with hlast | hearlier
        · -- all that came before the last call has passed, so it is what counts
          obtain ⟨rfl, rfl⟩ := List.append_singleton_inj.mp hlast
          rw [passes_iff_counting hin, admittedCalls_of_all hall]
          exact hroom past c hp
        · exact hall past c hearlier

/-- Every call returns or raises the 429. -/
def FailsOnlyWith429 (settings : Settings) (calls : List LoginCall) : Prop :=
  ∀ past c, past ++ [c] <+: calls → ReturnsOr429 (outcome .float settings past c)

/-- A limit below one refuses the first call, which meets its empty deque. -/
theorem FailsOnlyWith429.limit_pos {calls : List LoginCall} (h : FailsOnlyWith429 settings calls)
    (hcalls : calls ≠ []) : 1 ≤ settings.loginRateLimit := by
  obtain ⟨first, rest, rfl⟩ := List.exists_cons_of_ne_nil hcalls
  by_contra hlow
  have hindex : outcome .float settings [] first = .error .indexError := by
    refine outcome_of_refused .float ?_
    show settings.loginRateLimit ≤ (([] : List ℚ).length : ℤ)
    exact Int.lt_add_one_iff.mp (not_le.mp hlow)
  have hfirst := h [] first ⟨rest, rfl⟩
  rw [hindex] at hfirst
  rcases hfirst with h | ⟨_, _, h⟩
  · exact absurd h (by simp)
  · exact absurd h (by simp)

/-- A refusal has to convert the window, so where it cannot be converted nobody is refused. -/
theorem FailsOnlyWith429.passes {calls : List LoginCall} (h : FailsOnlyWith429 settings calls)
    (hlarge : ¬ Arithmetic.float.converts settings.loginRateWindowSeconds = true)
    {past : List LoginCall} {c : LoginCall} (hp : past ++ [c] <+: calls) :
    Passes settings past c := by
  by_contra hfull
  have houtcome := outcome_of_refused (c := c) .float
    (not_lt.mp fun h => hfull (passes_iff.mpr h))
  have hcall := h past c hp
  rw [houtcome] at hcall
  unfold refusal at hcall
  rcases hcall with hcall | ⟨_, _, hcall⟩
  · exact absurd hcall (by simp)
  · cases hb : bucketOf settings past c with
    | nil => simp [hb] at hcall
    | cons oldest rest => simp [hb, hlarge] at hcall

/-- With a limit to count to and a window that converts, a refusal is a 429. -/
theorem returnsOr429_of_converts {past : List LoginCall} {c : LoginCall}
    (hlimit : 1 ≤ settings.loginRateLimit)
    (hconverts : Arithmetic.float.converts settings.loginRateWindowSeconds = true)
    (hrefused : ¬ Passes settings past c) : ReturnsOr429 (outcome .float settings past c) := by
  have hfull : settings.loginRateLimit ≤ (bucketOf settings past c).length :=
    not_lt.mp fun h => hrefused (passes_iff.mpr h)
  rw [outcome_of_refused .float hfull]
  cases hb : bucketOf settings past c with
  | nil =>
      rw [hb, List.length_nil] at hfull
      omega
  | cons oldest rest =>
      exact Or.inr ⟨_, _, congrArg Except.error (refusal_of_converts hconverts)⟩

/-- **The limiter fails only with 429** exactly when nobody calls, or it has a limit to
count to and, if its window is too large to be a float, never comes to the header. -/
theorem rateLimit_429_iff (settings : Settings) (calls : List LoginCall) (hin : InOrder calls) :
    (∀ past c, past ++ [c] <+: calls → ReturnsOr429 (outcome .float settings past c))
      ↔ calls = [] ∨ 1 ≤ settings.loginRateLimit
        ∧ (Arithmetic.float.converts settings.loginRateWindowSeconds = true
          ∨ Uncrowded settings calls) := by
  constructor
  · intro hall
    have honly : FailsOnlyWith429 settings calls := hall
    by_contra hno
    push Not at hno
    obtain ⟨hcalls, hno⟩ := hno
    obtain ⟨hlarge, hcrowded⟩ := hno (honly.limit_pos hcalls)
    exact hcrowded ((all_pass_iff hin).mp fun past c => honly.passes hlarge)
  · rintro (rfl | ⟨hlimit, hroom⟩) past c hp
    · exact absurd (List.prefix_nil.mp hp) (by simp)
    · by_cases hpass : Passes settings past c
      · exact Or.inl hpass
      · have hconverts : Arithmetic.float.converts settings.loginRateWindowSeconds = true :=
          hroom.resolve_right fun hun => hpass ((all_pass_iff hin).mpr hun past c hp)
        exact returnsOr429_of_converts hlimit hconverts hpass

/-- The default settings count to ten and have a window of a minute, so the eleventh of
eleven attempts at once does not pass, and is told 429. -/
theorem rateLimit_429_iff_eleven :
    let attempt := loginFrom "10.0.0.9" none 0
    ¬ Passes {} (List.replicate 10 attempt) attempt
      ∧ ReturnsOr429 (outcome .float {} (List.replicate 10 attempt) attempt) :=
  ⟨by decide +kernel, (rateLimit_429_iff {} (List.replicate 11 (loginFrom "10.0.0.9" none 0))
    (by decide +kernel)).mpr (Or.inr ⟨by decide, Or.inl (by decide +kernel)⟩) _ _ ⟨[], rfl⟩⟩

/-- An operator switches logins off with a limit of zero: the first attempt
reads `bucket[0]` of an empty deque. -/
theorem limit_zero_indexError :
    ¬ ∀ (settings : Settings) (calls : List LoginCall), InOrder calls →
      ∀ past c, past ++ [c] <+: calls → ReturnsOr429 (outcome .float settings past c) := by
  intro hall
  have hone := hall ⟨0, 60⟩ [loginFrom "10.0.0.9" none 0] (by decide +kernel) [] _
    (List.prefix_refl _)
  have hindex : outcome .float ⟨0, 60⟩ [] (loginFrom "10.0.0.9" none 0) = .error .indexError := by
    decide +kernel
  rw [hindex] at hone
  rcases hone with h | ⟨_, _, h⟩
  · exact absurd h (by simp)
  · exact absurd h (by simp)

/-- The other way to fail: one attempt in a window of 10 ^ 400 seconds, and a second one. -/
example : outcome .float ⟨1, 10 ^ 400⟩ [loginFrom "10.0.0.9" none 0] (loginFrom "10.0.0.9" none 1)
    = .error .overflowError := by decide +kernel

/-! ## §3. The header. -/

/-- The header is the time until the oldest reading expires, rounded up to the
next whole second behind it. -/
theorem retryAfter_bounds {window now oldest : ℚ} (h : now - oldest ≤ window) :
    window < now - oldest + retryAfter window now oldest
      ∧ (retryAfter window now oldest : ℚ) - 1 ≤ window - (now - oldest)
      ∧ 1 ≤ retryAfter window now oldest := by
  have hnonneg : 0 ≤ window - (now - oldest) := sub_nonneg.mpr h
  have hfloor : retryAfter window now oldest = ⌊window - (now - oldest)⌋ + 1 := by
    unfold retryAfter truncate
    rw [if_pos hnonneg]
    rfl
  have hlow := Int.floor_le (window - (now - oldest))
  have hup := Int.lt_floor_add_one (window - (now - oldest))
  have hpos : 0 ≤ ⌊window - (now - oldest)⌋ := Int.floor_nonneg.mpr hnonneg
  rw [hfloor]
  push_cast
  refine ⟨by linarith, by linarith, by omega⟩

/-- A call that is refused leaves the pruned deque. -/
theorem hitsAfter_refused {past : List LoginCall} {c : LoginCall} (h : ¬ Passes settings past c)
    (k : String) : hitsAfter settings (past ++ [c]) k
      = if k = c.key then bucketOf settings past c else hitsAfter settings past k := by
  rw [hitsAfter_concat, if_neg h, List.append_nil]

/-- Behind a refused call, as long as no call of its key passes, its deque only
loses readings from the front. -/
theorem hitsAfter_suffix {past mid : List LoginCall} {c : LoginCall} (h : ¬ Passes settings past c)
    (hmid : ∀ pre e, pre ++ [e] <+: mid → e.key = c.key →
      ¬ Passes settings (past ++ [c] ++ pre) e) :
    hitsAfter settings (past ++ [c] ++ mid) c.key <:+ bucketOf settings past c := by
  induction mid using List.reverseRecOn with
  | nil =>
      have hsame : hitsAfter settings (past ++ [c] ++ []) c.key = bucketOf settings past c := by
        rw [List.append_nil, hitsAfter_refused h]
        exact if_pos rfl
      exact hsame ▸ List.suffix_refl _
  | append_singleton mid e ih =>
      have hsuffix := ih fun pre g hg => hmid pre g (hg.trans (List.prefix_append _ _))
      rw [← List.append_assoc]
      by_cases hk : c.key = e.key
      · rw [hitsAfter_refused (hmid mid e (List.prefix_refl _) hk.symm), if_pos hk]
        have hpruned := bucketAt_suffix settings e.key e.now
          (hitsAfter settings (past ++ [c] ++ mid))
        rw [← hk] at hpruned
        unfold bucketOf
        rw [← hk]
        exact hpruned.trans hsuffix
      · rw [hitsAfter_concat, if_neg hk]
        exact hsuffix

/-- As long as the oldest reading counts, every call of the key is refused, and
its deque stays as it is. -/
theorem hitsAfter_blocked {past mid : List LoginCall} {c : LoginCall} {oldest : ℚ} {rest : List ℚ}
    (h : ¬ Passes settings past c) (hb : bucketOf settings past c = oldest :: rest)
    (hmid : ∀ e ∈ mid, e.key = c.key → e.now - oldest ≤ settings.window) :
    hitsAfter settings (past ++ [c] ++ mid) c.key = oldest :: rest := by
  have hfull : settings.loginRateLimit ≤ (oldest :: rest).length := by
    rw [← hb]
    exact not_lt.mp fun hlt => h (passes_iff.mpr hlt)
  induction mid using List.reverseRecOn with
  | nil =>
      rw [List.append_nil, hitsAfter_refused h, if_pos rfl, hb]
  | append_singleton mid e ih =>
      have hsame := ih fun g hg => hmid g (List.mem_append_left _ hg)
      rw [← List.append_assoc]
      by_cases hk : c.key = e.key
      · -- nothing expires at the front
        have hkeep : bucketOf settings (past ++ [c] ++ mid) e = oldest :: rest := by
          have hage : ¬ settings.window < e.now - oldest := not_lt.mpr (hmid e (by simp) hk.symm)
          show prune settings.window e.now (hitsAfter settings _ e.key) = _
          rw [← hk, hsame]
          unfold prune
          rw [List.dropWhile_cons]
          simp [hage]
        have hrefused : ¬ Passes settings (past ++ [c] ++ mid) e := by
          intro hp
          have hroom := passes_iff.mp hp
          rw [show bucketAt settings e.key e.now _ = oldest :: rest from hkeep] at hroom
          omega
        rw [hitsAfter_refused hrefused, if_pos hk, hkeep]
      · rw [hitsAfter_concat, if_neg hk]
        exact hsame

/-- What a refusal finds in the deque: a first reading, which is not from the future and
still counts. -/
theorem refused_bucket {past : List LoginCall} {c : LoginCall}
    (hlimit : 1 ≤ settings.loginRateLimit) (hin : InOrder (past ++ [c]))
    (h : ¬ Passes settings past c) :
    ∃ oldest rest, bucketOf settings past c = oldest :: rest ∧ oldest ≤ c.now
      ∧ c.now - oldest ≤ settings.window := by
  have hfull : settings.loginRateLimit ≤ (bucketOf settings past c).length :=
    not_lt.mp fun hlt => h (passes_iff.mpr hlt)
  cases hb : bucketOf settings past c with
  | nil =>
      rw [hb, List.length_nil] at hfull
      omega
  | cons oldest rest =>
      refine ⟨oldest, rest, rfl, ?_, ?_⟩
      · have hfirst : oldest ∈ bucketOf settings past c := hb ▸ List.mem_cons_self ..
        obtain ⟨g, hg, _, rfl⟩ := mem_hitsAfter ((bucketAt_suffix settings _ _ _).subset hfirst)
        exact hin.before.2 g hg
      · -- otherwise it would have been pruned
        by_contra hold
        have hdrop : bucketOf settings past c = (hitsAfter settings past c.key).dropWhile
            fun t => decide (settings.window < c.now - t) := rfl
        have hfront := List.head?_dropWhile_not
          (fun t => decide (settings.window < c.now - t)) (hitsAfter settings past c.key)
        rw [← hdrop, hb] at hfront
        simp [not_le.mp hold] at hfront

/-- Behind the expiry of the oldest reading there is room. -/
theorem passes_of_expired {past mid : List LoginCall} {c d : LoginCall} {oldest : ℚ} {rest : List ℚ}
    (hlimit : 1 ≤ settings.loginRateLimit) (h : ¬ Passes settings past c)
    (hb : bucketOf settings past c = oldest :: rest)
    (hmid : ∀ pre e, pre ++ [e] <+: mid → e.key = c.key → ¬ Passes settings (past ++ [c] ++ pre) e)
    (hkey : d.key = c.key) (hexpired : settings.window < d.now - oldest) :
    Passes settings (past ++ [c] ++ mid) d := by
  have hsuffix : hitsAfter settings (past ++ [c] ++ mid) c.key <:+ oldest :: rest :=
    hb ▸ hitsAfter_suffix h hmid
  have hshort : ((oldest :: rest).length : ℤ) ≤ settings.loginRateLimit := by
    have hle := (bucketAt_suffix settings c.key c.now
      (hitsAfter settings past)).length_le
    have hmax := hitsAfter_length settings past c.key
    rw [show bucketAt settings c.key c.now _ = oldest :: rest from hb] at hle
    omega
  have hrest : bucketAt settings c.key d.now (hitsAfter settings (past ++ [c] ++ mid)) <:+ rest := by
    rcases List.suffix_cons_iff.mp hsuffix with hsame | hless
    · unfold bucketAt prune
      rw [hsame, List.dropWhile_cons_of_pos (by simpa using hexpired)]
      exact List.dropWhile_suffix _
    · exact (bucketAt_suffix settings c.key d.now _).trans hless
  have hlen := hrest.length_le
  rw [List.length_cons] at hshort
  rw [passes_iff, hkey]
  omega

/-- Before it expires there is none. -/
theorem refused_of_counting {past mid : List LoginCall} {c d : LoginCall} {oldest : ℚ}
    {rest : List ℚ} (h : ¬ Passes settings past c) (hb : bucketOf settings past c = oldest :: rest)
    (hd : InOrder (past ++ [c] ++ mid ++ [d])) (hkey : d.key = c.key)
    (hcounts : d.now - oldest ≤ settings.window) : ¬ Passes settings (past ++ [c] ++ mid) d := by
  have hmid : ∀ e ∈ mid, e.key = c.key → e.now - oldest ≤ settings.window := by
    intro e he _
    have hle : e.now ≤ d.now := hd.before.2 e (by simp [he])
    linarith
  have hkeep : bucketAt settings d.key d.now (hitsAfter settings (past ++ [c] ++ mid))
      = oldest :: rest := by
    unfold bucketAt prune
    rw [hkey, hitsAfter_blocked h hb hmid,
      List.dropWhile_cons_of_neg (by simpa using not_lt.mpr hcounts)]
  intro hp
  have hroom := passes_iff.mp hp
  rw [hkeep, ← hb] at hroom
  exact h (passes_iff.mpr hroom)

/-- **`Retry-After` is honest and tight.**  With a limit of at least one, in exact
arithmetic, over calls whose clock readings do not decrease: a refused call is told a number between one
and the window plus one; a later call of its key that waits as long passes, when
no other call of the key has passed in between; and every later call of the key
that comes more than a second earlier is refused. -/
theorem retryAfter_tight (settings : Settings) (past : List LoginCall) (c : LoginCall)
    (hlimit : 1 ≤ settings.loginRateLimit) (hin : InOrder (past ++ [c]))
    (h : ¬ Passes settings past c) :
    ∃ r, outcome .exact settings past c
        = .error (.http 429 "Too many login attempts. Try again later." r)
      ∧ 1 ≤ r ∧ r ≤ settings.loginRateWindowSeconds + 1
      ∧ ∀ mid d, InOrder (past ++ [c] ++ mid ++ [d]) → d.key = c.key →
        ((∀ pre e, pre ++ [e] <+: mid → e.key = c.key → ¬ Passes settings (past ++ [c] ++ pre) e) →
            c.now + r ≤ d.now → Passes settings (past ++ [c] ++ mid) d)
        ∧ (d.now < c.now + r - 1 → ¬ Passes settings (past ++ [c] ++ mid) d) := by
  obtain ⟨oldest, rest, hb, hpast, hcounts⟩ := refused_bucket hlimit hin h
  obtain ⟨habove, hbelow, hone⟩ := retryAfter_bounds hcounts
  refine ⟨retryAfter settings.window c.now oldest, ?_, hone, ?_, ?_⟩
  · have hfull : settings.loginRateLimit ≤ (bucketOf settings past c).length :=
      not_lt.mp fun hlt => h (passes_iff.mpr hlt)
    rw [outcome_of_refused .exact hfull, hb]
    rfl
  · have hup : ((retryAfter settings.window c.now oldest : ℤ) : ℚ)
        ≤ ((settings.loginRateWindowSeconds + 1 : ℤ) : ℚ) := by
      push_cast
      show _ ≤ settings.window + 1
      linarith
    exact_mod_cast hup
  · intro mid d hd hkey
    constructor
    · intro hmid hlate
      exact passes_of_expired hlimit h hb hmid hkey (by linarith)
    · intro hearly
      exact refused_of_counting h hb hd hkey (by linarith)

/-- One attempt each minute: refused after 45.5 seconds, the call is told to come
back in 15, and passes then. -/
theorem retryAfter_tight_minute :
    Passes ⟨1, 60⟩ [loginFrom "a" none 0, loginFrom "a" none (91 / 2)] (loginFrom "a" none (121 / 2)) := by
  have hrefused : ¬ Passes ⟨1, 60⟩ [loginFrom "a" none 0] (loginFrom "a" none (91 / 2)) := by
    decide +kernel
  obtain ⟨r, hr, _, _, hlater⟩ := retryAfter_tight ⟨1, 60⟩ [loginFrom "a" none 0]
    (loginFrom "a" none (91 / 2)) (by decide) (by decide +kernel) hrefused
  have htold : outcome .exact ⟨1, 60⟩ [loginFrom "a" none 0] (loginFrom "a" none (91 / 2))
      = .error (.http 429 "Too many login attempts. Try again later." 15) := by decide +kernel
  obtain rfl : 15 = r := by
    rw [htold] at hr
    simpa using hr
  refine (hlater [] (loginFrom "a" none (121 / 2)) (by decide +kernel) rfl).1 ?_ ?_
  · intro pre e hp
    exact absurd (List.prefix_nil.mp hp) (by simp)
  · show (91 / 2 : ℚ) + ((15 : ℤ) : ℚ) ≤ 121 / 2
    norm_num

end Procurement
