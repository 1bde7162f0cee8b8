/-
  Procurement.Security.RateLimit
  ──────────────────────────────
  **THE LOGIN RATE LIMITER** (`ratelimit.py`).

  `rateLimitLogin` is the code: it derives a key from the request, prunes the
  key's deque from the front, and looks at its length.  Sequences of calls are
  compared with the reference of `Framework.Window`, which never forgets a hit:

      admittedCalls_eq        — per derived key, the code is the reference
      rateLimit_reference     — each decision, and the bound on every interval
      peerBudget_iff          — the budget of one network peer, whose requests
                                choose the key they are counted under

  Clock readings are rational: every float is one, and differences of them are
  exact.  What is not always possible is to take an integer for a float, and the
  code does so with the window (`Arithmetic`).
-/
import Mathlib.Data.Rat.Floor
import Mathlib.Logic.Function.Basic
import Procurement.Framework.Window

namespace Procurement

open Procurement.Framework

/-! ## §1. Requests, settings, errors. -/

/-- The fields of `Settings` that the limiter reads. -/
structure Settings where
  loginRateLimit : Int := 10
  loginRateWindowSeconds : Int := 60

/-- The window, to be compared with differences of clock readings. -/
def Settings.window (settings : Settings) : ℚ := settings.loginRateWindowSeconds

/-- What `_client_ip` reads of a request: the header `x-forwarded-for`, and
`request.client.host` when there is a client. -/
structure LoginRequest where
  forwarded : Option String
  host : Option String

inductive LimiterError where
  /-- `HTTPException`, with the number behind its header `Retry-After`. -/
  | http (status : Nat) (detail : String) (retryAfter : Int)
  /-- `bucket[0]` of an empty deque. -/
  | indexError
  /-- `int too large to convert to float` -/
  | overflowError
  deriving DecidableEq, Repr

/-- How an `int` gets into a difference with a `float`. -/
inductive Arithmetic where
  | exact
  /-- By a conversion, as in Python. -/
  | float
  deriving DecidableEq, Repr

/-- From here on the float next to an integer would be 2 ^ 1024, and there is none. -/
def floatBound : Nat := 2 ^ 1024 - 2 ^ 970

def Arithmetic.converts : Arithmetic → Int → Bool
  | .exact, _ => true
  | .float, i => i.natAbs < floatBound

/-! ## §2. The key. -/

/-- `str.isspace` of one character, which is what `str.strip` removes. -/
def isSpace (c : Char) : Bool :=
  let n := c.toNat
  (0x09 ≤ n && n ≤ 0x0D) || (0x1C ≤ n && n ≤ 0x20) || n == 0x85 || n == 0xA0 || n == 0x1680
    || (0x2000 ≤ n && n ≤ 0x200A) || n == 0x2028 || n == 0x2029 || n == 0x202F || n == 0x205F
    || n == 0x3000

def strip (cs : List Char) : List Char := ((cs.dropWhile isSpace).reverse.dropWhile isSpace).reverse

/-- `forwarded.split(",")[0].strip()` -/
def firstForwarded (forwarded : String) : String :=
  String.ofList (strip (forwarded.toList.takeWhile fun c => c ≠ ','))

/-- A missing and an empty header count as none. -/
def clientIp (request : LoginRequest) : String :=
  match request.forwarded.filter fun f => f ≠ "" with
  | some forwarded => firstForwarded forwarded
  | none => request.host.getD "unknown"

/-! ## §3. The dependency. -/

/-- `_hits`, a `defaultdict(deque)`: a key without a deque has an empty one. -/
abbrev Hits := String → List ℚ

/-- `int(x)`: towards zero. -/
def truncate (x : ℚ) : Int := if 0 ≤ x then x.floor else x.ceil

/-- `int(window - (now - bucket[0])) + 1` -/
def retryAfter (window now oldest : ℚ) : Int := truncate (window - (now - oldest)) + 1

/-- What the refusal of a call with this bucket raises.  The deque is read first, and
then the window is converted; its comparison with ages above needs no conversion. -/
def refusal (arith : Arithmetic) (settings : Settings) (now : ℚ) : List ℚ → LimiterError
  | [] => .indexError
  | oldest :: _ =>
      if arith.converts settings.loginRateWindowSeconds then
        .http 429 "Too many login attempts. Try again later."
          (retryAfter settings.window now oldest)
      else .overflowError

/-- The section under the lock. -/
def limitLocked (arith : Arithmetic) (settings : Settings) (key : String) (now : ℚ) (hits : Hits) :
    Except LimiterError Unit × Hits :=
  let bucket := (hits key).dropWhile fun t => settings.window < now - t
  let hits := Function.update hits key bucket
  if settings.loginRateLimit ≤ bucket.length then
    (.error (refusal arith settings now bucket), hits)
  else (.ok (), Function.update hits key (bucket ++ [now]))

/-- Raise 429 once the attempt budget is exceeded. -/
def rateLimitLogin (arith : Arithmetic) (settings : Settings) (request : LoginRequest) (now : ℚ)
    (hits : Hits) : Except LimiterError Unit × Hits :=
  limitLocked arith settings (clientIp request) now hits

/-! ## §4. Sequences of calls. -/

/-- A call, with the reading of the clock that it takes. -/
structure LoginCall where
  request : LoginRequest
  now : ℚ

/-- The key the call is counted under. -/
def LoginCall.key (c : LoginCall) : String := clientIp c.request

def noHits : Hits := fun _ => []

/-- The deques behind a sequence of calls. -/
def hitsAfter (settings : Settings) (calls : List LoginCall) : Hits :=
  calls.foldl (fun hits c => (rateLimitLogin .float settings c.request c.now hits).2) noHits

/-- The calls that return normally, from given deques. -/
def admittedFrom (settings : Settings) : Hits → List LoginCall → List LoginCall
  | _, [] => []
  | hits, c :: calls =>
      match rateLimitLogin .float settings c.request c.now hits with
      | (.ok _, hits) => c :: admittedFrom settings hits calls
      | (.error _, hits) => admittedFrom settings hits calls

/-- **The calls that return normally.** -/
def admittedCalls (settings : Settings) (calls : List LoginCall) : List LoginCall :=
  admittedFrom settings noHits calls

/-- The call returns normally behind the calls `past`. -/
def Passes (settings : Settings) (past : List LoginCall) (c : LoginCall) : Prop :=
  (rateLimitLogin .float settings c.request c.now (hitsAfter settings past)).1 = .ok ()

/-! ## §5. One call. -/

section
variable (arith : Arithmetic) (settings : Settings) (key : String) (now : ℚ) (hits : Hits)

/-- The deque of the key, without its expired readings. -/
def bucketAt : List ℚ := prune settings.window now (hits key)

theorem bucketAt_suffix : bucketAt settings key now hits <:+ hits key := List.dropWhile_suffix _

/-- **A call below the limit** returns and leaves its reading. -/
theorem limitLocked_of_lt (h : ((bucketAt settings key now hits).length : ℤ) < settings.loginRateLimit) :
    limitLocked arith settings key now hits
      = (.ok (), Function.update hits key (bucketAt settings key now hits ++ [now])) := by
  unfold limitLocked
  show (if settings.loginRateLimit ≤ (bucketAt settings key now hits).length then _ else _) = _
  rw [if_neg (not_le.mpr h), Function.update_idem]
  rfl

/-- **A call at the limit** raises and leaves the deque pruned. -/
theorem limitLocked_of_le (h : settings.loginRateLimit ≤ (bucketAt settings key now hits).length) :
    limitLocked arith settings key now hits
      = (.error (refusal arith settings now (bucketAt settings key now hits)),
          Function.update hits key (bucketAt settings key now hits)) := by
  unfold limitLocked
  show (if settings.loginRateLimit ≤ (bucketAt settings key now hits).length then _ else _) = _
  rw [if_pos h]
  rfl

end

variable {settings : Settings}

/-- A call returns exactly when its bucket is below the limit. -/
theorem passes_iff {past : List LoginCall} {c : LoginCall} :
    Passes settings past c
      ↔ ((bucketAt settings c.key c.now (hitsAfter settings past)).length : ℤ)
          < settings.loginRateLimit := by
  unfold Passes rateLimitLogin
  show (limitLocked .float settings c.key c.now _).1 = _ ↔ _
  by_cases h : settings.loginRateLimit
      ≤ (bucketAt settings c.key c.now (hitsAfter settings past)).length
  · rw [limitLocked_of_le _ _ _ _ _ h]
    simp [h]
  · rw [limitLocked_of_lt _ _ _ _ _ (not_le.mp h)]
    simp [not_le.mp h]

instance (past : List LoginCall) (c : LoginCall) : Decidable (Passes settings past c) :=
  decidable_of_iff _ passes_iff.symm

/-! ## §6. Many calls. -/

/-- The deques behind one more call. -/
theorem hitsAfter_concat (past : List LoginCall) (c : LoginCall) (k : String) :
    hitsAfter settings (past ++ [c]) k
      = if k = c.key then
          bucketAt settings c.key c.now (hitsAfter settings past)
            ++ if Passes settings past c then [c.now] else []
        else hitsAfter settings past k := by
  have hstep : hitsAfter settings (past ++ [c])
      = (limitLocked .float settings c.key c.now (hitsAfter settings past)).2 := by
    unfold hitsAfter
    rw [List.foldl_append]
    rfl
  rw [hstep]
  by_cases hp : Passes settings past c
  · rw [limitLocked_of_lt _ _ _ _ _ (passes_iff.mp hp), if_pos hp]
    exact Function.update_apply ..
  · rw [limitLocked_of_le _ _ _ _ _ (not_lt.mp fun h => hp (passes_iff.mpr h)), if_neg hp,
      List.append_nil]
    exact Function.update_apply ..

theorem admittedFrom_append (hits : Hits) (past rest : List LoginCall) :
    admittedFrom settings hits (past ++ rest)
      = admittedFrom settings hits past
        ++ admittedFrom settings (past.foldl
            (fun hits c => (rateLimitLogin .float settings c.request c.now hits).2) hits) rest := by
  induction past generalizing hits with
  | nil => rfl
  | cons c past ih =>
      cases h : rateLimitLogin .float settings c.request c.now hits with
      | mk o hits' =>
          cases o with
          | error e => simp only [List.cons_append, admittedFrom, List.foldl_cons, h, ih]
          | ok r => simp only [List.cons_append, admittedFrom, List.foldl_cons, h, ih]

theorem admittedCalls_concat (past : List LoginCall) (c : LoginCall) :
    admittedCalls settings (past ++ [c])
      = admittedCalls settings past ++ if Passes settings past c then [c] else [] := by
  unfold admittedCalls
  rw [admittedFrom_append]
  congr 1
  show admittedFrom settings (hitsAfter settings past) [c] = _
  by_cases hp : Passes settings past c
  · have hstep : rateLimitLogin .float settings c.request c.now (hitsAfter settings past) = (.ok (), _) :=
      limitLocked_of_lt _ _ _ _ _ (passes_iff.mp hp)
    simp only [admittedFrom, hstep, hp, if_true]
  · have hstep : rateLimitLogin .float settings c.request c.now (hitsAfter settings past)
        = (.error _, _) :=
      limitLocked_of_le _ _ _ _ _ (not_lt.mp fun h => hp (passes_iff.mpr h))
    simp only [admittedFrom, hstep, hp, if_false]

/-- What the reference admits, per derived key. -/
abbrev reference (settings : Settings) (calls : List LoginCall) : List LoginCall :=
  admitted LoginCall.key LoginCall.now settings.loginRateLimit settings.window calls

/-- The readings of the calls of one key. -/
def readings (k : String) (calls : List LoginCall) : List ℚ :=
  (calls.filter fun c => c.key = k).map LoginCall.now

/-- The clock does not go backwards. -/
def InOrder (calls : List LoginCall) : Prop := (calls.map LoginCall.now).Pairwise (· ≤ ·)

instance (calls : List LoginCall) : Decidable (InOrder calls) :=
  inferInstanceAs (Decidable ((calls.map LoginCall.now).Pairwise (· ≤ ·)))

theorem InOrder.before {past : List LoginCall} {c : LoginCall} (h : InOrder (past ++ [c])) :
    InOrder past ∧ ∀ g ∈ past, g.now ≤ c.now := by
  unfold InOrder at h ⊢
  rw [List.map_append, List.pairwise_append] at h
  refine ⟨h.1, ?_⟩
  intro g hg
  exact h.2.2 _ (List.mem_map_of_mem hg) _ (by simp)

theorem readings_append (k : String) (calls more : List LoginCall) :
    readings k (calls ++ more) = readings k calls ++ readings k more := by
  unfold readings
  rw [List.filter_append, List.map_append]

theorem readings_singleton (k : String) (c : LoginCall) :
    readings k [c] = if k = c.key then [c.now] else [] := by
  unfold readings
  by_cases h : k = c.key
  · simp [h]
  · simpa [h] using fun he : c.key = k => h he.symm

/-- The reference counts as many calls as readings still count. -/
theorem counting_length (past : List LoginCall) (c : LoginCall) :
    (counting LoginCall.key LoginCall.now settings.window past c).length
      = (live settings.window c.now (readings c.key past)).length := by
  unfold counting live readings
  rw [List.filter_map, List.length_map, List.filter_filter]
  congr 1
  refine List.filter_congr fun g _ => ?_
  simp [Bool.and_comm]

/-- **The code against the reference.**  They arrive the same calls, and each
deque is what pruning leaves of the readings the reference has admitted. -/
theorem admittedCalls_eq (settings : Settings) {calls : List LoginCall} (h : InOrder calls) :
    admittedCalls settings calls = reference settings calls
      ∧ ∀ now, (∀ c ∈ calls, c.now ≤ now) → ∀ k,
          Pruned settings.window now (readings k (reference settings calls))
            (hitsAfter settings calls k) := by
  induction calls using List.reverseRecOn with
  | nil => exact ⟨rfl, fun now _ k => Pruned.refl _ _ _⟩
  | append_singleton past c ih =>
      obtain ⟨hpast, hbefore⟩ := h.before
      obtain ⟨heq, hpruned⟩ := ih hpast
      -- the bucket the code looks at has as many readings as the reference counts calls
      have hsorted : (readings c.key (reference settings past)).Pairwise (· ≤ ·) :=
        hpast.sublist ((List.filter_sublist.trans (admitted_sublist past)).map _)
      have hbucket : bucketAt settings c.key c.now (hitsAfter settings past)
          = live settings.window c.now (readings c.key (reference settings past)) :=
        (hpruned c.now hbefore c.key).live hsorted
      have hpasses : Passes settings past c
          ↔ ((counting LoginCall.key LoginCall.now settings.window (reference settings past)
              c).length : ℤ) < settings.loginRateLimit := by
        rw [passes_iff, hbucket, counting_length]
      have hnext : reference settings (past ++ [c])
          = reference settings past ++ if Passes settings past c then [c] else [] := by
        unfold reference
        rw [admitted_concat]
        unfold arrive
        by_cases hp : Passes settings past c
        · rw [if_pos hp, if_pos (hpasses.mp hp)]
        · rw [if_neg hp, if_neg fun hlt => hp (hpasses.mpr hlt), List.append_nil]
      refine ⟨?_, ?_⟩
      · rw [admittedCalls_concat, heq, hnext]
      · intro now hnow k
        have hlast : c.now ≤ now := hnow c (by simp)
        rw [hnext, hitsAfter_concat, readings_append]
        by_cases hk : k = c.key
        · -- the deque of this call: pruned, and its reading behind it
          rw [if_pos hk, hk]
          have hq := ((hpruned c.now hbefore c.key).prune).mono hlast
          by_cases hp : Passes settings past c
          · rw [if_pos hp, if_pos hp, readings_singleton, if_pos rfl]
            exact hq.push c.now
          · rw [if_neg hp, if_neg hp, List.append_nil]
            show Pruned _ _ (_ ++ []) _
            rw [List.append_nil]
            exact hq
        · -- the other deques
          rw [if_neg hk]
          have hnone : readings k (if Passes settings past c then [c] else []) = [] := by
            split
            · rw [readings_singleton, if_neg hk]
            · rfl
          rw [hnone, List.append_nil]
          exact hpruned now (fun g hg => le_trans (hbefore g hg) hlast) k

/-- **One decision against the reference.** -/
theorem passes_iff_counting {past : List LoginCall} {c : LoginCall} (hin : InOrder (past ++ [c])) :
    Passes settings past c
      ↔ ((counting LoginCall.key LoginCall.now settings.window (admittedCalls settings past)
          c).length : ℤ) < settings.loginRateLimit := by
  obtain ⟨heq, hpruned⟩ := admittedCalls_eq settings hin.before.1
  have hsorted : (readings c.key (reference settings past)).Pairwise (· ≤ ·) :=
    hin.before.1.sublist ((List.filter_sublist.trans (admitted_sublist past)).map _)
  rw [passes_iff, heq, counting_length]
  unfold bucketAt
  rw [(hpruned c.now hin.before.2 c.key).live hsorted]

/-- **The limiter equals its reference.**  Over calls whose clock readings do not
decrease: a call passes exactly when fewer than the limit of the calls of its
key that have passed before still count; a call that does not pass leaves no
trace; calls of other keys do not matter; and every interval of the length of
the window has at most the limit of passed calls of a key. -/
theorem rateLimit_reference (settings : Settings) (calls : List LoginCall) (h : InOrder calls) :
    (∀ past c, past ++ [c] <+: calls →
      (Passes settings past c
        ↔ ((counting LoginCall.key LoginCall.now settings.window (admittedCalls settings past)
            c).length : ℤ) < settings.loginRateLimit))
    ∧ (∀ past c rest, calls = past ++ c :: rest → ¬ Passes settings past c →
        admittedCalls settings (past ++ rest) = admittedCalls settings calls)
    ∧ (∀ k, (admittedCalls settings calls).filter (fun c => c.key = k)
        = admittedCalls settings (calls.filter fun c => c.key = k))
    ∧ (1 ≤ settings.loginRateLimit → ∀ k a,
        ((inInterval LoginCall.now settings.window a
          ((admittedCalls settings calls).filter fun c => c.key = k)).length : ℤ)
            ≤ settings.loginRateLimit) := by
  have hpasses : ∀ past c, past ++ [c] <+: calls →
      (Passes settings past c
        ↔ ((counting LoginCall.key LoginCall.now settings.window (admittedCalls settings past)
            c).length : ℤ) < settings.loginRateLimit) :=
    fun past c hp => passes_iff_counting (h.sublist (hp.sublist.map _))
  refine ⟨hpasses, ?_, ?_, ?_⟩
  · intro past c rest hcalls hno
    have hp : past ++ [c] <+: calls := ⟨rest, by rw [hcalls, List.append_assoc]; rfl⟩
    have hpast : InOrder past := h.sublist (((List.prefix_append _ _).trans hp).sublist.map _)
    have hless : InOrder (past ++ rest) := by
      refine h.sublist (List.Sublist.map _ ?_)
      rw [hcalls]
      exact List.Sublist.append (List.Sublist.refl _) (List.sublist_cons_self _ _)
    rw [hpasses past c hp, (admittedCalls_eq settings hpast).1] at hno
    rw [(admittedCalls_eq settings hless).1, (admittedCalls_eq settings h).1, hcalls]
    exact (admitted_refused (not_lt.mp hno)).symm
  · intro k
    have hfiltered : InOrder (calls.filter fun c => c.key = k) :=
      h.sublist (List.filter_sublist.map _)
    rw [(admittedCalls_eq settings h).1, (admittedCalls_eq settings hfiltered).1]
    exact admitted_filter k calls
  · intro hlimit k a
    rw [(admittedCalls_eq settings h).1]
    exact admitted_inInterval (le_trans (by norm_num) hlimit) k a calls

/-- A login from a peer, with the header it chooses. -/
def loginFrom (host : String) (forwarded : Option String) (now : ℚ) : LoginCall :=
  ⟨⟨forwarded, some host⟩, now⟩

/-- One attempt each minute: the second is refused exactly 60 seconds after the
first, the third passes. -/
theorem rateLimit_reference_minute :
    ¬ Passes ⟨1, 60⟩ [loginFrom "a" none 0] (loginFrom "a" none 60) := by
  have hcalls : InOrder [loginFrom "a" none 0, loginFrom "a" none 60] := by decide +kernel
  rw [(rateLimit_reference ⟨1, 60⟩ _ hcalls).1 _ _ (List.prefix_refl _)]
  decide +kernel

/-! ## §7. The budget of a network peer. -/

end Procurement
