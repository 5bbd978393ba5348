import TenantFlow.Verification.RateLimit

/-!
# Polling the login quota

A client that is refused may go on calling. What it is told to wait stays exact, and a call that
it makes in between is paid for by a later one.
-/

namespace TenantFlow

open Transactional

/-- The key that calls at these times leave. -/
def keyAfter (limit windowSeconds : Int) : Option RateLimitKey → List Nat → Option RateLimitKey
  | key, [] => key
  | key, micros :: rest =>
    match checkRateLimit key limit windowSeconds micros with
    | none => key
    | some (_, key') => keyAfter limit windowSeconds (some key') rest

/-- A refusal at `micros`, further refusals at the times `between`, and a call at a time `later`. -/
structure RetryAfterExact (limit windowSeconds : Int) (refusal : RateLimitResult)
    (key : RateLimitKey) (between : List Nat) (micros later : Nat) : Prop where
  positive : 1 ≤ refusal.retryAfter
  answered : ∃ result key', checkRateLimit
    (keyAfter limit windowSeconds (some key) between) limit windowSeconds later =
      some (result, key') ∧
    (redisNowMs micros + 1000 * refusal.retryAfter ≤ redisNowMs later → result.allowed = true) ∧
    (redisNowMs later ≤ redisNowMs micros + 1000 * (refusal.retryAfter - 1) →
      result.allowed = false)

/-- The tokens that a call finds. -/
def seen (answer : RateLimitResult × RateLimitKey) : ℚ :=
  answer.2.tokens + answer.1.allowed.toNat

def granted (run : List (RateLimitResult × RateLimitKey)) : Nat :=
  run.countP (·.1.allowed)

/-- The calls at the times `later`, after calls at the times `before`. -/
def callsAfter (limit windowSeconds : Int) (key : Option RateLimitKey) (before later : List Nat) :
    List (RateLimitResult × RateLimitKey) :=
  (rateLimitRun RateLimitKey.live limit windowSeconds key (before ++ later)).drop before.length

/-- Without the extra call, and with it. -/
structure ExtraCall (limit windowSeconds : Int) (key : Option RateLimitKey) (before : List Nat)
    (extra : Nat) (later : List Nat) : Prop where
  answered : (callsAfter limit windowSeconds key before later).length = later.length ∧
    (callsAfter limit windowSeconds key (before ++ [extra]) later).length = later.length
  /-- Call by call: how many of those before it were allowed, and what it finds. -/
  gain : ∀ i e e', (callsAfter limit windowSeconds key before later)[i]? = some e →
    (callsAfter limit windowSeconds key (before ++ [extra]) later)[i]? = some e' →
    ∃ missed ≤ 1,
      granted ((callsAfter limit windowSeconds key before later).take i) =
        granted ((callsAfter limit windowSeconds key (before ++ [extra]) later).take i) + missed ∧
      (missed = 0 → seen e' ≤ seen e) ∧ seen e' < seen e + 1

section Answers

variable {limit windowSeconds nowMs : Int} {b : TokenBucket ℚ} {result : RateLimitResult}
  {key : RateLimitKey}

theorem seen_take (h : takeAt limit windowSeconds b nowMs = (result.allowed, key.bucket)) :
    seen (result, key) = b.level (limit : ℚ) (refillPerMs limit windowSeconds) nowMs := by
  have htokens : (takeAt limit windowSeconds b nowMs).2.tokens = key.tokens := by
    rw [h]
    rfl
  have hallowed : (takeAt limit windowSeconds b nowMs).1 = result.allowed := by rw [h]
  rw [takeAt] at htokens hallowed
  cases hresult : result.allowed with
  | true =>
    have htaken := (TokenBucket.take_true (hallowed.trans hresult)).2
    rw [seen, hresult, ← htokens, htaken]
    simp
  | false =>
    have hkept := TokenBucket.take_false (hallowed.trans hresult)
    rw [seen, hresult, ← htokens, hkept]
    simp

theorem updatedAt_take {t : ℚ} {capacity rate : ℚ} {allowed : Bool} {b' : TokenBucket ℚ}
    (h : b.take capacity rate t = (allowed, b')) : t = b'.updatedAt := by
  rw [← TokenBucket.take_updatedAt (t := t) (b := b), h]

end Answers

section Runs

variable {limit windowSeconds : Int} (hlimit : 1 ≤ limit) (hwindow : 1 ≤ windowSeconds)

include hlimit hwindow

theorem refillPerMs_pos : 0 < refillPerMs limit windowSeconds := by
  have hlimit' : (1 : ℚ) ≤ limit := by exact_mod_cast hlimit
  have hwindow' : (1 : ℚ) ≤ windowSeconds := by exact_mod_cast hwindow
  unfold refillPerMs
  positivity

/-- A call is a request to the bucket under its key, whether or not the key is still there. -/
theorem checkRateLimit_sound {key : Option RateLimitKey}
    (hkey : ∀ k ∈ key, k.Sound limit windowSeconds) (micros : Nat) : ∃ result key',
    checkRateLimit key limit windowSeconds micros = some (result, key') ∧
    takeAt limit windowSeconds (readBucket (fun _ _ => true) limit key (redisNowMs micros))
      (redisNowMs micros) = (result.allowed, key'.bucket) ∧ key'.Sound limit windowSeconds := by
  obtain ⟨result, key', heval, htake, hsound⟩ := evalRateLimit_sound hlimit hwindow hkey micros
  exact ⟨result, key', (evalRateLimit_live hlimit hwindow hkey micros).trans heval, htake, hsound⟩

theorem keyAfter_sound {key : Option RateLimitKey}
    (hkey : ∀ k ∈ key, k.Sound limit windowSeconds) (times : List Nat) :
    ∀ k ∈ keyAfter limit windowSeconds key times, k.Sound limit windowSeconds := by
  induction times generalizing key with
  | nil => exact hkey
  | cons micros times ih =>
    obtain ⟨result, key', hcheck, _, hsound⟩ := checkRateLimit_sound hlimit hwindow hkey micros
    simp only [keyAfter, hcheck]
    exact ih hsound.some

theorem keyAfter_append {key : Option RateLimitKey}
    (hkey : ∀ k ∈ key, k.Sound limit windowSeconds) (before later : List Nat) :
    keyAfter limit windowSeconds key (before ++ later) =
      keyAfter limit windowSeconds (keyAfter limit windowSeconds key before) later := by
  induction before generalizing key with
  | nil => rfl
  | cons micros before ih =>
    obtain ⟨result, k, hcheck, _, hk⟩ := checkRateLimit_sound hlimit hwindow hkey micros
    simp only [List.cons_append, keyAfter, hcheck]
    exact ih hk.some

omit hlimit hwindow in
/-- What a refused client is told. -/
theorem checkRateLimit_refused {key : Option RateLimitKey} {micros : Nat}
    {refusal : RateLimitResult} {key' : RateLimitKey}
    (h : checkRateLimit key limit windowSeconds micros = some (refusal, key'))
    (hdenied : refusal.allowed = false) :
    key'.updatedAtMs = redisNowMs micros ∧ key'.tokens < 1 ∧ refusal.retryAfter =
      (max 0 ⌈(1 - key'.tokens) / refillPerMs limit windowSeconds / 1000⌉).toNat := by
  unfold checkRateLimit evalRateLimit at h
  split at h
  · cases h
  · simp only [rateLimitLua, Option.some.injEq, Prod.mk.injEq] at h
    obtain ⟨rfl, rfl⟩ := h
    split at hdenied
    · simp at hdenied
    · rename_i hlow
      simp only [if_neg hlow]
      refine ⟨trivial, not_le.mp hlow, ?_⟩
      rw [refillPerMs_eq]

/-- Refusals leave the tokens of every later time as they are. -/
theorem level_keyAfter {key : RateLimitKey} (hkey : key.Sound limit windowSeconds)
    {between : List Nat} {later : Nat}
    (htimes : (between ++ [later]).Pairwise (· ≤ ·))
    (hstart : ∀ micros ∈ between ++ [later], key.updatedAtMs ≤ redisNowMs micros)
    (hdenied : ∀ e ∈ rateLimitRun RateLimitKey.live limit windowSeconds (some key) between,
      e.1.allowed = false) :
    ∃ k, keyAfter limit windowSeconds (some key) between = some k ∧
      k.Sound limit windowSeconds ∧
      k.bucket.level (limit : ℚ) (refillPerMs limit windowSeconds) (redisNowMs later) =
        key.bucket.level (limit : ℚ) (refillPerMs limit windowSeconds) (redisNowMs later) := by
  have hlimit' : (1 : ℚ) ≤ limit := by exact_mod_cast hlimit
  induction between generalizing key with
  | nil => exact ⟨key, rfl, hkey, rfl⟩
  | cons micros between ih =>
    obtain ⟨result, key', hcheck, htake, hsound⟩ :=
      checkRateLimit_sound hlimit hwindow hkey.some micros
    have hcheck' : evalRateLimit RateLimitKey.live (some key) limit windowSeconds micros =
        some (result, key') := hcheck
    have hbucket : key.bucket.take (limit : ℚ) (refillPerMs limit windowSeconds)
        (redisNowMs micros) = (result.allowed, key'.bucket) := htake
    simp only [rateLimitRun, hcheck', List.forall_mem_cons] at hdenied
    obtain ⟨hresult, hrest⟩ := hdenied
    obtain ⟨hfirst, htail⟩ := List.pairwise_cons.mp htimes
    have hnow : key'.updatedAtMs = redisNowMs micros :=
      (checkRateLimit_refused hcheck hresult).1
    have hstart' : ∀ m ∈ between ++ [later], key'.updatedAtMs ≤ redisNowMs m := by
      intro m hm
      rw [hnow]
      exact redisNowMs_mono (hfirst m hm)
    obtain ⟨k, hafter, hk, hlevel⟩ := ih hsound htail hstart' hrest
    have hwait : redisNowMs micros ≤ redisNowMs later :=
      redisNowMs_mono (hfirst later (by simp))
    have hrefused : (key.bucket.take (limit : ℚ) (refillPerMs limit windowSeconds)
        (redisNowMs micros)).1 = false := by
      rw [hbucket]
      exact hresult
    have hstored : key.bucket.updatedAt ≤ (redisNowMs micros : ℚ) := by
      rw [RateLimitKey.bucket_updatedAt]
      exact_mod_cast hstart micros (by simp)
    have hwait' : (redisNowMs micros : ℚ) ≤ redisNowMs later := by exact_mod_cast hwait
    have hkept := TokenBucket.level_of_refused hlimit' hstored hrefused hwait'
    rw [hbucket] at hkept
    refine ⟨k, ?_, hk, hlevel.trans hkept⟩
    rw [keyAfter, hcheck]
    exact hafter

/-! ### One call more -/

/-- Two keys whose tokens differ by less than a call: so do those that later calls find. -/
theorem trails_run {key key' : Option RateLimitKey} (hkey : ∀ k ∈ key, k.Sound limit windowSeconds)
    (hkey' : ∀ k ∈ key', k.Sound limit windowSeconds) {later : List Nat} {n : Nat}
    (h : ∀ micros ∈ later.head?, TokenBucket.Trails
      ((readBucket (fun _ _ => true) limit key (redisNowMs micros)).level (limit : ℚ)
        (refillPerMs limit windowSeconds) (redisNowMs micros))
      ((readBucket (fun _ _ => true) limit key' (redisNowMs micros)).level (limit : ℚ)
        (refillPerMs limit windowSeconds) (redisNowMs micros)) n)
    {i : Nat} {e e' : RateLimitResult × RateLimitKey}
    (he : (rateLimitRun RateLimitKey.live limit windowSeconds key later)[i]? = some e)
    (he' : (rateLimitRun RateLimitKey.live limit windowSeconds key' later)[i]? = some e') :
    ∃ m, TokenBucket.Trails (seen e) (seen e') m ∧
      granted ((rateLimitRun RateLimitKey.live limit windowSeconds key' later).take i) + m =
        granted ((rateLimitRun RateLimitKey.live limit windowSeconds key later).take i) + n := by
  induction later generalizing key key' n i with
  | nil => simp [rateLimitRun] at he
  | cons micros later ih =>
    obtain ⟨result, k, hcheck, htake, hk⟩ := checkRateLimit_sound hlimit hwindow hkey micros
    obtain ⟨result', k', hcheck', htake', hk'⟩ := checkRateLimit_sound hlimit hwindow hkey' micros
    have hnow := h micros rfl
    change evalRateLimit _ _ _ _ _ = _ at hcheck hcheck'
    simp only [rateLimitRun, hcheck, hcheck'] at he he' ⊢
    cases i with
    | zero =>
      cases he
      cases he'
      refine ⟨n, ?_, rfl⟩
      rw [seen_take htake, seen_take htake']
      exact hnow
    | succ i =>
      obtain ⟨m, hm, hgrants⟩ := hnow.take
      rw [takeAt] at htake htake'
      rw [htake, htake'] at hm hgrants
      -- both keys now carry the time of this call
      have hnext : ∀ t ∈ later.head?, TokenBucket.Trails
          ((readBucket (fun _ _ => true) limit (some k) (redisNowMs t)).level (limit : ℚ)
            (refillPerMs limit windowSeconds) (redisNowMs t))
          ((readBucket (fun _ _ => true) limit (some k') (redisNowMs t)).level (limit : ℚ)
            (refillPerMs limit windowSeconds) (redisNowMs t)) m := by
        intro t _
        have hupdated : k.bucket.updatedAt = k'.bucket.updatedAt := by
          rw [← updatedAt_take htake, ← updatedAt_take htake']
        change TokenBucket.Trails (k.bucket.level _ _ _) (k'.bucket.level _ _ _) m
        rw [TokenBucket.level, TokenBucket.level, hupdated]
        exact hm.gain _ _
      obtain ⟨m', hm', hgrants'⟩ := ih hk.some hk'.some hnext he he'
      refine ⟨m', hm', ?_⟩
      simp only [List.take_succ_cons, granted, List.countP_cons] at hgrants' ⊢
      cases ha : result.allowed <;> cases ha' : result'.allowed <;>
        simp only [ha, ha', Bool.toNat_true, Bool.toNat_false, if_true, if_false,
          Bool.false_eq_true] at hgrants ⊢ <;> omega

theorem callsAfter_eq {key : Option RateLimitKey} (hkey : ∀ k ∈ key, k.Sound limit windowSeconds)
    (before later : List Nat) : callsAfter limit windowSeconds key before later =
      rateLimitRun RateLimitKey.live limit windowSeconds (keyAfter limit windowSeconds key before)
        later := by
  induction before generalizing key with
  | nil => rfl
  | cons micros before ih =>
    obtain ⟨result, k, hcheck, _, hk⟩ := checkRateLimit_sound hlimit hwindow hkey micros
    have heval : evalRateLimit RateLimitKey.live key limit windowSeconds micros = some (result, k) :=
      hcheck
    rw [keyAfter, hcheck, ← ih hk.some]
    simp only [callsAfter, List.cons_append, rateLimitRun, heval, List.length_cons,
      List.drop_succ_cons]

theorem callsAfter_length {key : Option RateLimitKey}
    (hkey : ∀ k ∈ key, k.Sound limit windowSeconds) (before later : List Nat) :
    (callsAfter limit windowSeconds key before later).length = later.length := by
  have hfound := keyAfter_sound hlimit hwindow hkey before
  obtain ⟨hlive, hlength, _⟩ := rateLimitRun_live hlimit hwindow hfound later
  rw [callsAfter_eq hlimit hwindow hkey, hlive, hlength]

/-- What the call after the extra one finds. -/
theorem trails_extra {key : Option RateLimitKey} (hkey : ∀ k ∈ key, k.Sound limit windowSeconds)
    {extra next : Nat} (hback : ∀ k ∈ key, k.updatedAtMs ≤ redisNowMs extra)
    (hnext : redisNowMs extra ≤ redisNowMs next) : TokenBucket.Trails
      ((readBucket (fun _ _ => true) limit key (redisNowMs next)).level (limit : ℚ)
        (refillPerMs limit windowSeconds) (redisNowMs next))
      ((readBucket (fun _ _ => true) limit (keyAfter limit windowSeconds key [extra])
        (redisNowMs next)).level (limit : ℚ) (refillPerMs limit windowSeconds)
        (redisNowMs next)) 0 := by
  have hrate := refillPerMs_nonneg hlimit hwindow
  have hnext' : (redisNowMs extra : ℚ) ≤ redisNowMs next := by exact_mod_cast hnext
  obtain ⟨result, k, hcheck, htake, _⟩ := checkRateLimit_sound hlimit hwindow hkey extra
  have hbucket : (takeAt limit windowSeconds
      (readBucket (fun _ _ => true) limit key (redisNowMs extra)) (redisNowMs extra)).2 = k.bucket := by
    rw [htake]
  have hafter : readBucket (fun _ _ => true) limit (keyAfter limit windowSeconds key [extra])
      (redisNowMs next) = k.bucket := by
    rw [keyAfter, hcheck]
    rfl
  rw [hafter, ← hbucket, takeAt]
  cases key with
  | none =>
    -- a missing key is a full bucket, at this time as at the other
    have hfull (t : Int) (ht : redisNowMs extra ≤ t) :
        (⟨(limit : ℚ), redisNowMs extra⟩ : TokenBucket ℚ).level (limit : ℚ)
          (refillPerMs limit windowSeconds) t = limit := by
      refine min_eq_left ?_
      have hgain := mul_nonneg (le_max_left (0 : ℚ) (t - redisNowMs extra)) hrate
      linarith
    have hstart : (readBucket (fun _ _ => true) limit none (redisNowMs next)).level (limit : ℚ)
        (refillPerMs limit windowSeconds) (redisNowMs next) =
        (⟨(limit : ℚ), redisNowMs extra⟩ : TokenBucket ℚ).level (limit : ℚ)
          (refillPerMs limit windowSeconds) (redisNowMs next) := by
      rw [hfull _ hnext]
      simp [readBucket, TokenBucket.level]
    rw [hstart]
    exact TokenBucket.trails_take le_rfl hrate hnext'
  | some k₀ =>
    have hback' : (k₀.updatedAtMs : ℚ) ≤ redisNowMs extra := by exact_mod_cast hback k₀ rfl
    exact TokenBucket.trails_take (b := k₀.bucket) hback' hrate hnext'

end Runs

theorem retry_after_exact {limit windowSeconds : Int} (hlimit : 1 ≤ limit)
    (hwindow : 1 ≤ windowSeconds) {before between : List Nat} {micros later : Nat}
    (htimes : (micros :: (between ++ [later])).Pairwise (· ≤ ·))
    {refusal : RateLimitResult} {key : RateLimitKey}
    (hcheck : checkRateLimit (keyAfter limit windowSeconds none before) limit windowSeconds micros =
      some (refusal, key))
    (hdenied : refusal.allowed = false)
    (hbetween : ∀ e ∈ rateLimitRun RateLimitKey.live limit windowSeconds (some key) between,
      e.1.allowed = false) :
    RetryAfterExact limit windowSeconds refusal key between micros later := by
  have hlimit' : (1 : ℚ) ≤ limit := by exact_mod_cast hlimit
  have hrate := refillPerMs_pos hlimit hwindow
  obtain ⟨hfirst, htail⟩ := List.pairwise_cons.mp htimes
  have hfound := keyAfter_sound hlimit hwindow sound_none before
  have hkey : key.Sound limit windowSeconds := by
    obtain ⟨result, key', hcheck', _, hsound⟩ :=
      checkRateLimit_sound hlimit hwindow hfound micros
    cases hcheck.symm.trans hcheck'
    exact hsound
  obtain ⟨hnow, hlow, hretry⟩ := checkRateLimit_refused hcheck hdenied
  -- the wait in seconds, of which the reply is the ceiling
  generalize hwait : (1 - key.tokens) / refillPerMs limit windowSeconds / 1000 = wait at hretry
  have hpositive : 0 < wait := by
    rw [← hwait]
    exact div_pos (div_pos (by linarith) hrate) (by norm_num)
  have hceil : 1 ≤ ⌈wait⌉ := Int.one_le_ceil_iff.mpr hpositive
  have hretry' : (refusal.retryAfter : Int) = ⌈wait⌉ := by omega
  refine ⟨by omega, ?_⟩
  have hstored : ∀ m ∈ between ++ [later], key.updatedAtMs ≤ redisNowMs m := by
    intro m hm
    rw [hnow]
    exact redisNowMs_mono (hfirst m hm)
  obtain ⟨k, hafter, hk, hlevel⟩ :=
    level_keyAfter hlimit hwindow hkey htail hstored hbetween
  obtain ⟨result, key', hcall, htake, _⟩ := checkRateLimit_sound hlimit hwindow hk.some later
  have hallowed : result.allowed = true ↔ wait * 1000 ≤ redisNowMs later - redisNowMs micros := by
    have hstart : key.bucket.updatedAt ≤ (redisNowMs later : ℚ) := by
      rw [RateLimitKey.bucket_updatedAt]
      exact_mod_cast hstored later (by simp)
    have hread : k.bucket.take (limit : ℚ) (refillPerMs limit windowSeconds)
        (redisNowMs later) = (result.allowed, key'.bucket) := htake
    have hthousand : wait * 1000 = (1 - key.tokens) / refillPerMs limit windowSeconds := by
      rw [← hwait]
      ring
    rw [← TokenBucket.take_allowed_iff hread, hlevel,
      TokenBucket.one_le_level_iff hlimit' hrate hstart, hthousand, RateLimitKey.bucket_tokens,
      RateLimitKey.bucket_updatedAt, hnow]
  rw [← hafter] at hcall
  refine ⟨result, key', hcall, fun hlate => ?_, fun hearly => ?_⟩
  · rw [hallowed]
    have hlate' : (redisNowMs micros : ℚ) + 1000 * ⌈wait⌉ ≤ redisNowMs later := by
      rw [hretry'] at hlate
      exact_mod_cast hlate
    have hle : wait ≤ ⌈wait⌉ := Int.le_ceil wait
    linarith
  · rw [← Bool.not_eq_true, hallowed]
    have hearly' : (redisNowMs later : ℚ) ≤ redisNowMs micros + 1000 * (⌈wait⌉ - 1) := by
      rw [hretry'] at hearly
      exact_mod_cast hearly
    have hlt : (⌈wait⌉ : ℚ) < wait + 1 := Int.ceil_lt_add_one wait
    intro hle
    linarith

/-- Ten calls a minute: a refused client waits six seconds, whether or not it asks after five. -/
theorem sample_retry_after :
    (checkRateLimit (keyAfter 10 60 none (List.replicate 10 0)) 10 60 0).map (·.1.retryAfter) =
      some 6 ∧
    RetryAfterExact 10 60 ⟨false, 0, 6⟩ ⟨0, 0, 120000⟩ [2000000, 5000000] 0 6000000 := by
  have hcheck : checkRateLimit (keyAfter 10 60 none (List.replicate 10 0)) 10 60 0 =
      some (⟨false, 0, 6⟩, ⟨0, 0, 120000⟩) := by decide +kernel
  exact ⟨by rw [hcheck]; rfl, retry_after_exact (by decide) (by decide) (by decide) hcheck rfl
    (by decide +kernel)⟩

theorem extra_call {limit windowSeconds : Int} (hlimit : 1 ≤ limit) (hwindow : 1 ≤ windowSeconds)
    {key : Option RateLimitKey} (hkey : ∀ k ∈ key, k.Sound limit windowSeconds)
    {before later : List Nat} {extra : Nat}
    (hback : ∀ k ∈ keyAfter limit windowSeconds key before, k.updatedAtMs ≤ redisNowMs extra)
    (hnext : ∀ micros ∈ later.head?, redisNowMs extra ≤ redisNowMs micros) :
    ExtraCall limit windowSeconds key before extra later := by
  have hfound := keyAfter_sound hlimit hwindow hkey before
  have hfound' := keyAfter_sound hlimit hwindow hkey (before ++ [extra])
  refine ⟨⟨callsAfter_length hlimit hwindow hkey before later,
    callsAfter_length hlimit hwindow hkey (before ++ [extra]) later⟩, fun i e e' he he' => ?_⟩
  rw [callsAfter_eq hlimit hwindow hkey] at he he' ⊢
  rw [callsAfter_eq hlimit hwindow hkey]
  rw [keyAfter_append hlimit hwindow hkey] at hfound' he' ⊢
  obtain ⟨missed, htrails, hgrants⟩ := trails_run hlimit hwindow hfound hfound'
    (fun micros hm => trails_extra hlimit hwindow hfound hback (hnext micros hm)) he he'
  refine ⟨missed, htrails.le_one, by omega, ?_, htrails.lt⟩
  rintro rfl
  exact htrails.le

/-- Two calls a second: of the calls after the extra one the second is missed. -/
theorem sample_extra_call :
    (callsAfter 2 1 none [0] [500000, 500000, 500000]).map (·.1.allowed) = [true, true, false] ∧
    (callsAfter 2 1 none [0, 0] [500000, 500000, 500000]).map (·.1.allowed) =
      [true, false, false] ∧
    ExtraCall 2 1 none [0] 0 [500000, 500000, 500000] :=
  ⟨by decide +kernel, by decide +kernel,
    extra_call (by decide) (by decide) sound_none (by decide +kernel) (by decide)⟩

/-- No call after the extra one finds more than it does without it. -/
def FindsNoMore (limit windowSeconds : Int) (key : Option RateLimitKey) (before : List Nat)
    (extra : Nat) (later : List Nat) : Prop :=
  ((callsAfter limit windowSeconds key (before ++ [extra]) later).map seen).Forall₂ (· ≤ ·)
    ((callsAfter limit windowSeconds key before later).map seen)

/-- One call a second. A call that is missed for the extra one leaves its half token to the next;
and a clock that steps back after the extra call has given it the refill of the step. -/
theorem missed_call_leaves_tokens :
    ¬ FindsNoMore 1 1 none [] 0 [500000, 500000] ∧
    ¬ FindsNoMore 2 1 none [0, 0] 1000000 [0] := by
  refine ⟨?_, ?_⟩
  · unfold FindsNoMore
    decide +kernel
  · unfold FindsNoMore
    decide +kernel

end TenantFlow
