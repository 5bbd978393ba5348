import TenantFlow.Infra.RateLimit
import TenantFlow.Library.TokenBucket
import Mathlib.Data.Rat.Floor
import Mathlib.Algebra.Order.Ring.Cast

/-!
# The login quota

The script keeps a token bucket under its key. A key lives for at least two windows and a
bucket fills up in one, so a key that has expired stood for a full bucket.
-/

namespace TenantFlow

open Transactional

/-- The bucket that the script works on; without a hash to read it is full. -/
def scriptBucket (state : Option (ℚ × Int)) (capacity : ℚ) (nowMs : Int) : TokenBucket ℚ :=
  ⟨(state.getD (capacity, nowMs)).1, (state.getD (capacity, nowMs)).2⟩

section Script

variable {state : Option (ℚ × Int)} {capacity windowMs : ℚ} {nowMs : Int}

theorem scriptBucket_level : (scriptBucket state capacity nowMs).level capacity (capacity / windowMs)
    nowMs = min capacity ((state.getD (capacity, nowMs)).1 +
      ((max 0 (nowMs - (state.getD (capacity, nowMs)).2) : Int) : ℚ) * (capacity / windowMs)) := by
  simp [scriptBucket, TokenBucket.level]

/-- The script takes a token from its bucket. -/
theorem rateLimitLua_take (state : Option (ℚ × Int)) (capacity windowMs : ℚ) (nowMs : Int) :
    ((rateLimitLua state capacity windowMs nowMs).1.1 ≠ 0 ↔
      ((scriptBucket state capacity nowMs).take capacity (capacity / windowMs) nowMs).1 = true) ∧
    (rateLimitLua state capacity windowMs nowMs).2 =
      ((scriptBucket state capacity nowMs).take capacity (capacity / windowMs) nowMs).2.tokens := by
  simp only [rateLimitLua, TokenBucket.take, scriptBucket_level]
  split
  · simp
  · simp

/-- The reply depends on the level of the bucket only. -/
theorem rateLimitLua_congr {state' : Option (ℚ × Int)}
    (h : (scriptBucket state capacity nowMs).level capacity (capacity / windowMs) nowMs =
      (scriptBucket state' capacity nowMs).level capacity (capacity / windowMs) nowMs) :
    rateLimitLua state capacity windowMs nowMs = rateLimitLua state' capacity windowMs nowMs := by
  rw [scriptBucket_level, scriptBucket_level] at h
  simp only [rateLimitLua, h]

end Script

/-- The clock of the script runs with the clock of Redis. -/
theorem redisNowMs_mono {m n : Nat} (h : m ≤ n) : redisNowMs m ≤ redisNowMs n := by
  unfold redisNowMs
  omega

/-! ## Runs -/

/-- The answers to calls at these times, with the key that each of them leaves. -/
def rateLimitRun (readable : RateLimitKey → Int → Bool) (limit windowSeconds : Int) :
    Option RateLimitKey → List Nat → List (RateLimitResult × RateLimitKey)
  | _, [] => []
  | key, micros :: rest =>
    match evalRateLimit readable key limit windowSeconds micros with
    | none => []
    | some (result, key') =>
      (result, key') :: rateLimitRun readable limit windowSeconds (some key') rest

/-- How many of the calls at these times were allowed between `lo` and `hi`. -/
def allowedWithin (lo hi : ℚ) (times : List Nat) (run : List (RateLimitResult × RateLimitKey)) :
    Nat :=
  (times.zip run).countP fun e => e.2.1.allowed ∧ lo ≤ redisNowMs e.1 ∧ redisNowMs e.1 ≤ hi

/-- The calls on one key, of which the first finds no key. -/
structure LoginQuota (limit windowSeconds : Int) (times : List Nat) : Prop where
  /-- Every call is answered. -/
  answered : (rateLimitRun RateLimitKey.live limit windowSeconds none times).length = times.length
  quota : ∀ lo hi : ℚ, lo ≤ hi →
    (allowedWithin lo hi times (rateLimitRun RateLimitKey.live limit windowSeconds none times) : ℚ) ≤
      limit + (hi - lo) * limit / (windowSeconds * 1000)
  tokens : ∀ e ∈ rateLimitRun RateLimitKey.live limit windowSeconds none times,
    0 ≤ e.2.tokens ∧ e.2.tokens ≤ limit
  /-- A key that never expires gives the same answers. -/
  persistent : (rateLimitRun RateLimitKey.live limit windowSeconds none times).map Prod.fst =
    (rateLimitRun (fun _ _ => true) limit windowSeconds none times).map Prod.fst

section Runs

variable {limit windowSeconds : Int}

/-- Tokens per millisecond. -/
def refillPerMs (limit windowSeconds : Int) : ℚ := limit / (windowSeconds * 1000)

def takeAt (limit windowSeconds : Int) (b : TokenBucket ℚ) (nowMs : Int) : Bool × TokenBucket ℚ :=
  b.take (limit : ℚ) (refillPerMs limit windowSeconds) nowMs

def RateLimitKey.bucket (key : RateLimitKey) : TokenBucket ℚ := ⟨key.tokens, key.updatedAtMs⟩

@[simp] theorem RateLimitKey.bucket_tokens (key : RateLimitKey) : key.bucket.tokens = key.tokens :=
  rfl

@[simp] theorem RateLimitKey.bucket_updatedAt (key : RateLimitKey) :
    key.bucket.updatedAt = (key.updatedAtMs : ℚ) := rfl

/-- The bucket that a call finds. -/
def readBucket (readable : RateLimitKey → Int → Bool) (limit : Int) (key : Option RateLimitKey)
    (nowMs : Int) : TokenBucket ℚ :=
  ((key.filter (readable · nowMs)).map RateLimitKey.bucket).getD ⟨limit, nowMs⟩

/-- A key as `check_rate_limit` leaves it. -/
structure RateLimitKey.Sound (limit windowSeconds : Int) (key : RateLimitKey) : Prop where
  nonneg : 0 ≤ key.tokens
  le_limit : key.tokens ≤ limit
  expires : key.updatedAtMs + windowSeconds * 1000 ≤ key.expiresAtMs

theorem sound_none : ∀ k ∈ (none : Option RateLimitKey), k.Sound limit windowSeconds :=
  fun _ hk => nomatch hk

theorem RateLimitKey.Sound.some {key : RateLimitKey} (h : key.Sound limit windowSeconds) :
    ∀ k ∈ some key, k.Sound limit windowSeconds := by
  rintro k ⟨⟩
  exact h

theorem readBucket_eq (readable : RateLimitKey → Int → Bool) (limit : Int)
    (key : Option RateLimitKey) (nowMs : Int) :
    readBucket readable limit key nowMs = scriptBucket
      ((key.filter (readable · nowMs)).map fun k => (k.tokens, k.updatedAtMs)) limit nowMs := by
  unfold readBucket scriptBucket
  cases key.filter (readable · nowMs) with
  | none => rfl
  | some k => rfl

theorem refillPerMs_eq (limit windowSeconds : Int) :
    refillPerMs limit windowSeconds = limit / ((windowSeconds * 1000 : Int) : ℚ) := by
  rw [refillPerMs]
  push_cast
  rfl

variable (hlimit : 1 ≤ limit) (hwindow : 1 ≤ windowSeconds)

include hlimit hwindow

theorem refillPerMs_nonneg : 0 ≤ refillPerMs limit windowSeconds := by
  have hlimit' : (1 : ℚ) ≤ limit := by exact_mod_cast hlimit
  have hwindow' : (1 : ℚ) ≤ windowSeconds := by exact_mod_cast hwindow
  unfold refillPerMs
  positivity

theorem evalRateLimit_spec (readable : RateLimitKey → Int → Bool) (key : Option RateLimitKey)
    (micros : Nat) : ∃ result key',
    evalRateLimit readable key limit windowSeconds micros = some (result, key') ∧
    takeAt limit windowSeconds (readBucket readable limit key (redisNowMs micros))
      (redisNowMs micros) = (result.allowed, key'.bucket) ∧
    key'.updatedAtMs + windowSeconds * 1000 ≤ key'.expiresAtMs := by
  have hvalid : ¬ (limit ≤ 0 ∨ windowSeconds ≤ 0) := by omega
  let state := (key.filter (readable · (redisNowMs micros))).map fun k => (k.tokens, k.updatedAtMs)
  let reply := rateLimitLua state limit ((windowSeconds * 1000 : Int) : ℚ) (redisNowMs micros)
  have heval : evalRateLimit readable key limit windowSeconds micros = some
      (⟨decide (reply.1.1 ≠ 0), (max 0 reply.1.2.1).toNat, (max 0 reply.1.2.2).toNat⟩,
        ⟨reply.2, redisNowMs micros,
          redisNowMs micros + max (windowSeconds * 1000 * 2) 1000⟩) := by
    unfold evalRateLimit
    rw [if_neg hvalid]
  refine ⟨_, _, heval, ?_, ?_⟩
  · obtain ⟨hallowed, htokens⟩ := rateLimitLua_take state limit
      ((windowSeconds * 1000 : Int) : ℚ) (redisNowMs micros)
    rw [readBucket_eq, takeAt, refillPerMs_eq]
    refine Prod.ext ?_ ?_
    · rw [Bool.eq_iff_iff, ← hallowed, decide_eq_true_iff]
    · rw [RateLimitKey.bucket, htokens]
      simp only [TokenBucket.take]
      split <;> rfl
  · dsimp only
    omega

/-- After one window the bucket is full. -/
theorem RateLimitKey.Sound.level_eq {key : RateLimitKey} (h : key.Sound limit windowSeconds)
    {nowMs : Int} (hage : windowSeconds * 1000 ≤ nowMs - key.updatedAtMs) :
    key.bucket.level (limit : ℚ) (refillPerMs limit windowSeconds) nowMs = limit := by
  have hwindow' : (1 : ℚ) ≤ windowSeconds := by exact_mod_cast hwindow
  have hage' : (windowSeconds : ℚ) * 1000 ≤ nowMs - key.updatedAtMs := by exact_mod_cast hage
  have hrate := refillPerMs_nonneg hlimit hwindow
  refine TokenBucket.level_eq_capacity h.nonneg hrate ?_
  calc (limit : ℚ) = windowSeconds * 1000 * refillPerMs limit windowSeconds := by
        rw [refillPerMs]
        field_simp
    _ ≤ (nowMs - key.updatedAtMs) * refillPerMs limit windowSeconds :=
        mul_le_mul_of_nonneg_right hage' hrate

/-- An expired key stood for a full bucket. -/
theorem evalRateLimit_live {key : Option RateLimitKey}
    (hkey : ∀ k ∈ key, k.Sound limit windowSeconds) (micros : Nat) :
    evalRateLimit RateLimitKey.live key limit windowSeconds micros =
      evalRateLimit (fun _ _ => true) key limit windowSeconds micros := by
  cases key with
  | none => rfl
  | some k =>
    by_cases hlive : k.live (redisNowMs micros) = true
    · simp only [evalRateLimit, Option.filter, hlive]
    · have hsound := hkey k rfl
      have hage : windowSeconds * 1000 ≤ redisNowMs micros - k.updatedAtMs := by
        have hexpires := hsound.expires
        simp only [RateLimitKey.live, decide_eq_true_eq] at hlive
        omega
      have hold := hsound.level_eq hlimit hwindow hage
      have hnew : (scriptBucket none limit (redisNowMs micros)).level (limit : ℚ)
          (refillPerMs limit windowSeconds) (redisNowMs micros) = limit := by
        simp [scriptBucket, TokenBucket.level]
      have hreply : rateLimitLua none limit ((windowSeconds * 1000 : Int) : ℚ)
          (redisNowMs micros) = rateLimitLua (some (k.tokens, k.updatedAtMs)) limit
          ((windowSeconds * 1000 : Int) : ℚ) (redisNowMs micros) := by
        refine rateLimitLua_congr ?_
        rw [← refillPerMs_eq, hnew]
        exact hold.symm
      simp only [evalRateLimit, Option.filter, hlive, Bool.false_eq_true, ↓reduceIte,
        Option.map_none, Option.map_some, hreply]

theorem evalRateLimit_sound {key : Option RateLimitKey}
    (hkey : ∀ k ∈ key, k.Sound limit windowSeconds) (micros : Nat) : ∃ result key',
    evalRateLimit (fun _ _ => true) key limit windowSeconds micros = some (result, key') ∧
    takeAt limit windowSeconds (readBucket (fun _ _ => true) limit key (redisNowMs micros))
      (redisNowMs micros) = (result.allowed, key'.bucket) ∧ key'.Sound limit windowSeconds := by
  obtain ⟨result, key', heval, htake, hexpires⟩ :=
    evalRateLimit_spec hlimit hwindow (fun _ _ => true) key micros
  have hlimit' : (1 : ℚ) ≤ limit := by exact_mod_cast hlimit
  have hread : 0 ≤ (readBucket (fun _ _ => true) limit key (redisNowMs micros)).tokens := by
    cases key with
    | none =>
      change (0 : ℚ) ≤ limit
      linarith
    | some k => exact (hkey k rfl).nonneg
  have hbounds := TokenBucket.take_tokens_bounds (t := (redisNowMs micros : ℚ))
    (by linarith : (0 : ℚ) ≤ limit) (refillPerMs_nonneg hlimit hwindow) hread
  rw [takeAt] at htake
  rw [htake] at hbounds
  exact ⟨result, key', heval, htake, hbounds.1, hbounds.2, hexpires⟩

/-- Keys that expire and keys that do not: the runs are the same, and every key is sound. -/
theorem rateLimitRun_live {key : Option RateLimitKey}
    (hkey : ∀ k ∈ key, k.Sound limit windowSeconds) (times : List Nat) :
    rateLimitRun RateLimitKey.live limit windowSeconds key times =
      rateLimitRun (fun _ _ => true) limit windowSeconds key times ∧
    (rateLimitRun (fun _ _ => true) limit windowSeconds key times).length = times.length ∧
    ∀ e ∈ rateLimitRun (fun _ _ => true) limit windowSeconds key times,
      e.2.Sound limit windowSeconds := by
  induction times generalizing key with
  | nil => simp [rateLimitRun]
  | cons micros times ih =>
    obtain ⟨result, key', heval, _, hsound⟩ := evalRateLimit_sound hlimit hwindow hkey micros
    obtain ⟨hrun, hlength, hkeys⟩ := ih hsound.some
    have hlive := (evalRateLimit_live hlimit hwindow hkey micros).trans heval
    simp only [rateLimitRun, hlive, heval, hrun, List.length_cons, hlength, true_and]
    intro e he
    rcases List.mem_cons.mp he with rfl | he
    · exact hsound
    · exact hkeys e he

/-- The allowed calls are those that get a token from the bucket. -/
theorem allowedWithin_run (lo hi : ℚ) {key : RateLimitKey}
    (hkey : key.Sound limit windowSeconds) (times : List Nat) :
    allowedWithin lo hi times (rateLimitRun (fun _ _ => true) limit windowSeconds (some key) times) =
      key.bucket.grants (limit : ℚ) (refillPerMs limit windowSeconds) lo hi
        (times.map fun micros => (redisNowMs micros : ℚ)) := by
  induction times generalizing key with
  | nil => rfl
  | cons micros times ih =>
    obtain ⟨result, key', heval, htake, hsound⟩ :=
      evalRateLimit_sound hlimit hwindow hkey.some micros
    have hbucket : key.bucket.take (limit : ℚ) (refillPerMs limit windowSeconds)
        (redisNowMs micros) = (result.allowed, key'.bucket) := htake
    simp only [rateLimitRun, heval, List.map_cons, TokenBucket.grants, hbucket, ← ih hsound,
      allowedWithin, List.zip_cons_cons, List.countP_cons, decide_eq_true_eq]
    omega

/-- A missing key counts as a full bucket. -/
theorem allowedWithin_le {lo hi : ℚ} (hlohi : lo ≤ hi) {times : List Nat}
    (htimes : times.Pairwise (· ≤ ·)) :
    (allowedWithin lo hi times (rateLimitRun (fun _ _ => true) limit windowSeconds none times) : ℚ)
      ≤ limit + (hi - lo) * refillPerMs limit windowSeconds := by
  have hlimit' : (1 : ℚ) ≤ limit := by exact_mod_cast hlimit
  have hrate := refillPerMs_nonneg hlimit hwindow
  have hsorted : (times.map fun micros => (redisNowMs micros : ℚ)).Pairwise (· ≤ ·) :=
    List.pairwise_map.mpr (htimes.imp fun h => by exact_mod_cast redisNowMs_mono h)
  let full : RateLimitKey :=
    ⟨limit, redisNowMs (times.headD 0), redisNowMs (times.headD 0) + windowSeconds * 1000⟩
  have hfull : full.Sound limit windowSeconds := ⟨by change (0 : ℚ) ≤ limit; linarith, le_rfl, le_rfl⟩
  have hstart : rateLimitRun (fun _ _ => true) limit windowSeconds none times =
      rateLimitRun (fun _ _ => true) limit windowSeconds (some full) times := by
    cases times with
    | nil => rfl
    | cons micros times => rfl
  rw [hstart, allowedWithin_run hlimit hwindow lo hi hfull]
  exact TokenBucket.grants_le (by linarith) hrate hlohi hsorted hfull.nonneg

end Runs

theorem login_quota {limit windowSeconds : Int} (hlimit : 1 ≤ limit) (hwindow : 1 ≤ windowSeconds)
    {times : List Nat} (htimes : times.Pairwise (· ≤ ·)) :
    LoginQuota limit windowSeconds times := by
  obtain ⟨hrun, hlength, hkeys⟩ := rateLimitRun_live hlimit hwindow sound_none times
  refine ⟨?_, fun lo hi hlohi => ?_, ?_, ?_⟩
  · rw [hrun, hlength]
  · rw [hrun, mul_div_assoc]
    exact allowedWithin_le hlimit hwindow hlohi htimes
  · rw [hrun]
    exact fun e he => ⟨(hkeys e he).nonneg, (hkeys e he).le_limit⟩
  · rw [hrun]

/-- Ten calls a minute: the eleventh in a row is refused, and a day later the key is gone. -/
theorem sample_login_quota :
    (rateLimitRun RateLimitKey.live 10 60 none
      (List.replicate 11 5000000 ++ [86400000000])).map (·.1.allowed) =
        List.replicate 10 true ++ [false, true] ∧
    LoginQuota 10 60 (List.replicate 11 5000000 ++ [86400000000]) :=
  ⟨by decide +kernel, login_quota (by decide) (by decide) (by decide)⟩

end TenantFlow
