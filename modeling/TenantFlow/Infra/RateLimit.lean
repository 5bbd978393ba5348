import TenantFlow.Core.Request
import Mathlib.Algebra.Order.Floor.Ring

/-!
# The login rate limit

The Lua script is one atomic step of Redis. Its numbers are exact here.
-/

namespace TenantFlow

/-- The hash under a key, with the time at which the key expires. -/
structure RateLimitKey where
  tokens : ℚ
  updatedAtMs : Int
  expiresAtMs : Int
  deriving DecidableEq

/-- `now_ms`, from the seconds and microseconds of `TIME`. -/
def redisNowMs (micros : Nat) : Int := micros / 1000000 * 1000 + micros % 1000000 / 1000

/-- `RATE_LIMIT_LUA`, up to its writes: the reply, and the tokens to store. -/
def rateLimitLua (state : Option (ℚ × Int)) (capacity windowMs : ℚ) (nowMs : Int) :
    (Int × Int × Int) × ℚ :=
  let (tokens, updatedAtMs) := state.getD (capacity, nowMs)
  let refillPerMs := capacity / windowMs
  let elapsedMs : Int := max 0 (nowMs - updatedAtMs)
  let tokens := min capacity (tokens + elapsedMs * refillPerMs)
  if tokens ≥ 1 then ((1, ⌊tokens - 1⌋, 0), tokens - 1)
  else ((0, ⌊tokens⌋, ⌈(1 - tokens) / refillPerMs / 1000⌉), tokens)

/-- `check_rate_limit` against a Redis whose commands see a key only while it is `readable`;
`none` for the `ValueError`. -/
def evalRateLimit (readable : RateLimitKey → Int → Bool) (key : Option RateLimitKey)
    (limit windowSeconds : Int) (micros : Nat) : Option (RateLimitResult × RateLimitKey) :=
  if limit ≤ 0 ∨ windowSeconds ≤ 0 then none
  else
    let nowMs := redisNowMs micros
    let windowMs := windowSeconds * 1000
    let state := (key.filter (readable · nowMs)).map fun k => (k.tokens, k.updatedAtMs)
    let ((allowed, remaining, retryAfter), tokens) := rateLimitLua state limit windowMs nowMs
    some
      ({ allowed := allowed ≠ 0, remaining := (max 0 remaining).toNat,
         retryAfter := (max 0 retryAfter).toNat },
        { tokens, updatedAtMs := nowMs, expiresAtMs := nowMs + max (windowMs * 2) 1000 })

/-- A key is gone once its time to live is over. -/
def RateLimitKey.live (key : RateLimitKey) (nowMs : Int) : Bool := nowMs < key.expiresAtMs

/-- `check_rate_limit` -/
def checkRateLimit (key : Option RateLimitKey) (limit windowSeconds : Int) (micros : Nat) :
    Option (RateLimitResult × RateLimitKey) :=
  evalRateLimit RateLimitKey.live key limit windowSeconds micros

end TenantFlow
