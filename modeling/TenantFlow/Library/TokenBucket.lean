import Mathlib.Algebra.Order.Field.Basic
import Mathlib.Tactic.Linarith
import Mathlib.Tactic.Positivity
import Mathlib.Tactic.Ring

/-!
# Token buckets

A bucket gains tokens at a constant rate up to its capacity, and a request takes one token if
there is one. The potential argument: tokens taken plus tokens left grow no faster than the
bucket refills.
-/

namespace Transactional

/-- A number of tokens, as of some time. -/
structure TokenBucket (K : Type) where
  tokens : K
  updatedAt : K

namespace TokenBucket

section Bucket

variable {K : Type} [Field K] [LinearOrder K]

/-- The tokens in the bucket at time `t`. -/
def level (capacity rate : K) (b : TokenBucket K) (t : K) : K :=
  min capacity (b.tokens + max 0 (t - b.updatedAt) * rate)

/-- One request at time `t`: whether it gets a token, and the bucket after it. -/
def take (capacity rate : K) (b : TokenBucket K) (t : K) : Bool × TokenBucket K :=
  if 1 ≤ b.level capacity rate t then (true, ⟨b.level capacity rate t - 1, t⟩)
  else (false, ⟨b.level capacity rate t, t⟩)

/-- The number of requests in `[lo, hi]` that get a token. -/
def grants (capacity rate : K) (lo hi : K) : TokenBucket K → List K → Nat
  | _, [] => 0
  | b, t :: ts =>
    (if (b.take capacity rate t).1 ∧ lo ≤ t ∧ t ≤ hi then 1 else 0) +
      grants capacity rate lo hi (b.take capacity rate t).2 ts

variable {capacity rate t : K} {b : TokenBucket K}

@[simp] theorem take_updatedAt : (b.take capacity rate t).2.updatedAt = t := by
  unfold take
  split <;> rfl

theorem take_true (h : (b.take capacity rate t).1 = true) :
    1 ≤ b.level capacity rate t ∧ (b.take capacity rate t).2.tokens = b.level capacity rate t - 1 := by
  unfold take at h ⊢
  split at h
  · rename_i hlevel
    rw [if_pos hlevel]
    exact ⟨hlevel, rfl⟩
  · cases h

theorem take_allowed_iff {allowed : Bool} {b' : TokenBucket K}
    (h : b.take capacity rate t = (allowed, b')) : 1 ≤ b.level capacity rate t ↔ allowed = true := by
  unfold take at h
  split at h
  · rename_i hlevel
    cases h
    simp [hlevel]
  · rename_i hlevel
    cases h
    simp [hlevel]

theorem take_false (h : (b.take capacity rate t).1 = false) :
    (b.take capacity rate t).2.tokens = b.level capacity rate t := by
  unfold take at h ⊢
  split at h
  · cases h
  · rename_i hlevel
    rw [if_neg hlevel]

theorem level_le_capacity : b.level capacity rate t ≤ capacity := min_le_left _ _

theorem grants_eq_zero {lo hi : K} {ts : List K} (h : ∀ t ∈ ts, hi < t) :
    b.grants capacity rate lo hi ts = 0 := by
  induction ts generalizing b with
  | nil => rfl
  | cons t ts ih =>
    have hlate : ¬ t ≤ hi := not_le.mpr (h t List.mem_cons_self)
    simp only [grants, hlate, and_false, ↓reduceIte, Nat.zero_add]
    exact ih fun t' ht' => h t' (List.mem_cons_of_mem _ ht')

theorem grants_of_late {lo hi : K} {ts : List K} (hts : (t :: ts).Pairwise (· ≤ ·))
    (h : hi < t) : b.grants capacity rate lo hi (t :: ts) = 0 := by
  refine grants_eq_zero fun t' ht' => ?_
  rcases List.mem_cons.mp ht' with rfl | ht'
  · exact h
  · exact h.trans_le ((List.pairwise_cons.mp hts).1 t' ht')

/-- The tokens of a bucket against those of another one that has granted `n` requests fewer. -/
inductive Trails (tokens : K) : K → Nat → Prop
  | even {tokens'} : tokens' ≤ tokens → tokens ≤ tokens' + 1 → Trails tokens tokens' 0
  | behind {tokens'} : tokens ≤ tokens' → tokens' < tokens + 1 → Trails tokens tokens' 1

theorem Trails.le {x x' : K} (h : Trails x x' 0) : x' ≤ x := by
  cases h with
  | even hle _ => exact hle

theorem Trails.le_one {x x' : K} {n : Nat} (h : Trails x x' n) : n ≤ 1 := by
  cases h <;> decide

variable [IsStrictOrderedRing K]

theorem level_nonneg (hcapacity : 0 ≤ capacity) (hrate : 0 ≤ rate) (htokens : 0 ≤ b.tokens) :
    0 ≤ b.level capacity rate t :=
  le_min hcapacity (add_nonneg htokens (mul_nonneg (le_max_left _ _) hrate))

theorem level_le (ht : b.updatedAt ≤ t) :
    b.level capacity rate t ≤ b.tokens + (t - b.updatedAt) * rate := by
  have hmax : max 0 (t - b.updatedAt) = t - b.updatedAt := max_eq_right (by linarith)
  rw [level, hmax]
  exact min_le_right _ _

/-- Once it has had the time to fill up, a bucket is full. -/
theorem level_eq_capacity (htokens : 0 ≤ b.tokens) (hrate : 0 ≤ rate)
    (h : capacity ≤ (t - b.updatedAt) * rate) : b.level capacity rate t = capacity := by
  refine min_eq_left ?_
  have hmax : (t - b.updatedAt) * rate ≤ max 0 (t - b.updatedAt) * rate :=
    mul_le_mul_of_nonneg_right (le_max_right _ _) hrate
  linarith

theorem take_tokens_bounds (hcapacity : 0 ≤ capacity) (hrate : 0 ≤ rate) (htokens : 0 ≤ b.tokens) :
    0 ≤ (b.take capacity rate t).2.tokens ∧ (b.take capacity rate t).2.tokens ≤ capacity := by
  have hle : b.level capacity rate t ≤ capacity := level_le_capacity
  cases h : (b.take capacity rate t).1 with
  | true =>
    obtain ⟨hlevel, htokens'⟩ := take_true h
    rw [htokens']
    exact ⟨by linarith, by linarith⟩
  | false =>
    rw [take_false h]
    exact ⟨level_nonneg hcapacity hrate htokens, hle⟩

/-- A token is taken out of what the bucket holds. -/
theorem take_grant_le (capacity rate : K) (b : TokenBucket K) (t lo hi : K) :
    ((if (b.take capacity rate t).1 ∧ lo ≤ t ∧ t ≤ hi then 1 else 0 : Nat) : K) +
      (b.take capacity rate t).2.tokens ≤ b.level capacity rate t := by
  cases h : (b.take capacity rate t).1 with
  | true =>
    rw [(take_true h).2]
    split
    · simp
    · simp
  | false =>
    rw [take_false h]
    simp

/-- From a time on, no more requests get a token than the bucket holds and gains. -/
theorem grants_le_tokens (hcapacity : 0 ≤ capacity) (hrate : 0 ≤ rate) (lo : K) {hi : K}
    {ts : List K} (hts : (b.updatedAt :: ts).Pairwise (· ≤ ·)) (htokens : 0 ≤ b.tokens)
    (hhi : b.updatedAt ≤ hi) :
    (b.grants capacity rate lo hi ts : K) ≤ b.tokens + (hi - b.updatedAt) * rate := by
  induction ts generalizing b with
  | nil =>
    have hgain : 0 ≤ (hi - b.updatedAt) * rate := mul_nonneg (by linarith) hrate
    simp only [grants, Nat.cast_zero]
    linarith
  | cons t ts ih =>
    obtain ⟨hfirst, hrest⟩ := List.pairwise_cons.mp hts
    have ht : b.updatedAt ≤ t := hfirst t List.mem_cons_self
    have hnonneg := (take_tokens_bounds (t := t) hcapacity hrate htokens).1
    by_cases hle : t ≤ hi
    · have hlater := ih (b := (b.take capacity rate t).2) (by simpa using hrest) hnonneg
        (by simpa using hle)
      have hnow := take_grant_le capacity rate b t lo hi
      have hlevel : b.level capacity rate t ≤ b.tokens + (t - b.updatedAt) * rate := level_le ht
      rw [take_updatedAt] at hlater
      simp only [grants, Nat.cast_add]
      linarith
    · have hgain : 0 ≤ (hi - b.updatedAt) * rate := mul_nonneg (by linarith) hrate
      rw [grants_of_late hrest (not_le.mp hle), Nat.cast_zero]
      linarith

/-- The quota: in an interval no more requests get a token than a full bucket holds and gains. -/
theorem grants_le (hcapacity : 0 ≤ capacity) (hrate : 0 ≤ rate) {lo hi : K} (hlohi : lo ≤ hi)
    {ts : List K} (hts : ts.Pairwise (· ≤ ·)) (htokens : 0 ≤ b.tokens) :
    (b.grants capacity rate lo hi ts : K) ≤ capacity + (hi - lo) * rate := by
  have hgain : 0 ≤ (hi - lo) * rate := mul_nonneg (by linarith) hrate
  induction ts generalizing b with
  | nil =>
    simp only [grants, Nat.cast_zero]
    linarith
  | cons t ts ih =>
    have hnonneg := (take_tokens_bounds (t := t) hcapacity hrate htokens).1
    by_cases hlo : lo ≤ t
    · by_cases hhi : t ≤ hi
      · have hlater := grants_le_tokens (b := (b.take capacity rate t).2) hcapacity hrate lo
          (by simpa using hts) hnonneg (by simpa using hhi)
        have hnow := take_grant_le capacity rate b t lo hi
        have hlevel : b.level capacity rate t ≤ capacity := level_le_capacity
        have hshrink : (hi - t) * rate ≤ (hi - lo) * rate :=
          mul_le_mul_of_nonneg_right (by linarith) hrate
        rw [take_updatedAt] at hlater
        simp only [grants, Nat.cast_add]
        linarith
      · rw [grants_of_late hts (not_le.mp hhi), Nat.cast_zero]
        linarith
    · have hlater := ih (b := (b.take capacity rate t).2) (List.pairwise_cons.mp hts).2 hnonneg
      simpa only [grants, hlo, false_and, and_false, ↓reduceIte, Nat.zero_add] using hlater

/-! ## Waiting -/

/-- When a bucket has its next token. -/
theorem one_le_level_iff (hcapacity : 1 ≤ capacity) (hrate : 0 < rate) (ht : b.updatedAt ≤ t) :
    1 ≤ b.level capacity rate t ↔ (1 - b.tokens) / rate ≤ t - b.updatedAt := by
  have hmax : max 0 (t - b.updatedAt) = t - b.updatedAt := max_eq_right (by linarith)
  rw [level, hmax, le_min_iff, div_le_iff₀ hrate]
  constructor
  · rintro ⟨_, h⟩
    linarith
  · intro h
    exact ⟨hcapacity, by linarith⟩

/-- A request that gets no token only writes down what the bucket has gained so far. -/
theorem level_of_refused (hcapacity : 1 ≤ capacity) (hb : b.updatedAt ≤ t)
    (h : (b.take capacity rate t).1 = false) {t' : K} (ht : t ≤ t') :
    (b.take capacity rate t).2.level capacity rate t' = b.level capacity rate t' := by
  have hnow : max 0 (t - b.updatedAt) = t - b.updatedAt := max_eq_right (by linarith)
  have hlater : max 0 (t' - b.updatedAt) = t' - b.updatedAt := max_eq_right (by linarith)
  have hwait : max 0 (t' - t) = t' - t := max_eq_right (by linarith)
  have hlevel : ¬ 1 ≤ b.level capacity rate t := by
    intro hle
    rw [take, if_pos hle] at h
    cases h
  have htokens : (b.take capacity rate t).2.tokens = b.tokens + (t - b.updatedAt) * rate := by
    rw [take_false h]
    rw [level, hnow] at hlevel ⊢
    refine min_eq_right (le_of_lt ?_)
    -- below one token the cap is out of reach
    by_contra hcap
    exact hlevel (le_min hcapacity (hcapacity.trans (not_lt.mp hcap)))
  rw [level, level, htokens, take_updatedAt, hwait, hlater]
  congr 1
  ring

/-! ## One request more -/

theorem Trails.lt {x x' : K} {n : Nat} (h : Trails x x' n) : x' < x + 1 := by
  cases h with
  | even hle _ => linarith
  | behind _ hlt => exact hlt

/-- Two buckets that gain the same up to the same cap keep their order. -/
theorem Trails.gain {x x' : K} {n : Nat} (h : Trails x x' n) (capacity gained : K) :
    Trails (min capacity (x + gained)) (min capacity (x' + gained)) n := by
  have hstep (y z : K) (hyz : y ≤ z + 1) :
      min capacity (y + gained) ≤ min capacity (z + gained) + 1 := by
    rcases min_cases capacity (z + gained) with ⟨hmin, _⟩ | ⟨hmin, _⟩
    · rw [hmin]
      exact (min_le_left _ _).trans (by linarith)
    · rw [hmin]
      exact (min_le_right _ _).trans (by linarith)
  cases h with
  | even hle hone =>
    exact .even (min_le_min_left _ (by linarith)) (hstep x x' hone)
  | behind hle hlt =>
    refine .behind (min_le_min_left _ (by linarith)) ?_
    rcases min_cases capacity (x + gained) with ⟨hmin, _⟩ | ⟨hmin, _⟩
    · rw [hmin]
      exact (min_le_left _ _).trans_lt (by linarith)
    · rw [hmin]
      exact (min_le_right _ _).trans_lt (by linarith)

/-- A request that only one of the two buckets grants. -/
theorem Trails.take {b' : TokenBucket K} {n : Nat}
    (h : Trails (b.level capacity rate t) (b'.level capacity rate t) n) :
    ∃ m, Trails (b.take capacity rate t).2.tokens (b'.take capacity rate t).2.tokens m ∧
      (b'.take capacity rate t).1.toNat + m = (b.take capacity rate t).1.toNat + n := by
  generalize hx : b.level capacity rate t = x at h
  generalize hx' : b'.level capacity rate t = x' at h
  simp only [TokenBucket.take, hx, hx']
  by_cases hget : 1 ≤ x <;> by_cases hget' : 1 ≤ x' <;>
    simp only [hget, hget', ↓reduceIte, Bool.toNat_true, Bool.toNat_false]
  · refine ⟨n, ?_, rfl⟩
    cases h with
    | even hle hone => exact .even (by linarith) (by linarith)
    | behind hle hlt => exact .behind (by linarith) (by linarith)
  · cases h with
    | even hle hone => exact ⟨1, .behind (by linarith) (by linarith), rfl⟩
    | behind hle hlt => exact absurd (hget.trans hle) hget'
  · cases h with
    | even hle hone => exact absurd (hget'.trans hle) hget
    | behind hle hlt => exact ⟨0, .even (by linarith) (by linarith), rfl⟩
  · exact ⟨n, h, rfl⟩

/-- A request on its own, before the next one: a token or nothing is gone. -/
theorem trails_take (hb : b.updatedAt ≤ t) (hrate : 0 ≤ rate) {t' : K} (ht : t ≤ t') :
    Trails (b.level capacity rate t') ((b.take capacity rate t).2.level capacity rate t') 0 := by
  have hnow : max 0 (t - b.updatedAt) = t - b.updatedAt := max_eq_right (by linarith)
  have hlater : max 0 (t' - b.updatedAt) = t' - b.updatedAt := max_eq_right (by linarith)
  have hwait : max 0 (t' - t) = t' - t := max_eq_right (by linarith)
  have hgain : 0 ≤ (t' - t) * rate := mul_nonneg (by linarith) hrate
  -- refilling up to `t` and then up to `t'` is refilling up to `t'`
  have hsplit : b.level capacity rate t' =
      min capacity (b.level capacity rate t + (t' - t) * rate) := by
    rw [level, level, hnow, hlater]
    rcases min_cases capacity (b.tokens + (t - b.updatedAt) * rate) with ⟨hmin, hfull⟩ | ⟨hmin, _⟩
    · rw [hmin, min_eq_left (by linarith), min_eq_left (by linarith)]
    · rw [hmin]
      congr 1
      ring
  have hafter : Trails (b.level capacity rate t) (b.take capacity rate t).2.tokens 0 := by
    cases h : (b.take capacity rate t).1 with
    | true =>
      rw [(take_true h).2]
      exact .even (by linarith) (by linarith)
    | false =>
      rw [take_false h]
      exact .even le_rfl (by linarith)
  have hlevel : (b.take capacity rate t).2.level capacity rate t' =
      min capacity ((b.take capacity rate t).2.tokens + (t' - t) * rate) := by
    rw [level, take_updatedAt, hwait]
  rw [hsplit, hlevel]
  exact hafter.gain capacity _

end Bucket

end TokenBucket

end Transactional
