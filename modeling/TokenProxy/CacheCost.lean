/-
  TokenProxy/CacheCost.lean
  =========================
  **What of a bill was the prompt cache** (`_partition_input_tokens`, `cache_cost_split` and
  `estimate_cost_with_cache` of `savings/calculator.py`).

  The partition clamps each span by what the ones before it have left.  The split rounds the two
  cache parts on their own, and the bill is rounded as a whole.

  Main results: `partitions`, the spans are not negative and come to the input tokens;
  `cacheCostSplit_iff`, the two rounded parts are within the rounded bill exactly when the rest
  of the bill absorbs what rounding adds to them; `cacheCostSplit_le_of_rest`, it does when it is
  half of the last digit or more.
-/
import TokenProxy.CallPricing
import TokenProxy.HalfEven

namespace TokenProxy.Ledger

open TokenCounter HalfEven

/-! ## 1. The split -/

variable (env : Prices)

/-- The unrounded cost of the cache reads of a call. -/
def readUsd (inputTokens : ℚ) (model : String) (u : CacheUsage) : ℚ :=
  let rates := getCostPer1k env model
  let spans := partitionInputTokens inputTokens u.cachedTokens u.cacheWriteTokens
    u.cacheWrite1hTokens
  spans.cached / 1000 * rates.input * u.readMultiplier * env.batchDiscount

/-- The unrounded cost of its cache writes. -/
def writeUsd (inputTokens : ℚ) (model : String) (u : CacheUsage) : ℚ :=
  let rates := getCostPer1k env model
  let spans := partitionInputTokens inputTokens u.cachedTokens u.cacheWriteTokens
    u.cacheWrite1hTokens
  (spans.written5m / 1000 * rates.input * u.writeMultiplier
    + spans.written1h / 1000 * rates.input * u.write1hMultiplier) * env.batchDiscount

/-- `cache_cost_split`. -/
def cacheCostSplit (inputTokens : ℚ) (model : String) (u : CacheUsage) : ℚ × ℚ :=
  (round8 (readUsd env inputTokens model u), round8 (writeUsd env inputTokens model u))

/-- What else a call is billed for: plain input, output and the surcharge for reasoning. -/
def restUsd (inputTokens outputTokens : ℚ) (model : String) (u : CacheUsage) : ℚ :=
  let rates := getCostPer1k env model
  let spans := partitionInputTokens inputTokens u.cachedTokens u.cacheWriteTokens
    u.cacheWrite1hTokens
  let reasoning := max 0 (min u.reasoningTokens outputTokens)
  (spans.plain / 1000 * rates.input + outputTokens / 1000 * rates.output
    + reasoning / 1000 * rates.output * (env.reasoningRateMultiplier - 1)) * env.batchDiscount

variable {env}

/-! ## 2. The spans -/

structure Partitions (inputTokens : ℚ) (spans : InputSpans) : Prop where
  plain : 0 ≤ spans.plain
  cached : 0 ≤ spans.cached
  written5m : 0 ≤ spans.written5m
  written1h : 0 ≤ spans.written1h
  sum : spans.plain + spans.cached + spans.written5m + spans.written1h = inputTokens

theorem clamp_le {x bound : ℚ} (h : 0 ≤ bound) : max 0 (min x bound) ≤ bound :=
  max_le h (min_le_right x bound)

theorem partitions {inputTokens : ℚ} (h : 0 ≤ inputTokens)
    (cachedTokens cacheWriteTokens cacheWrite1hTokens : ℚ) :
    Partitions inputTokens
      (partitionInputTokens inputTokens cachedTokens cacheWriteTokens cacheWrite1hTokens) := by
  have hcached := clamp_le (x := cachedTokens) h
  have hwritten := clamp_le (x := cacheWriteTokens) (sub_nonneg.mpr hcached)
  have hwritten1h := clamp_le (x := cacheWrite1hTokens) (le_max_left 0
    (min cacheWriteTokens (inputTokens - max 0 (min cachedTokens inputTokens))))
  constructor
  · exact sub_nonneg.mpr hwritten
  · exact le_max_left _ _
  · exact sub_nonneg.mpr hwritten1h
  · exact le_max_left _ _
  · rw [partitionInputTokens]
    ring

/-! ## 3. The parts and the bill -/

/-- The unit of a rounded amount is the hundred-millionth of a dollar. -/
def unitsOf (usd : ℚ) : ℚ := usd * 100000000

theorem round8_eq (x : ℚ) : round8 x = halfEven (unitsOf x) / 100000000 := rfl

theorem estimateCostWithCache_eq (inputTokens outputTokens : ℚ) (model : String)
    (u : CacheUsage) :
    estimateCostWithCache env inputTokens outputTokens model u =
      round8 (readUsd env inputTokens model u + writeUsd env inputTokens model u
        + restUsd env inputTokens outputTokens model u) := by
  rw [estimateCostWithCache, readUsd, writeUsd, restUsd]
  congr 1
  ring

theorem split_le_iff (inputTokens outputTokens : ℚ) (model : String) (u : CacheUsage) :
    (cacheCostSplit env inputTokens model u).1 + (cacheCostSplit env inputTokens model u).2 ≤
        estimateCostWithCache env inputTokens outputTokens model u ↔
      Absorbs (unitsOf (readUsd env inputTokens model u))
        (unitsOf (writeUsd env inputTokens model u))
        (unitsOf (restUsd env inputTokens outputTokens model u)) := by
  have hsum : unitsOf (readUsd env inputTokens model u + writeUsd env inputTokens model u
        + restUsd env inputTokens outputTokens model u) =
      unitsOf (readUsd env inputTokens model u) + unitsOf (writeUsd env inputTokens model u)
        + unitsOf (restUsd env inputTokens outputTokens model u) := by
    rw [unitsOf, unitsOf, unitsOf, unitsOf, add_mul, add_mul]
  rw [estimateCostWithCache_eq, cacheCostSplit, round8_eq, round8_eq, round8_eq, hsum,
    ← halfEven_add_le_iff, ← add_div, div_le_div_iff_of_pos_right (by norm_num), ← Int.cast_add,
    Int.cast_le]

/-- **The spans come to the input tokens, and the two parts are within the bill exactly when the
rest of it absorbs what rounding adds to them.** -/
theorem cacheCostSplit_iff {inputTokens : ℚ} (h : 0 ≤ inputTokens) (outputTokens : ℚ)
    (model : String) (u : CacheUsage) :
    Partitions inputTokens (partitionInputTokens inputTokens u.cachedTokens u.cacheWriteTokens
        u.cacheWrite1hTokens) ∧
      ((cacheCostSplit env inputTokens model u).1 + (cacheCostSplit env inputTokens model u).2 ≤
          estimateCostWithCache env inputTokens outputTokens model u ↔
        Absorbs (unitsOf (readUsd env inputTokens model u))
          (unitsOf (writeUsd env inputTokens model u))
          (unitsOf (restUsd env inputTokens outputTokens model u))) :=
  ⟨partitions h _ _ _, split_le_iff inputTokens outputTokens model u⟩

/-- A rest of half a unit is enough: any call with an output, at a price per token that is not
below that. -/
theorem cacheCostSplit_le_of_rest {inputTokens outputTokens : ℚ} {model : String}
    {u : CacheUsage} (h : 1 / 2 ≤ unitsOf (restUsd env inputTokens outputTokens model u)) :
    (cacheCostSplit env inputTokens model u).1 + (cacheCostSplit env inputTokens model u).2 ≤
      estimateCostWithCache env inputTokens outputTokens model u :=
  (split_le_iff inputTokens outputTokens model u).mpr (absorbs_of_half_le h)

/-! ### The last digit -/

section

/-- The rates of a small model, and a usage of cache tokens only. -/
def haiku : Prices where
  rt := gateway
  pricing := [("claude-3-haiku", ⟨1 / 4000, 1 / 800⟩)]
  reasoningRateMultiplier := 1
  batchDiscount := 1
  intOf := fun _ => none
  dictOf := fun _ => none

def threeAndThree : CacheUsage where
  cachedTokens := 3
  reasoningTokens := 0
  cacheWriteTokens := 3
  cacheWrite1hTokens := 0
  readMultiplier := 1 / 10
  writeMultiplier := 5 / 4
  write1hMultiplier := 2

theorem cacheCostSplit_answered :
    Partitions 6 (partitionInputTokens 6 3 3 0) ∧
      (cacheCostSplit haiku 6 "claude-3-haiku" threeAndThree).1 +
          (cacheCostSplit haiku 6 "claude-3-haiku" threeAndThree).2 ≤
        estimateCostWithCache haiku 6 20 "claude-3-haiku" threeAndThree := by
  obtain ⟨hspans, hle⟩ :=
    @cacheCostSplit_iff haiku 6 (by norm_num) 20 "claude-3-haiku" threeAndThree
  exact ⟨hspans, hle.mpr (absorbs_of_half_le (by decide +kernel))⟩

/-- The reads cost 7.5 units and the writes 93.75, which are 8 and 94; the bill is 101. -/
theorem not_cacheCostSplit_le :
    ¬ ∀ (env : Prices) (inputTokens outputTokens : ℚ) (model : String) (u : CacheUsage),
      0 ≤ inputTokens → 0 ≤ outputTokens → 1 ≤ env.reasoningRateMultiplier →
      (∀ row ∈ env.pricing, 0 ≤ row.2.input ∧ 0 ≤ row.2.output) → 0 ≤ env.batchDiscount →
      0 ≤ u.readMultiplier → 0 ≤ u.writeMultiplier → 0 ≤ u.write1hMultiplier →
      (cacheCostSplit env inputTokens model u).1 + (cacheCostSplit env inputTokens model u).2 ≤
        estimateCostWithCache env inputTokens outputTokens model u := by
  intro h
  have hrow : ∀ row ∈ haiku.pricing, 0 ≤ row.2.input ∧ 0 ≤ row.2.output := by
    intro row hrow
    rw [List.mem_singleton.mp hrow]
    exact ⟨by norm_num, by norm_num⟩
  have hle := h haiku 6 0 "claude-3-haiku" threeAndThree (by norm_num) le_rfl le_rfl hrow
    (by decide +kernel) (by decide +kernel) (by decide +kernel) (by decide +kernel)
  exact absurd hle (by decide +kernel)

end

end TokenProxy.Ledger
