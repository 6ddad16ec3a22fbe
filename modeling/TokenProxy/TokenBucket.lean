/-
  TokenProxy/TokenBucket.lean
  ===========================
  **Token buckets: what an account that counts no interval twice admits.**

  A bucket is a count and the time of its last refill.  An update *draws* on it
  when the count it leaves, with what it spent, is at most the capacity and at
  most the old count plus what the time since the last refill is worth.  The
  count carried back to time zero (`balance`) then only falls, whatever the order
  of the clock values, and by one at least for every token spent.

  `Account.idle` and `Account.take` carry the bound `cap + rate * (t₁ - t₀)`
  over one update, and `Account.mono` over a bucket that is worth less.
-/
import Mathlib.Tactic.Linarith
import Mathlib.Tactic.Ring

namespace TokenProxy.TokenBucket

structure Bucket (K : Type*) where
  tokens : K
  lastRefill : K
deriving DecidableEq, Repr

variable {K : Type*} [Field K] [LinearOrder K]
variable {cap rate now spent t₀ t₁ : K} {n : ℕ}
variable {before : Option (Bucket K)} {after : Bucket K}

/-- The count carried back to time zero. -/
def Bucket.balance (rate : K) (b : Bucket K) : K := b.tokens - b.lastRefill * rate

/-- By `now` the bucket is full. -/
def Bucket.Full (cap rate now : K) (b : Bucket K) : Prop :=
  cap ≤ b.tokens + (now - b.lastRefill) * rate

instance (cap rate now : K) (b : Bucket K) : Decidable (b.Full cap rate now) :=
  inferInstanceAs (Decidable (_ ≤ _))

/-! ## 1. Updates that count no interval twice -/

structure Draws (cap rate now spent : K) (before : Option (Bucket K)) (after : Bucket K) :
    Prop where
  stamped : after.lastRefill = now
  capped : after.tokens + spent ≤ cap
  earned : ∀ b, before = some b → after.tokens + spent ≤ b.tokens + (now - b.lastRefill) * rate

/-- A bucket that is full may be forgotten. -/
theorem Draws.of_full (h : Draws cap rate now spent none after)
    (hfull : ∀ b, before = some b → b.Full cap rate now) :
    Draws cap rate now spent before after where
  stamped := h.stamped
  capped := h.capped
  earned := fun b hb => le_trans h.capped (hfull b hb)

variable [IsStrictOrderedRing K]

theorem Draws.balance_le {b : Bucket K} (h : Draws cap rate now spent (some b) after) :
    after.balance rate + spent ≤ b.balance rate := by
  have hearned := h.earned b rfl
  have hsplit : (now - b.lastRefill) * rate = now * rate - b.lastRefill * rate := by ring
  simp only [Bucket.balance, h.stamped]
  linarith

/-! ## 2. The account of an interval -/

/-- `n` tokens went to requests of the interval from `t₀` on, and the bucket shows it. -/
def Covers (cap rate t₀ : K) (n : ℕ) (b : Option (Bucket K)) : Prop :=
  n = 0 ∨ ∃ b', b = some b' ∧ b'.balance rate + n ≤ cap - t₀ * rate

structure Account (cap rate t₀ t₁ : K) (n : ℕ) (b : Option (Bucket K)) : Prop where
  covers : Covers cap rate t₀ n b
  bounded : (n : K) ≤ cap + rate * (t₁ - t₀)

theorem Account.nothing (hcap : 0 ≤ cap) (hrate : 0 ≤ rate) (hle : t₀ ≤ t₁)
    (b : Option (Bucket K)) : Account cap rate t₀ t₁ 0 b := by
  have hearned : 0 ≤ rate * (t₁ - t₀) := mul_nonneg hrate (sub_nonneg.mpr hle)
  refine ⟨Or.inl rfl, ?_⟩
  simp only [Nat.cast_zero]
  linarith

/-- An update for a request that the interval does not count. -/
theorem Account.idle (h : Account cap rate t₀ t₁ n before)
    (hdraws : Draws cap rate now spent before after) (hspent : 0 ≤ spent) :
    Account cap rate t₀ t₁ n (some after) := by
  refine ⟨?_, h.bounded⟩
  rcases h.covers with hzero | ⟨b, rfl, hb⟩
  · exact Or.inl hzero
  · have hle := hdraws.balance_le
    exact Or.inr ⟨after, rfl, by linarith⟩

/-- A bucket that is worth no more may stand in the place of another. -/
theorem Account.mono {b b' : Bucket K} (h : Account cap rate t₀ t₁ n (some b))
    (hle : b'.balance rate ≤ b.balance rate) : Account cap rate t₀ t₁ n (some b') := by
  refine ⟨?_, h.bounded⟩
  rcases h.covers with hzero | ⟨c, hc, hcovers⟩
  · exact Or.inl hzero
  · obtain rfl := Option.some.inj hc
    exact Or.inr ⟨b', rfl, by linarith⟩

/-- An update that spends a token for a request of the interval. -/
theorem Account.take (h : Account cap rate t₀ t₁ n before)
    (hdraws : Draws cap rate now 1 before after) (hrate : 0 ≤ rate)
    (hfrom : t₀ ≤ now) (hto : now ≤ t₁) (htokens : 0 ≤ after.tokens) :
    Account cap rate t₀ t₁ (n + 1) (some after) := by
  have hbalance : after.balance rate + (n + 1 : ℕ) ≤ cap - t₀ * rate := by
    rcases h.covers with rfl | ⟨b, rfl, hb⟩
    · -- the first one: the bucket holds at most its capacity at `now`
      have hstart : t₀ * rate ≤ now * rate := mul_le_mul_of_nonneg_right hfrom hrate
      have hcapped := hdraws.capped
      simp only [Bucket.balance, hdraws.stamped, Nat.zero_add, Nat.cast_one]
      linarith
    · have hle := hdraws.balance_le
      push_cast
      linarith
  refine ⟨Or.inr ⟨after, rfl, hbalance⟩, ?_⟩
  have hend : now * rate ≤ t₁ * rate := mul_le_mul_of_nonneg_right hto hrate
  have hexpand : rate * (t₁ - t₀) = t₁ * rate - t₀ * rate := by ring
  simp only [Bucket.balance, hdraws.stamped] at hbalance
  linarith

end TokenProxy.TokenBucket
