/-
  TokenProxy/OutputHistory.lean
  =============================
  **The history behind a learned output cap** (`_record_max_tokens_pair`, `_get_historical_p95`,
  `g11_output_format.py`).

  Every answer of a bucket is recorded in a sorted set of Redis, scored by the time, and the set
  is trimmed to the newest.  A member of a sorted set is there once: recording an answer that it
  holds already only moves it.  So the percentile is taken over the *different* answers.

  A member stands for its JSON text, which reads back as it was.  The two float products are
  parameters.  Where Redis refuses a command, the recording or the read is not there.

  Main result: `quantileOfSeen_of_fresh`, an estimate is the quantile of what was seen while no
  answer is recorded that the set holds.
-/
import TokenProxy.StickyFloor
import Mathlib.Data.List.Sort
import Mathlib.Data.Multiset.Filter
import Mathlib.Data.Multiset.Sort

namespace TokenProxy.OutputHistory

open OutputCap (pyInt)

/-! ## 1. The sorted set -/

/-- A recorded answer. -/
structure Pair where
  maxTokens : Int
  completionTokens : Int
  truncated : Bool := false
deriving DecidableEq

/-- `json.dumps(pair)` -/
def Pair.text (pair : Pair) : String :=
  "\x7b\"max_tokens\": " ++ toString pair.maxTokens ++ ", \"completion_tokens\": " ++
    toString pair.completionTokens ++ (if pair.truncated then ", \"truncated\": true" else "") ++
    "\x7d"

/-- A score and its member. -/
abbrev Sample := ℚ × Pair

/-- Of equal scores, the text decides. -/
def Newer (a b : Sample) : Prop := b.1 < a.1 ∨ b.1 = a.1 ∧ b.2.text ≤ a.2.text

instance : DecidableRel Newer := fun a b =>
  inferInstanceAs (Decidable (b.1 < a.1 ∨ b.1 = a.1 ∧ b.2.text ≤ a.2.text))

/-- A sorted set, from the highest rank down, as `ZREVRANGE key 0 -1` lists it. -/
abbrev SortedSet := List Sample

def zadd (zset : SortedSet) (member : Pair) (score : ℚ) : SortedSet :=
  (zset.filter fun e => e.2 ≠ member).orderedInsert Newer (score, member)

/-- A rank, which counts from the end when it is negative. -/
def rankOf (size : ℕ) (index : Int) : Int := if index < 0 then size + index else index

/-- `ZREMRANGEBYRANK key start stop`; ranks count from the lowest score. -/
def zremrangebyrank (zset : SortedSet) (start stop : Int) : SortedSet :=
  let lowest := zset.reverse
  let first := max 0 (rankOf zset.length start)
  let next := max first (rankOf zset.length stop + 1)
  (lowest.take first.toNat ++ lowest.drop next.toNat).reverse

/-- `_record_max_tokens_pair`, at this time. -/
def recordMaxTokensPair (maxEntries : ℚ) (zset : SortedSet) (time : ℚ) (pair : Pair) : SortedSet :=
  let zset := zadd zset pair time
  if 0 < maxEntries then zremrangebyrank zset 0 (-(pyInt maxEntries + 1)) else zset

/-! ## 2. The estimate -/

/-- What float arithmetic brings; `none` where it raises. -/
structure Floats where
  /-- `int(ct * factor)` -/
  scaled : Int → ℚ → Option Int
  /-- `int((size - 1) * quantile)` -/
  index : ℕ → ℚ → Option Int

/-- The settings of a read. -/
structure Reading where
  quantile : ℚ := 19 / 20
  minEntries : ℚ := 5
  truncationBackoff : ℚ := 2

variable (float : Floats) (reading : Reading)

/-- What one entry is counted as; `none` where it is skipped. -/
def completionValue (pair : Pair) : Option Int :=
  if pair.completionTokens ≤ 0 then none
  else if pair.truncated then
    float.scaled pair.completionTokens (max 1 reading.truncationBackoff)
  else some pair.completionTokens

/-- `values[index]`; `none` where it raises. -/
def itemAt (values : List Int) (index : Int) : Option Int :=
  if 0 ≤ index then values[index.toNat]?
  else if 0 ≤ values.length + index then values[(values.length + index).toNat]?
  else none

/-- `_get_historical_p95` -/
def getHistoricalP95 (zset : SortedSet) : Option Int :=
  let entries := zset.map Prod.snd
  if entries = [] ∨ (entries.length : ℚ) < reading.minEntries then none
  else
    let completionValues := entries.filterMap (completionValue float reading)
    if (completionValues.length : ℚ) < reading.minEntries then none
    else
      let sortedVals := completionValues.insertionSort (· ≤ ·)
      (float.index sortedVals.length reading.quantile).bind (itemAt sortedVals)

/-! ## 3. Runs of a bucket, and what was seen -/

inductive Event where
  /-- some worker records an answer -/
  | record (time : ℚ) (pair : Pair)
  /-- the key's time to live has run out -/
  | expire

variable (maxEntries : ℚ)

def step (zset : SortedSet) : Event → SortedSet
  | .record time pair => recordMaxTokensPair maxEntries zset time pair
  | .expire => []

/-- The sorted set of a bucket after these events. -/
def history (events : List Event) : SortedSet := events.foldl (step maxEntries) []

/-- Every recording since the key last expired, the last one first, as often as it was made. -/
def recorded (events : List Event) : List Sample :=
  events.foldl
    (fun seen event =>
      match event with
      | .record time pair => (time, pair) :: seen
      | .expire => [])
    []

/-- As many as are retained. -/
def retain (samples : List Sample) : List Sample :=
  if 0 < maxEntries then samples.take (pyInt maxEntries).toNat else samples

/-- The newest of what was recorded. -/
def window (events : List Event) : List Sample :=
  retain maxEntries ((recorded events).insertionSort Newer)

/-- The values of the window, each as often as it was seen. -/
def seen (events : List Event) : Multiset Int :=
  Multiset.filterMap (fun e : Sample => completionValue float reading e.2)
    (window maxEntries events)

/-- The quantile of these values, where they are enough. -/
def quantileOf (values : Multiset Int) : Option Int :=
  if (values.card : ℚ) < reading.minEntries then none
  else (float.index values.card reading.quantile).bind (itemAt (values.sort (· ≤ ·)))

/-- **The estimate is the quantile of what was seen.** -/
def QuantileOfSeen (events : List Event) : Prop :=
  getHistoricalP95 float reading (history maxEntries events) =
    quantileOf float reading (seen float reading maxEntries events)

/-- No answer is recorded that the set holds. -/
def Fresh (events : List Event) : Prop :=
  ∀ before time pair, before ++ [.record time pair] <+: events →
    ∀ e ∈ history maxEntries before, e.2 ≠ pair

/-! ## 4. The set of a run -/

variable {maxEntries}

theorem history_concat (events : List Event) (event : Event) :
    history maxEntries (events ++ [event]) = step maxEntries (history maxEntries events) event := by
  rw [history, List.foldl_append]
  rfl

theorem recorded_concat_record (events : List Event) (time : ℚ) (pair : Pair) :
    recorded (events ++ [.record time pair]) = (time, pair) :: recorded events := by
  rw [recorded, List.foldl_append]
  rfl

theorem recorded_concat_expire (events : List Event) : recorded (events ++ [.expire]) = [] := by
  rw [recorded, List.foldl_append]
  rfl

theorem zadd_of_fresh {zset : SortedSet} {pair : Pair} (h : ∀ e ∈ zset, e.2 ≠ pair) (time : ℚ) :
    zadd zset pair time = zset.orderedInsert Newer (time, pair) := by
  rw [zadd, List.filter_eq_self.mpr fun e he => decide_eq_true (h e he)]

/-- Trimming by rank keeps the newest. -/
theorem zremrangebyrank_newest (zset : SortedSet) {n : Int} (h : 0 ≤ n) :
    zremrangebyrank zset 0 (-(n + 1)) = zset.take n.toNat := by
  obtain ⟨m, rfl⟩ := Int.eq_ofNat_of_zero_le h
  have hfirst : max 0 (rankOf zset.length 0) = 0 := rfl
  have hnext : (max 0 (rankOf zset.length (-((m : Int) + 1)) + 1)).toNat = zset.length - m := by
    rw [rankOf, if_pos (by omega)]
    omega
  rw [zremrangebyrank]
  simp only [hfirst, hnext, Int.toNat_zero, List.take_zero, List.nil_append, Int.toNat_natCast]
  rw [List.drop_reverse, List.reverse_reverse]
  rcases Nat.le_total m zset.length with hle | hle
  · rw [Nat.sub_sub_self hle]
  · rw [Nat.sub_eq_zero_of_le hle, Nat.sub_zero, List.take_length, List.take_of_length_le hle]

theorem pyInt_nonneg {q : ℚ} (h : 0 < q) : 0 ≤ pyInt q := by
  rw [pyInt, if_pos h.le]
  exact Int.floor_nonneg.mpr h.le

theorem recordMaxTokensPair_of_fresh {zset : SortedSet} {pair : Pair}
    (h : ∀ e ∈ zset, e.2 ≠ pair) (time : ℚ) :
    recordMaxTokensPair maxEntries zset time pair =
      retain maxEntries (zset.orderedInsert Newer (time, pair)) := by
  rw [recordMaxTokensPair, zadd_of_fresh h, retain]
  split
  · next hpos => exact zremrangebyrank_newest _ (pyInt_nonneg hpos)
  · rfl

/-- What falls out of the first `n` stays out. -/
theorem take_orderedInsert_take {α : Type*} (r : α → α → Prop) [DecidableRel r] (a : α)
    (l : List α) (n : ℕ) :
    ((l.take n).orderedInsert r a).take n = (l.orderedInsert r a).take n := by
  induction l generalizing n with
  | nil => rw [List.take_nil]
  | cons b l ih =>
    cases n with
    | zero => rfl
    | succ n =>
      rw [List.take_succ_cons, List.orderedInsert_cons, List.orderedInsert_cons]
      split
      · have hfirst : (b :: l.take n).take n = (b :: l).take n := by
          cases n with
          | zero => rfl
          | succ n =>
            rw [List.take_succ_cons, List.take_succ_cons, List.take_take,
              Nat.min_eq_left (Nat.le_succ n)]
        rw [List.take_succ_cons, List.take_succ_cons, hfirst]
      · rw [List.take_succ_cons, List.take_succ_cons, ih]

theorem retain_orderedInsert_retain (sample : Sample) (samples : List Sample) :
    retain maxEntries ((retain maxEntries samples).orderedInsert Newer sample) =
      retain maxEntries (samples.orderedInsert Newer sample) := by
  unfold retain
  split
  · exact take_orderedInsert_take Newer sample samples _
  · rfl

/-- Trimming only takes away. -/
theorem recordMaxTokensPair_sublist (zset : SortedSet) (time : ℚ) (pair : Pair) :
    (recordMaxTokensPair maxEntries zset time pair).Sublist (zadd zset pair time) := by
  rw [recordMaxTokensPair]
  split
  · next hpos =>
    rw [zremrangebyrank_newest _ (pyInt_nonneg hpos)]
    exact List.take_sublist _ _
  · exact List.Sublist.refl _

/-- The answer that an event records. -/
def Event.pair : Event → Option Pair
  | .record _ pair => some pair
  | .expire => none

theorem mem_pairs_of_mem_history {events : List Event} {e : Sample}
    (h : e ∈ history maxEntries events) : e.2 ∈ events.filterMap Event.pair := by
  induction events using List.reverseRecOn with
  | nil => cases h
  | append_singleton events event ih =>
    rw [history_concat] at h
    rw [List.filterMap_append, List.mem_append]
    cases event with
    | record time pair =>
      have hzadd := (recordMaxTokensPair_sublist _ time pair).mem h
      rcases (List.mem_orderedInsert Newer).mp hzadd with heq | hold
      · right
        rw [heq]
        exact List.mem_singleton_self pair
      · exact Or.inl (ih (List.mem_of_mem_filter hold))
    | expire => cases h

/-- A run that records no answer twice. -/
theorem fresh_of_nodup {events : List Event} (h : (events.filterMap Event.pair).Nodup) :
    Fresh maxEntries events := by
  intro before time pair hbefore e he heq
  obtain ⟨after, rfl⟩ := hbefore
  rw [List.filterMap_append, List.filterMap_append] at h
  have hdisjoint := List.disjoint_of_nodup_append (List.Nodup.of_append_left h)
  refine hdisjoint (mem_pairs_of_mem_history he) ?_
  rw [heq]
  exact List.mem_singleton_self pair

theorem Fresh.of_concat {events : List Event} {event : Event}
    (h : Fresh maxEntries (events ++ [event])) : Fresh maxEntries events :=
  fun before time pair hbefore => h before time pair (hbefore.trans (List.prefix_append _ _))

/-- While every answer is new to the set, it holds the newest of what was recorded. -/
theorem history_eq_window {events : List Event} (h : Fresh maxEntries events) :
    history maxEntries events = window maxEntries events := by
  induction events using List.reverseRecOn with
  | nil =>
    rw [window, retain]
    split
    · exact List.take_nil.symm
    · rfl
  | append_singleton events event ih =>
    rw [history_concat, window]
    cases event with
    | record time pair =>
      have hnew := h events time pair (List.prefix_refl _)
      rw [step, recordMaxTokensPair_of_fresh hnew, ih h.of_concat, recorded_concat_record,
        List.insertionSort_cons, window, retain_orderedInsert_retain]
    | expire =>
      rw [recorded_concat_expire, step, List.insertionSort_nil, retain]
      split
      · exact List.take_nil.symm
      · rfl

/-! ## 5. The quantile -/

theorem quantileOf_coe (values : List Int) :
    quantileOf float reading values =
      if (values.length : ℚ) < reading.minEntries then none
      else (float.index values.length reading.quantile).bind
        (itemAt (values.insertionSort (· ≤ ·))) := by
  rw [quantileOf, Multiset.coe_sort, List.mergeSort_eq_insertionSort]
  rfl

theorem itemAt_nil (index : Int) : itemAt [] index = none := by
  rw [itemAt]
  split
  · rfl
  · split <;> rfl

/-- The read takes the quantile of the values that the set holds. -/
theorem getHistoricalP95_eq_quantileOf (zset : SortedSet) :
    getHistoricalP95 float reading zset =
      quantileOf float reading
        (Multiset.filterMap (fun e : Sample => completionValue float reading e.2) zset) := by
  have hvalues :
      Multiset.filterMap (fun e : Sample => completionValue float reading e.2) zset =
        ((zset.map Prod.snd).filterMap (completionValue float reading) : List Int) := by
    rw [Multiset.filterMap_coe, List.filterMap_map]
    rfl
  rw [hvalues, quantileOf_coe, getHistoricalP95]
  generalize zset.map Prod.snd = entries
  simp only [List.length_insertionSort]
  have hle : ((entries.filterMap (completionValue float reading)).length : ℚ) ≤ entries.length := by
    exact_mod_cast List.length_filterMap_le _ _
  by_cases hfew : ((entries.filterMap (completionValue float reading)).length : ℚ)
      < reading.minEntries
  · rw [if_pos hfew, ite_self]
  · rw [if_neg hfew]
    split
    · next hnone =>
      obtain rfl : entries = [] := hnone.resolve_right fun hlt => hfew (hle.trans_lt hlt)
      rw [List.filterMap_nil, List.insertionSort_nil]
      cases float.index [].length reading.quantile with
      | none => rfl
      | some index => exact (itemAt_nil index).symm
    · rfl

/-- **In a run that records no answer which the set holds, every estimate is the quantile of
    what was seen.** -/
theorem quantileOfSeen_of_fresh {events before : List Event} (h : Fresh maxEntries events)
    (hbefore : before <+: events) : QuantileOfSeen float reading maxEntries before := by
  have hfresh : Fresh maxEntries before :=
    fun _ time pair hrecord => h _ time pair (hrecord.trans hbefore)
  rw [QuantileOfSeen, getHistoricalP95_eq_quantileOf, history_eq_window hfresh]
  rfl

/-- Exact products. -/
def exactFloats : Floats where
  scaled ct factor := some (pyInt (ct * factor))
  index size quantile := some (pyInt ((size - 1) * quantile))

/-- Answers of these sizes, a second apart. -/
def answers (sizes : List Int) : List Event :=
  sizes.zipIdx.map fun size => .record size.2 ⟨0, size.1, false⟩

theorem quantileOfSeen_of_fresh_five :
    Fresh 200 (answers [100, 110, 120, 130, 900]) ∧
      QuantileOfSeen exactFloats {} 200 (answers [100, 110, 120, 130, 900]) :=
  have hfresh : Fresh 200 (answers [100, 110, 120, 130, 900]) := fresh_of_nodup (by decide)
  ⟨hfresh, quantileOfSeen_of_fresh exactFloats {} hfresh List.prefix_rfl⟩

/-- Five of nine answers took 900 tokens; the estimate is 130. -/
theorem not_quantileOfSeen : ¬ ∀ (float : Floats) (reading : Reading) (maxEntries : ℚ)
    (events : List Event), QuantileOfSeen float reading maxEntries events := by
  intro h
  have heq := h exactFloats {} 200 (answers [100, 110, 120, 130, 900, 900, 900, 900, 900])
  have hcode : getHistoricalP95 exactFloats {}
      (history 200 (answers [100, 110, 120, 130, 900, 900, 900, 900, 900])) = some 130 := by
    decide +kernel
  have hseen : quantileOf exactFloats {}
      (seen exactFloats {} 200 (answers [100, 110, 120, 130, 900, 900, 900, 900, 900])) =
        some 900 := by
    rw [seen, Multiset.filterMap_coe, quantileOf_coe]
    decide +kernel
  rw [QuantileOfSeen, hcode, hseen] at heq
  cases heq

end TokenProxy.OutputHistory
