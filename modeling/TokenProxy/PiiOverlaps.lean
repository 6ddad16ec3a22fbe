/-
  TokenProxy/PiiOverlaps.lean
  ===========================
  **Is everything that a pattern detected masked?** (`_resolve_overlaps` of
  `guardrails/pii.py`, before `mask_matches`).

  The raw matches may overlap.  They are sorted by start, the longer first, and a match is
  dropped when it begins before the end of the last one kept: a match that begins inside
  another and ends behind it leaves its own end in clear.

  Main result: `everythingMasked_iff`, everything is masked exactly when the longest matches,
  laid end to end from the start of each flagged stretch, meet only places where a match
  begins (`TakenUp`).
-/
import TokenProxy.PiiMasking
import Mathlib.Data.List.Pairwise

namespace TokenProxy.Pii

/-! ## 1. The overlap resolution -/

/-- The order of `(m.start, -(m.end - m.start))`. -/
def Before (a b : PiiMatch) : Prop :=
  a.start < b.start ∨ a.start = b.start ∧ b.stop - b.start ≤ a.stop - a.start

instance : DecidableRel Before := fun a b =>
  inferInstanceAs (Decidable (a.start < b.start ∨ _))

instance : Std.Total Before where
  total a b := by unfold Before; omega

instance : IsTrans PiiMatch Before where
  trans a b c := by unfold Before; omega

/-- The loop of `_resolve_overlaps`. -/
def keepLoop : List PiiMatch → Int → List PiiMatch
  | [], _ => []
  | m :: ms, lastEnd =>
    if lastEnd ≤ m.start then m :: keepLoop ms m.stop else keepLoop ms lastEnd

def resolveOverlaps (found : List PiiMatch) : List PiiMatch :=
  if found.isEmpty then [] else keepLoop (found.insertionSort Before) (-1)

/-! ## 2. The characters that masking copies -/

/-- What the masked text is made of. -/
inductive Segment where
  /-- `text[start:stop]`. -/
  | copied (start stop : Nat)
  | token (w : List Char)

def Segment.render (text : List Char) : Segment → List Char
  | .copied start stop => slice text start stop
  | .token w => w

/-- The loop of `mask_matches` with the places of what it copies, for a text of this length. -/
def segments (reversible : Bool) (length : Nat) :
    List PiiMatch → Nat → Dict String Nat → List Segment
  | [], cursor, _ => [.copied cursor length]
  | m :: ms, cursor, counters =>
    if m.start < cursor then segments reversible length ms cursor counters
    else if reversible then
      let number := (counters.get? m.entityType).getD 0 + 1
      .copied cursor m.start :: .token (placeholder m.entityType number).toList ::
        segments reversible length ms m.stop (counters.set m.entityType number)
    else
      .copied cursor m.start :: .token ("[" ++ m.entityType ++ "]").toList ::
        segments reversible length ms m.stop counters

/-- The segments of the masked text. -/
def maskedSegments (text : String) (found : List PiiMatch) (reversible : Bool) : List Segment :=
  segments reversible text.toList.length (byStart found) 0 ∅

/-- The character at a place of the text is copied. -/
def InClear (text : String) (found : List PiiMatch) (reversible : Bool) (p : Nat) : Prop :=
  ∃ start stop, Segment.copied start stop ∈ maskedSegments text found reversible ∧
    start ≤ p ∧ p < stop

/-! ## 3. What is asked, and when it holds -/

def PiiMatch.Covers (m : PiiMatch) (p : Nat) : Prop := m.start ≤ p ∧ p < m.stop

def Flagged (found : List PiiMatch) (p : Nat) : Prop := ∃ m ∈ found, m.Covers p

/-- Every character that a raw match covers is covered by a match that is kept, and none is left
in clear. -/
def EverythingMasked (text : String) (raw : List PiiMatch) : Prop :=
  ∀ p, Flagged raw p → Flagged (resolveOverlaps raw) p ∧
    ∀ reversible, ¬ InClear text (resolveOverlaps raw) reversible p

/-- The longest of the matches that begin where it does. -/
def Longest (raw : List PiiMatch) (m : PiiMatch) : Prop :=
  m ∈ raw ∧ m.start < m.stop ∧ ∀ m' ∈ raw, m'.start = m.start → m'.stop ≤ m.stop

/-- A place where a flagged stretch begins, or where the longest match from such a place ends. -/
inductive Reached (raw : List PiiMatch) : Nat → Prop
  | first {p : Nat} (hflagged : Flagged raw p) (hfirst : ∀ q, q + 1 = p → ¬ Flagged raw q) :
      Reached raw p
  | next {m : PiiMatch} (hreached : Reached raw m.start) (hlongest : Longest raw m) :
      Reached raw m.stop

/-- Where the longest matches end, the next one begins or nothing is flagged. -/
def TakenUp (raw : List PiiMatch) : Prop :=
  ∀ p, Reached raw p → Flagged raw p → ∃ m ∈ raw, m.start = p ∧ p < m.stop

/-- A raw match lies within the text. -/
def PiiMatch.Within (text : String) (m : PiiMatch) : Prop :=
  m.start ≤ m.stop ∧ m.stop ≤ text.toList.length

/-! ## 4. The greedy pass -/

/-- Disjoint, in order, from `cursor` on. -/
def Chained : List PiiMatch → Nat → Prop
  | [], _ => True
  | m :: ms, cursor => cursor ≤ m.start ∧ m.start ≤ m.stop ∧ Chained ms m.stop

theorem Chained.from_le {ms : List PiiMatch} {cursor : Nat} (h : Chained ms cursor) :
    ∀ m ∈ ms, cursor ≤ m.start := by
  induction ms generalizing cursor with
  | nil => intro m hm; cases hm
  | cons m ms ih =>
    obtain ⟨hstart, hordered, hrest⟩ := h
    intro m' hm'
    rcases List.mem_cons.mp hm' with rfl | hlater
    · exact hstart
    · exact hstart.trans (hordered.trans (ih hrest m' hlater))

theorem Chained.pairwise {ms : List PiiMatch} {cursor : Nat} (h : Chained ms cursor) :
    ms.Pairwise fun a b => a.stop ≤ b.start := by
  induction ms generalizing cursor with
  | nil => exact List.Pairwise.nil
  | cons m ms ih =>
    obtain ⟨-, -, hrest⟩ := h
    exact List.Pairwise.cons hrest.from_le (ih hrest)

instance : Std.Symm fun a b : PiiMatch => a.stop ≤ b.start ∨ b.stop ≤ a.start where
  symm _ _ h := h.symm

/-- Of two matches in a chain, one ends before the other begins. -/
theorem Chained.apart {ms : List PiiMatch} {cursor : Nat} (h : Chained ms cursor)
    {a b : PiiMatch} (ha : a ∈ ms) (hb : b ∈ ms) (hab : a ≠ b) :
    a.stop ≤ b.start ∨ b.stop ≤ a.start := by
  have hsides : ms.Pairwise fun a b => a.stop ≤ b.start ∨ b.stop ≤ a.start :=
    h.pairwise.imp Or.inl
  exact hsides.forall ha hb hab

theorem mem_of_mem_keepLoop {ms : List PiiMatch} {lastEnd : Int} {m : PiiMatch}
    (h : m ∈ keepLoop ms lastEnd) : m ∈ ms := by
  induction ms generalizing lastEnd with
  | nil => exact h
  | cons m' ms ih =>
    unfold keepLoop at h
    split at h
    · rcases List.mem_cons.mp h with rfl | hlater
      · exact List.mem_cons_self
      · exact List.mem_cons_of_mem m' (ih hlater)
    · exact List.mem_cons_of_mem m' (ih h)

theorem chained_keepLoop {ms : List PiiMatch} (h : ∀ m ∈ ms, m.start ≤ m.stop) (lastEnd : Nat) :
    Chained (keepLoop ms lastEnd) lastEnd := by
  induction ms generalizing lastEnd with
  | nil => exact trivial
  | cons m ms ih =>
    obtain ⟨hm, hms⟩ := List.forall_mem_cons.mp h
    unfold keepLoop
    split
    · rename_i hstart
      exact ⟨Int.ofNat_le.mp hstart, hm, ih hms m.stop⟩
    · exact ih hms lastEnd

/-- A match that is dropped begins inside one that is kept, which is the longer of the two if
they begin together. -/
def Hides (k m : PiiMatch) : Prop :=
  k.start ≤ m.start ∧ m.start < k.stop ∧ (k.start = m.start → m.stop ≤ k.stop)

theorem Before.hides {k m : PiiMatch} (h : Before k m)
    (hinside : m.start < k.stop) : Hides k m := by
  unfold Before at h
  exact ⟨by omega, hinside, by omega⟩

theorem kept_or_hidden {ms : List PiiMatch} (hsorted : ms.Pairwise Before)
    (hordered : ∀ m ∈ ms, m.start ≤ m.stop) (lastEnd : Nat) : ∀ m ∈ ms,
    m ∈ keepLoop ms lastEnd ∨ m.start < lastEnd ∨ ∃ k ∈ keepLoop ms lastEnd, Hides k m := by
  induction ms generalizing lastEnd with
  | nil => intro m hm; cases hm
  | cons m₀ ms ih =>
    obtain ⟨hfirst, hrest⟩ := List.pairwise_cons.mp hsorted
    have hms := (List.forall_mem_cons.mp hordered).2
    intro m hm
    unfold keepLoop
    split
    · rcases List.mem_cons.mp hm with rfl | hlater
      · exact Or.inl List.mem_cons_self
      · rcases ih hrest hms m₀.stop m hlater with hkept | hinside | ⟨k, hk, hides⟩
        · exact Or.inl (List.mem_cons_of_mem m₀ hkept)
        · exact Or.inr (Or.inr ⟨m₀, List.mem_cons_self,
            (hfirst m hlater).hides hinside⟩)
        · exact Or.inr (Or.inr ⟨k, List.mem_cons_of_mem m₀ hk, hides⟩)
    · rename_i hstart
      rcases List.mem_cons.mp hm with rfl | hlater
      · exact Or.inr (Or.inl (by omega))
      · exact ih hrest hms lastEnd m hlater

section

variable {raw : List PiiMatch} (hraw : ∀ m ∈ raw, m.start ≤ m.stop)

theorem resolveOverlaps_eq (raw : List PiiMatch) :
    resolveOverlaps raw = keepLoop (raw.insertionSort Before) (0 : Nat) := by
  unfold resolveOverlaps
  split
  · rename_i hnone
    rw [List.isEmpty_iff.mp hnone]
    rfl
  · -- the first match is kept whatever the last end is
    cases raw.insertionSort Before with
    | nil => rfl
    | cons m ms =>
      unfold keepLoop
      rw [if_pos (by omega), if_pos (by omega)]

theorem mem_of_mem_resolve {m : PiiMatch} (h : m ∈ resolveOverlaps raw) : m ∈ raw := by
  rw [resolveOverlaps_eq] at h
  exact (List.mem_insertionSort _).mp (mem_of_mem_keepLoop h)

/-- No kept match has the place strictly inside. -/
def Aligned (kept : List PiiMatch) (p : Nat) : Prop := ∀ k ∈ kept, ¬ (k.start < p ∧ p < k.stop)

theorem aligned_first {p : Nat} (hfirst : ∀ q, q + 1 = p → ¬ Flagged raw q) :
    Aligned (resolveOverlaps raw) p := by
  rintro k hk ⟨hbelow, habove⟩
  apply hfirst (p - 1) (by omega)
  exact ⟨k, mem_of_mem_resolve hk, by omega, by omega⟩

include hraw

theorem chained_resolve : Chained (resolveOverlaps raw) 0 := by
  rw [resolveOverlaps_eq]
  apply chained_keepLoop
  intro m hm
  exact hraw m ((List.mem_insertionSort _).mp hm)

theorem hidden_of_mem {m : PiiMatch} (h : m ∈ raw) :
    m ∈ resolveOverlaps raw ∨ ∃ k ∈ resolveOverlaps raw, Hides k m := by
  rw [resolveOverlaps_eq]
  have hsorted : (raw.insertionSort Before).Pairwise Before := List.pairwise_insertionSort _ _
  rcases kept_or_hidden hsorted (fun m hm => hraw m ((List.mem_insertionSort _).mp hm)) 0 m
    ((List.mem_insertionSort _).mpr h) with hkept | hbelow | hhidden
  · exact Or.inl hkept
  · exact absurd hbelow (Nat.not_lt_zero _)
  · exact Or.inr hhidden

/-- A match that is kept is the longest that begins where it does. -/
theorem longest_of_kept {k : PiiMatch} (h : k ∈ resolveOverlaps raw) (hsome : k.start < k.stop) :
    Longest raw k := by
  refine ⟨mem_of_mem_resolve h, hsome, ?_⟩
  intro m hm hstart
  by_contra hlonger
  -- a longer one would be kept, or begin inside one that is kept
  obtain ⟨k', hk', hcovers, hlong⟩ : ∃ k' ∈ resolveOverlaps raw,
      k'.Covers k.start ∧ (k'.start = k.start → m.stop ≤ k'.stop) := by
    rcases hidden_of_mem hraw hm with hkept | ⟨k', hk', hbelow, hinside, hlong⟩
    · exact ⟨m, hkept, ⟨by omega, by omega⟩, fun _ => le_refl _⟩
    · exact ⟨k', hk', ⟨by omega, by omega⟩, fun hsame => hlong (by omega)⟩
  by_cases hsame : k' = k
  · subst hsame
    exact hlonger (hlong rfl)
  · rcases (chained_resolve hraw).apart hk' h hsame with hbefore | hbehind
    · exact absurd hcovers.2 (by omega)
    · exact absurd hcovers.1 (by omega)

/-! ## 5. The places that are reached -/

/-- Where a match begins at an aligned place, the longest is kept. -/
theorem kept_at {m : PiiMatch} (haligned : Aligned (resolveOverlaps raw) m.start)
    (hm : m ∈ raw) : ∃ k ∈ resolveOverlaps raw, k.start = m.start ∧ m.stop ≤ k.stop := by
  rcases hidden_of_mem hraw hm with hkept | ⟨k, hk, hbelow, hinside, hlong⟩
  · exact ⟨m, hkept, rfl, le_refl _⟩
  · have hsame : k.start = m.start := by
      by_contra hne
      exact haligned k hk ⟨by omega, hinside⟩
    exact ⟨k, hk, hsame, hlong hsame⟩

/-- The end of a kept match is aligned. -/
theorem aligned_stop {k : PiiMatch} (hk : k ∈ resolveOverlaps raw) (hsome : k.start < k.stop) :
    Aligned (resolveOverlaps raw) k.stop := by
  rintro k' hk' ⟨hbelow, habove⟩
  by_cases hsame : k' = k
  · subst hsame
    exact Nat.lt_irrefl _ habove
  · rcases (chained_resolve hraw).apart hk' hk hsame with hbefore | hbehind
    · omega
    · omega

theorem aligned_of_reached {p : Nat} (h : Reached raw p) :
    Aligned (resolveOverlaps raw) p := by
  induction h with
  | first hflagged hfirst => exact aligned_first hfirst
  | @next m hreached hlongest ih =>
    obtain ⟨hm, hsome, hlongest⟩ := hlongest
    obtain ⟨k, hk, hstart, hstop⟩ := kept_at hraw ih hm
    have hsame : k.stop = m.stop :=
      Nat.le_antisymm (hlongest k (mem_of_mem_resolve hk) hstart) hstop
    rw [← hsame]
    exact aligned_stop hraw hk (by omega)

/-- When every reached place is taken up, a flagged character is covered by a kept match that
begins at a reached place. -/
theorem covered_of_takenUp (h : TakenUp raw) {p : Nat} (hp : Flagged raw p) :
    ∃ k ∈ resolveOverlaps raw, Reached raw k.start ∧ k.Covers p := by
  have hreach : ∀ q, Reached raw q → Flagged raw q →
      ∃ k ∈ resolveOverlaps raw, Reached raw k.start ∧ k.Covers q := by
    intro q hq hflagged
    obtain ⟨m, hm, rfl, hsome⟩ := h q hq hflagged
    obtain ⟨k, hk, hstart, hstop⟩ := kept_at hraw (aligned_of_reached hraw hq) hm
    exact ⟨k, hk, hstart ▸ hq, by omega, by omega⟩
  -- along the flagged stretch that `p` is in
  induction p with
  | zero => exact hreach 0 (Reached.first hp (fun q hq => absurd hq (Nat.succ_ne_zero q))) hp
  | succ p ih =>
    by_cases hprev : Flagged raw p
    · obtain ⟨k, hk, hreached, hcovers⟩ := ih hprev
      by_cases hinside : p + 1 < k.stop
      · exact ⟨k, hk, hreached, Nat.le_succ_of_le hcovers.1, hinside⟩
      · have hstop : k.stop = p + 1 := Nat.le_antisymm (Nat.not_lt.mp hinside) hcovers.2
        have hlongest : Longest raw k :=
          longest_of_kept hraw hk (Nat.lt_of_le_of_lt hcovers.1 hcovers.2)
        exact hreach (p + 1) (hstop ▸ Reached.next hreached hlongest) hp
    · apply hreach (p + 1) _ hp
      apply Reached.first hp
      intro q hq
      rwa [Nat.succ.inj hq]

theorem covered_iff_takenUp :
    (∀ p, Flagged raw p → Flagged (resolveOverlaps raw) p) ↔ TakenUp raw := by
  constructor
  · intro h p hreached hflagged
    obtain ⟨k, hk, hbelow, habove⟩ := h p hflagged
    have hstart : k.start = p := by
      by_contra hne
      exact aligned_of_reached hraw hreached k hk ⟨by omega, habove⟩
    exact ⟨k, mem_of_mem_resolve hk, hstart, habove⟩
  · intro h p hflagged
    obtain ⟨k, hk, -, hcovers⟩ := covered_of_takenUp hraw h hflagged
    exact ⟨k, hk, hcovers⟩

end

/-! ## 6. What is left in clear -/

theorem Chained.byStart_eq {ms : List PiiMatch} {cursor : Nat} (h : Chained ms cursor)
    (hordered : ∀ m ∈ ms, m.start ≤ m.stop) : byStart ms = ms := by
  have hsorted : ms.Pairwise fun a b => a.start ≤ b.start := by
    apply h.pairwise.imp_of_mem
    intro a b ha hb hab
    exact (hordered a ha).trans hab
  exact hsorted.insertionSort_eq

theorem flagged_cons {m : PiiMatch} {ms : List PiiMatch} {p : Nat} :
    Flagged (m :: ms) p ↔ m.Covers p ∨ Flagged ms p := List.exists_mem_cons_iff ..

/-- What is copied from `cursor` on is what no match of the chain covers. -/
theorem copied_iff {reversible : Bool} {length p : Nat} {ms : List PiiMatch} {cursor : Nat}
    (h : Chained ms cursor) (hlength : ∀ m ∈ ms, m.stop ≤ length) (counters : Dict String Nat) :
    (∃ start stop, Segment.copied start stop ∈ segments reversible length ms cursor counters ∧
      start ≤ p ∧ p < stop) ↔ cursor ≤ p ∧ p < length ∧ ¬ Flagged ms p := by
  induction ms generalizing cursor counters with
  | nil => simp [segments, Flagged]
  | cons m ms ih =>
    obtain ⟨hstart, hordered, hrest⟩ := h
    obtain ⟨hstop, hms⟩ := List.forall_mem_cons.mp hlength
    -- in both modes: the gap before the match, its token, and the rest
    obtain ⟨w, counters', hsegments⟩ : ∃ w counters', segments reversible length (m :: ms) cursor
        counters = .copied cursor m.start :: .token w ::
          segments reversible length ms m.stop counters' := by
      rw [segments, if_neg (Nat.not_lt.mpr hstart)]
      split
      · exact ⟨_, _, rfl⟩
      · exact ⟨_, _, rfl⟩
    have hbefore : p < m.start → ¬ Flagged ms p := by
      rintro hp ⟨m', hm', hcovers⟩
      have hfrom := hrest.from_le m' hm'
      exact absurd hcovers.1 (by omega)
    have htail := ih hrest hms counters'
    rw [hsegments, flagged_cons]
    unfold PiiMatch.Covers
    constructor
    · rintro ⟨start, stop, hmem, hbelow, habove⟩
      rcases List.mem_cons.mp hmem with hgap | hmem
      · obtain ⟨rfl, rfl⟩ := Segment.copied.inj hgap
        refine ⟨hbelow, by omega, ?_⟩
        rintro (hcovers | hlater)
        · omega
        · exact hbefore habove hlater
      · rcases List.mem_cons.mp hmem with htoken | hmem
        · cases htoken
        · obtain ⟨hfrom, hwithin, hnone⟩ := htail.mp ⟨start, stop, hmem, hbelow, habove⟩
          refine ⟨by omega, hwithin, ?_⟩
          rintro (hcovers | hlater)
          · omega
          · exact hnone hlater
    · rintro ⟨hfrom, hwithin, hnone⟩
      obtain ⟨houtside, hlater⟩ := not_or.mp hnone
      by_cases hgap : p < m.start
      · exact ⟨cursor, m.start, List.mem_cons_self, hfrom, hgap⟩
      · obtain ⟨start, stop, hmem, hplace⟩ := htail.mpr ⟨by omega, hwithin, hlater⟩
        exact ⟨start, stop, List.mem_cons_of_mem _ (List.mem_cons_of_mem _ hmem), hplace⟩

/-- What is left in clear is what no match covers that is kept. -/
theorem inClear_iff {text : String} {raw : List PiiMatch} (hraw : ∀ m ∈ raw, m.Within text)
    (reversible : Bool) (p : Nat) :
    InClear text (resolveOverlaps raw) reversible p ↔
      p < text.toList.length ∧ ¬ Flagged (resolveOverlaps raw) p := by
  have hchained := chained_resolve fun m hm => (hraw m hm).1
  have hkept : ∀ m ∈ resolveOverlaps raw, m.Within text :=
    fun m hm => hraw m (mem_of_mem_resolve hm)
  unfold InClear maskedSegments
  rw [hchained.byStart_eq fun m hm => (hkept m hm).1,
    copied_iff hchained (fun m hm => (hkept m hm).2) ∅]
  exact and_iff_right (Nat.zero_le p)

/-! ## 7. The result -/

/-- **What is detected is masked.**  Exactly when every reached place that is flagged is one where
a match begins. -/
theorem everythingMasked_iff (text : String) (raw : List PiiMatch)
    (hraw : ∀ m ∈ raw, m.Within text) : EverythingMasked text raw ↔ TakenUp raw := by
  rw [← covered_iff_takenUp fun m hm => (hraw m hm).1]
  unfold EverythingMasked
  constructor
  · intro h p hp
    exact (h p hp).1
  · intro h p hp
    refine ⟨h p hp, ?_⟩
    intro reversible hclear
    exact ((inClear_iff hraw reversible p).mp hclear).2 (h p hp)

/-! ### Nested matches -/

/-- Any two matches are apart, or one lies within the other. -/
def Laminar (raw : List PiiMatch) : Prop :=
  ∀ a ∈ raw, ∀ b ∈ raw, a.stop ≤ b.start ∨ b.stop ≤ a.start ∨
    (a.start ≤ b.start ∧ b.stop ≤ a.stop) ∨ (b.start ≤ a.start ∧ a.stop ≤ b.stop)

/-- A reached place is strictly inside no match, when the matches are nested or apart. -/
theorem aligned_of_laminar {raw : List PiiMatch} (h : Laminar raw) {p : Nat}
    (hp : Reached raw p) : Aligned raw p := by
  induction hp with
  | @first p hflagged hfirst =>
    rintro m hm ⟨hbelow, habove⟩
    exact hfirst (p - 1) (by omega) ⟨m, hm, by omega, by omega⟩
  | @next m₁ hreached hlongest ih =>
    obtain ⟨hm₁, hsome, hlongest⟩ := hlongest
    rintro m hm ⟨hbelow, habove⟩
    have hinside := ih m hm
    have hlonger := hlongest m hm
    rcases h m hm m₁ hm₁ with hapart | hapart | hwithin | hwithin
    · omega
    · omega
    · omega
    · omega

theorem takenUp_of_laminar {raw : List PiiMatch} (h : Laminar raw) : TakenUp raw := by
  rintro p hp ⟨m, hm, hbelow, habove⟩
  have hinside := aligned_of_laminar h hp m hm
  exact ⟨m, hm, by omega, habove⟩

theorem mem_pair {a b m : PiiMatch} : m ∈ [a, b] ↔ m = a ∨ m = b := by
  rw [List.mem_cons, List.mem_singleton]

/-- An address with numbers before the `@`, which are an address themselves. -/
def nested : List PiiMatch :=
  [⟨"EMAIL", 0, 20, "10.0.0.7@example.com"⟩, ⟨"IP_ADDRESS", 0, 8, "10.0.0.7"⟩]

theorem everythingMasked_nested : EverythingMasked "10.0.0.7@example.com" nested := by
  apply (everythingMasked_iff "10.0.0.7@example.com" nested ?_).mpr
  · apply takenUp_of_laminar
    intro a ha b hb
    rcases mem_pair.mp ha with rfl | rfl <;> rcases mem_pair.mp hb with rfl | rfl <;> decide
  · intro m hm
    unfold PiiMatch.Within
    rcases mem_pair.mp hm with rfl | rfl <;> decide

/-- A telephone number that begins in an address: its end is left in clear. -/
def straddling : List PiiMatch :=
  [⟨"PHONE", 7, 19, "212 555 0100"⟩, ⟨"IP_ADDRESS", 0, 10, "10.0.0.212"⟩]

theorem not_everythingMasked_straddling :
    (maskMatches "10.0.0.212 555 0100" (resolveOverlaps straddling) true).text =
        "[PII:IP_ADDRESS:1] 555 0100" ∧
      (∀ m ∈ straddling, m.Within "10.0.0.212 555 0100") ∧
      ¬ EverythingMasked "10.0.0.212 555 0100" straddling := by
  refine ⟨by decide +kernel, ?_, ?_⟩
  · intro m hm
    unfold PiiMatch.Within
    rcases mem_pair.mp hm with rfl | rfl <;> decide
  · intro h
    have hflagged : Flagged straddling 18 :=
      ⟨⟨"PHONE", 7, 19, "212 555 0100"⟩, List.mem_cons_self, by decide, by decide⟩
    obtain ⟨k, hk, -, habove⟩ := (h 18 hflagged).1
    have hkept : resolveOverlaps straddling = [⟨"IP_ADDRESS", 0, 10, "10.0.0.212"⟩] := by
      decide +kernel
    rw [hkept] at hk
    obtain rfl := List.mem_singleton.mp hk
    exact absurd habove (by decide)

end TokenProxy.Pii
