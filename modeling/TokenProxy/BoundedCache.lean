/-
  TokenProxy/BoundedCache.lean
  ============================
  **A cache of a bounded size, whose entries expire.**

  An entry is kept with its expiry.  Reading drops an entry that has expired; writing drops all
  that have, and then, while the cache is full, the one that expires soonest.

  Main results: `length_put_le`, the size is bounded; `get?_of_put`, after a write an entry is the
  new one or was there, and has not expired; `put_drops`, an entry is given up only where there is
  no room, and expires no later than anything that is kept.
-/
import TokenProxy.Dict
import Mathlib.Data.List.MinMax

namespace TokenProxy.BoundedCache

variable {κ α T : Type*} [DecidableEq κ] [LinearOrder T]

abbrev Cache (κ α T : Type*) := Dict κ (T × α)

/-! ## 1. Operations -/

def get (now : T) (cache : Cache κ α T) (key : κ) : Option α × Cache κ α T :=
  match cache.get? key with
  | none => (none, cache)
  | some (expires, value) =>
    if expires ≤ now then (none, cache.erase key) else (some value, cache)

/-- The first key of those that expire soonest. -/
def oldest (cache : Cache κ α T) : Option κ :=
  (cache.entries.argmin fun e => e.2.1).map Prod.fst

/-- Drop the oldest while the cache is full, for at most `n` turns. -/
def evict (max : Nat) : Nat → Cache κ α T → Cache κ α T
  | 0, cache => cache
  | n + 1, cache =>
    if max ≤ cache.entries.length then
      match oldest cache with
      | some key => evict max n (cache.erase key)
      | none => cache
    else cache

def purge (now : T) (cache : Cache κ α T) : Cache κ α T :=
  cache.filter fun _ e => decide (now < e.1)

def put (max : Nat) (now : T) (cache : Cache κ α T) (key : κ) (value : α) (expires : T) :
    Cache κ α T :=
  (evict max (purge now cache).entries.length (purge now cache)).set key (expires, value)

/-! ## 2. The size -/

omit [LinearOrder T] in
theorem length_erase_lt {cache : Cache κ α T} {key : κ} (h : key ∈ cache.keys) :
    (cache.erase key).entries.length < cache.entries.length := by
  apply List.length_filter_lt_length_iff_exists.mpr
  obtain ⟨e, he, rfl⟩ := List.mem_map.mp h
  exact ⟨e, he, by simp⟩

omit [DecidableEq κ] in
theorem oldest_mem {cache : Cache κ α T} {key : κ} (h : oldest cache = some key) :
    key ∈ cache.keys := by
  obtain ⟨e, he, rfl⟩ := Option.map_eq_some_iff.mp h
  exact List.mem_map_of_mem (List.argmin_mem he)

omit [DecidableEq κ] in
theorem oldest_isSome {cache : Cache κ α T} (h : 0 < cache.entries.length) :
    ∃ key, oldest cache = some key := by
  cases hargmin : cache.entries.argmin (fun e => e.2.1) with
  | none =>
    rw [List.argmin_eq_none] at hargmin
    rw [hargmin] at h
    cases h
  | some e => exact ⟨e.1, by rw [oldest, hargmin, Option.map_some]⟩

theorem length_evict_lt {max : Nat} (hmax : 0 < max) (n : Nat) {cache : Cache κ α T}
    (h : cache.entries.length ≤ n) : (evict max n cache).entries.length < max := by
  induction n generalizing cache with
  | zero =>
    rw [evict, Nat.le_zero.mp h]
    exact hmax
  | succ n ih =>
    rw [evict]
    split
    · next hfull =>
      obtain ⟨key, hkey⟩ := oldest_isSome (Nat.lt_of_lt_of_le hmax hfull)
      rw [hkey]
      have hless := length_erase_lt (oldest_mem hkey)
      apply ih
      omega
    · next hroom => exact Nat.lt_of_not_le hroom

omit [LinearOrder T] in
theorem length_set_le (cache : Cache κ α T) (key : κ) (e : T × α) :
    (cache.set key e).entries.length ≤ cache.entries.length + 1 := by
  have hkeys := Assoc.map_fst_insert key e cache.entries
  have hlength := congrArg List.length hkeys
  rw [List.length_map] at hlength
  change (Assoc.insert key e cache.entries).length ≤ _
  rw [hlength]
  split
  · simp
  · simp

/-- After a write there are at most `max` entries. -/
theorem length_put_le {max : Nat} (hmax : 0 < max) (now : T) (cache : Cache κ α T) (key : κ)
    (value : α) (expires : T) : (put max now cache key value expires).entries.length ≤ max := by
  have hroom := length_evict_lt hmax _ (le_refl (purge now cache).entries.length)
  have hset := length_set_le (evict max (purge now cache).entries.length (purge now cache)) key
    (expires, value)
  exact le_trans hset hroom

omit [LinearOrder T] in
theorem length_erase_le (cache : Cache κ α T) (key : κ) :
    (cache.erase key).entries.length ≤ cache.entries.length :=
  List.length_filter_le _ _

theorem length_get_le (now : T) (cache : Cache κ α T) (key : κ) :
    (get now cache key).2.entries.length ≤ cache.entries.length := by
  unfold get
  split
  · exact le_refl _
  · split
    · exact length_erase_le cache key
    · exact le_refl _

/-! ## 3. The entries -/

omit [LinearOrder T] in
theorem get?_of_erase {cache : Cache κ α T} {key other : κ} {e : T × α}
    (h : (cache.erase key).get? other = some e) : cache.get? other = some e := by
  rw [Dict.get?_erase] at h
  split at h
  · cases h
  · exact h

theorem get?_of_get {now : T} {cache : Cache κ α T} {key other : κ} {e : T × α}
    (h : (get now cache key).2.get? other = some e) : cache.get? other = some e := by
  unfold get at h
  split at h
  · exact h
  · split at h
    · exact get?_of_erase h
    · exact h

/-- What is read is there, and has not expired. -/
theorem get?_of_get_value {now : T} {cache : Cache κ α T} {key : κ} {value : α}
    (h : (get now cache key).1 = some value) :
    ∃ expires, now < expires ∧ cache.get? key = some (expires, value) := by
  unfold get at h
  split at h
  · cases h
  · next expires held hget =>
    split at h
    · cases h
    · next hlive =>
      cases h
      exact ⟨expires, not_le.mp hlive, hget⟩

theorem get?_of_evict {max : Nat} (n : Nat) {cache : Cache κ α T} {key : κ} {e : T × α}
    (h : (evict max n cache).get? key = some e) : cache.get? key = some e := by
  induction n generalizing cache with
  | zero => exact h
  | succ n ih =>
    rw [evict] at h
    split at h
    · split at h
      · exact get?_of_erase (ih h)
      · exact h
    · exact h

/-- After a write an entry is the new one, or was there and has not expired. -/
theorem get?_of_put {max : Nat} {now : T} {cache : Cache κ α T} {key other : κ} {value : α}
    {expires : T} {e : T × α} (h : (put max now cache key value expires).get? other = some e) :
    (other = key ∧ e = (expires, value)) ∨ (cache.get? other = some e ∧ now < e.1) := by
  rw [put, Dict.get?_set] at h
  split at h
  · next heq =>
    left
    exact ⟨heq, (Option.some.inj h).symm⟩
  · right
    have hpurged := get?_of_evict _ h
    rw [purge, Dict.get?_filter, Option.filter_eq_some_iff] at hpurged
    exact ⟨hpurged.1, of_decide_eq_true hpurged.2⟩

theorem expires_oldest_le {cache : Cache κ α T} {key other : κ} {e e' : T × α}
    (hkey : oldest cache = some key) (he : cache.get? key = some e)
    (he' : cache.get? other = some e') : e.1 ≤ e'.1 := by
  obtain ⟨first, hfirst, rfl⟩ := Option.map_eq_some_iff.mp hkey
  have hmem : (first.1, e) ∈ cache.entries := (cache.mem_entries_iff first.1 e).mpr he
  have hsame : cache.get? first.1 = some first.2 :=
    (cache.mem_entries_iff first.1 first.2).mp (List.argmin_mem hfirst)
  cases he.symm.trans hsame
  have hmem' := (cache.mem_entries_iff other e').mpr he'
  have hle := List.le_of_mem_argmin hmem' hfirst
  exact hle

/-- What is given up for space expires no later than anything that is kept. -/
theorem expires_le_of_evicted {max : Nat} (n : Nat) {cache : Cache κ α T} {gone kept : κ}
    {e e' : T × α} (hgone : cache.get? gone = some e)
    (hdropped : (evict max n cache).get? gone = none)
    (hkept : (evict max n cache).get? kept = some e') : e.1 ≤ e'.1 := by
  induction n generalizing cache with
  | zero =>
    rw [evict, hgone] at hdropped
    cases hdropped
  | succ n ih =>
    rw [evict] at hdropped hkept
    split at hdropped
    · next hfull =>
      rw [if_pos hfull] at hkept
      split at hdropped
      · next key hkey =>
        rw [hkey] at hkept
        have hstayed := get?_of_erase (get?_of_evict n hkept)
        by_cases heq : gone = key
        · subst heq
          exact expires_oldest_le hkey hgone hstayed
        · apply ih _ hdropped hkept
          rw [Dict.get?_erase, if_neg heq]
          exact hgone
      · rw [hgone] at hdropped
        cases hdropped
    · rw [hgone] at hdropped
      cases hdropped

theorem evict_of_lt {max : Nat} (n : Nat) {cache : Cache κ α T}
    (h : cache.entries.length < max) : evict max n cache = cache := by
  cases n with
  | zero => rfl
  | succ n => rw [evict, if_neg (Nat.not_le.mpr h)]

/-- A write that drops an entry which has not expired found the cache full of such entries, and
    whatever else it keeps expires no sooner. -/
theorem put_drops {max : Nat} {now : T} {cache : Cache κ α T} {key gone : κ} {value : α}
    {expires : T} {e : T × α} (hgone : cache.get? gone = some e) (hlive : now < e.1)
    (hdropped : (put max now cache key value expires).get? gone = none) :
    max ≤ (purge now cache).entries.length ∧
      ∀ kept e', kept ≠ key → (put max now cache key value expires).get? kept = some e' →
        e.1 ≤ e'.1 := by
  have hpurged : (purge now cache).get? gone = some e := by
    rw [purge, Dict.get?_filter, hgone, Option.filter_some, if_pos (decide_eq_true hlive)]
  rw [put, Dict.get?_set] at hdropped
  split at hdropped
  · cases hdropped
  · constructor
    · by_contra hroom
      rw [evict_of_lt _ (Nat.not_le.mp hroom), hpurged] at hdropped
      cases hdropped
    · intro kept e' hne hkept
      rw [put, Dict.get?_set_of_ne _ hne] at hkept
      exact expires_le_of_evicted _ hpurged hdropped hkept

end TokenProxy.BoundedCache
