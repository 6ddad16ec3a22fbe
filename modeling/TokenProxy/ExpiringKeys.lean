/-
  TokenProxy/ExpiringKeys.lean
  ============================
  **A store of keys that expire.**

  A key holds a value until its expiry, if it has one, and nothing from then on.  The
  operations are those of Redis: `get`, `set` with an expiry, `update` (which keeps the expiry of
  a key that is there, as `INCR` does) and `expire` (which gives a key that is there a new one).
  A key that was set is there exactly until its expiry (`get_of_eq_some`), and no operation
  touches another key.
-/
import Mathlib.Algebra.Order.Group.Defs
import Mathlib.Logic.Function.Basic

namespace TokenProxy.ExpiringKeys

/-- A value and the moment from which it is gone. -/
structure Entry (α T : Type*) where
  value : α
  expires : Option T

abbrev Store (κ α T : Type*) := κ → Option (Entry α T)

/-! ## 1. Reading -/

section Reading

variable {κ α T : Type*} [LinearOrder T]

def Entry.live (entry : Entry α T) (now : T) : Bool :=
  match entry.expires with
  | some expires => decide (now < expires)
  | none => true

/-- What is there now. -/
def Store.liveEntry (store : Store κ α T) (now : T) (key : κ) : Option (Entry α T) :=
  (store key).filter fun entry => entry.live now

def Store.get (store : Store κ α T) (now : T) (key : κ) : Option α :=
  (store.liveEntry now key).map Entry.value

variable {store : Store κ α T} {now : T} {key : κ}

theorem get_of_eq_some {value : α} {expires : T} (h : store key = some ⟨value, some expires⟩) :
    store.get now key = if now < expires then some value else none := by
  rw [Store.get, Store.liveEntry, h, Option.filter_some, Entry.live]
  by_cases hlive : now < expires
  · rw [if_pos (decide_eq_true hlive), if_pos hlive]
    rfl
  · rw [if_neg (by simpa using hlive), if_neg hlive]
    rfl

theorem get_of_eq_none (h : store key = none) : store.get now key = none := by
  rw [Store.get, Store.liveEntry, h]
  rfl

theorem exists_entry_of_get {value : α} (h : store.get now key = some value) :
    ∃ entry ∈ store key, entry.value = value ∧ entry.live now = true := by
  obtain ⟨entry, hlive, hvalue⟩ := Option.map_eq_some_iff.mp h
  obtain ⟨hentry, hlive⟩ := Option.filter_eq_some_iff.mp hlive
  exact ⟨entry, hentry, hvalue, hlive⟩

end Reading

/-! ## 2. Writing -/

section Writing

variable {κ α T : Type*} [DecidableEq κ]

/-- `SET key value EX ttl`. -/
def Store.set [Add T] (store : Store κ α T) (now : T) (key : κ) (value : α) (ttl : T) :
    Store κ α T :=
  Function.update store key (some ⟨value, some (now + ttl)⟩)

/-- The value made anew from what is there, which keeps its expiry. -/
def Store.update [LinearOrder T] (store : Store κ α T) (now : T) (key : κ) (f : Option α → α) :
    Store κ α T :=
  Function.update store key
    (some ⟨f (store.get now key), (store.liveEntry now key).bind Entry.expires⟩)

/-- `EXPIRE key ttl`. -/
def Store.expire [LinearOrder T] [Add T] (store : Store κ α T) (now : T) (key : κ) (ttl : T) :
    Store κ α T :=
  match store.liveEntry now key with
  | some entry => store.set now key entry.value ttl
  | none => store

variable {store : Store κ α T} {now ttl : T} {key other : κ}

theorem set_self [Add T] {value : α} :
    store.set now key value ttl key = some ⟨value, some (now + ttl)⟩ :=
  Function.update_self ..

theorem set_of_ne [Add T] {value : α} (h : other ≠ key) :
    store.set now key value ttl other = store other :=
  Function.update_of_ne h _ _

theorem update_of_ne [LinearOrder T] {f : Option α → α} (h : other ≠ key) :
    store.update now key f other = store other :=
  Function.update_of_ne h _ _

theorem expire_of_ne [LinearOrder T] [Add T] (h : other ≠ key) :
    store.expire now key ttl other = store other := by
  cases hentry : store.liveEntry now key with
  | none => rw [Store.expire, hentry]
  | some entry =>
    rw [Store.expire, hentry]
    exact set_of_ne h

/-- A value that is made anew is there at once, and a new expiry replaces the one it kept. -/
theorem expire_update_self [LinearOrder T] [Add T] {f : Option α → α} :
    (store.update now key f).expire now key ttl key =
      some ⟨f (store.get now key), some (now + ttl)⟩ := by
  have hlive : (store.update now key f).liveEntry now key =
      some ⟨f (store.get now key), (store.liveEntry now key).bind Entry.expires⟩ := by
    rw [Store.liveEntry, Store.update, Function.update_self, Option.filter_some]
    refine if_pos ?_
    cases hentry : store.liveEntry now key with
    | none => rfl
    | some entry => exact (Option.filter_eq_some_iff.mp hentry).2
  rw [Store.expire, hlive]
  exact set_self

end Writing

end TokenProxy.ExpiringKeys
