/-
  TokenProxy/EmbeddingCache.lean
  ==============================
  **The cache of text embeddings** (`embedding_cache.py`).

  A vector is kept in Redis under the tenant's prefix, the model and the hash of the text, and in
  the memory of each process that read or made it.  A call looks into the memory of its process,
  then into Redis, and has the model make the vector where neither has it; other calls, other
  processes and Redis itself go on between its steps.

  Main results: `stored_exactly`, what is stored of a vector is read back as it was;
  `answers_are_encodings`, whatever happens in between, a call is answered with what the model makes
  of its text, and has made for its own tenant; `locals_bounded`, no process keeps more than 512
  vectors; `soonest_given_up`, a process gives up a vector before its time only where it has no
  room, and one that expires soonest.
-/
import TokenProxy.Base64
import TokenProxy.BoundedCache
import TokenProxy.CallerIdentity
import TokenProxy.CcrTenants
import TokenProxy.Execution
import TokenProxy.ExpiringKeys
import TokenProxy.TenantContext
import TokenProxy.TextReplace
import Mathlib.Algebra.Order.Field.Rat

namespace TokenProxy.EmbeddingCache

open TokenProxy.Execution (AllSteps Always exec)
open TokenProxy.Tenancy (TenantContext colon_notMem_sanitiseTenantId sanitiseTenantId)

/-! ## 1. Vectors as text -/

/-- The floats of a vector, as the 32 bits of each. -/
abbrev Floats := List UInt32

/-- The bytes of a float, the lowest first. -/
def bytesOf (w : UInt32) : List UInt8 :=
  [UInt8.ofNat (w.toNat % 256), UInt8.ofNat (w.toNat / 256 % 256),
    UInt8.ofNat (w.toNat / 65536 % 256), UInt8.ofNat (w.toNat / 16777216)]

def floatOf (a b c d : UInt8) : UInt32 :=
  UInt32.ofNat (a.toNat + b.toNat * 256 + c.toNat * 65536 + d.toNat * 16777216)

/-- `struct.unpack`; `none` where bytes are left over. -/
def floatsOf : List UInt8 → Option Floats
  | [] => some []
  | a :: b :: c :: d :: rest => (floatsOf rest).map (floatOf a b c d :: ·)
  | _ => none

/-- `_pack`. -/
def pack (vector : Floats) : String := .ofList (Base64.encode (vector.flatMap bytesOf))

/-- `_unpack`; `none` where it raises. -/
def unpack (blob : String) : Option Floats := (Base64.decode blob.toList).bind floatsOf

theorem floatOf_bytesOf (w : UInt32) :
    floatOf (UInt8.ofNat (w.toNat % 256)) (UInt8.ofNat (w.toNat / 256 % 256))
      (UInt8.ofNat (w.toNat / 65536 % 256)) (UInt8.ofNat (w.toNat / 16777216)) = w := by
  have hw := w.toNat_lt
  have hbyte : ∀ n < 256, (UInt8.ofNat n).toNat = n := by
    intro n hn
    rw [UInt8.toNat_ofNat']
    exact Nat.mod_eq_of_lt hn
  rw [floatOf, hbyte _ (by omega), hbyte _ (by omega), hbyte _ (by omega), hbyte _ (by omega)]
  have hsum : w.toNat % 256 + w.toNat / 256 % 256 * 256 + w.toNat / 65536 % 256 * 65536 +
      w.toNat / 16777216 * 16777216 = w.toNat := by omega
  rw [hsum]
  exact UInt32.ofNat_toNat

theorem floatsOf_bytes (vector : Floats) : floatsOf (vector.flatMap bytesOf) = some vector := by
  induction vector with
  | nil => rfl
  | cons w rest ih =>
    rw [List.flatMap_cons, bytesOf]
    simp only [List.cons_append, List.nil_append]
    rw [floatsOf, ih, floatOf_bytesOf]
    rfl

theorem unpack_pack (vector : Floats) : unpack (pack vector) = some vector := by
  rw [unpack, pack, String.toList_ofList, Base64.decode_encode, Option.bind_some,
    floatsOf_bytes]

theorem length_bytes (vector : Floats) : (vector.flatMap bytesOf).length = 4 * vector.length := by
  induction vector with
  | nil => rfl
  | cons w rest ih =>
    rw [List.flatMap_cons, List.length_append, ih, bytesOf]
    simp only [List.length_cons, List.length_nil]
    omega

/-- **What is stored of a vector is read back as it was**, to the bit; it is ASCII, and takes four
    characters for every three bytes that are begun. -/
theorem stored_exactly (vector : Floats) :
    unpack (pack vector) = some vector ∧ (∀ c ∈ (pack vector).toList, c.toNat < 128) ∧
      (pack vector).length = (4 * vector.length + 2) / 3 * 4 := by
  refine ⟨unpack_pack vector, ?_, ?_⟩
  · intro c hc
    rw [pack, String.toList_ofList] at hc
    exact Base64.encode_ascii _ c hc
  · rw [← String.length_toList, pack, String.toList_ofList, Base64.length_encode, length_bytes]

/-! ## 2. Calls -/

/-- `_LOCAL_MAX`. -/
def localMax : Nat := 512

abbrev LocalStore := BoundedCache.Cache String Floats ℚ

structure Call where
  proc : Nat
  redisPrefix : String
  model : String
  text : String
  ttl : Int
deriving DecidableEq

/-- What a vector was made for. -/
structure Source where
  redisPrefix : String
  model : String
  text : String
deriving DecidableEq

def Call.source (call : Call) : Source := ⟨call.redisPrefix, call.model, call.text⟩

/-- Where a call is. -/
inductive Phase where
  /-- the `GET` is on its way -/
  | reading
  /-- the reply is on its way; `none` where Redis has nothing, or does not answer -/
  | replied (blob : Option String)
  /-- the model works in a thread -/
  | encoding
  /-- the `SET` is on its way -/
  | writing (vector : Floats)
  /-- Redis has taken it -/
  | written (vector : Floats)

structure State where
  now : ℚ
  redis : ExpiringKeys.Store String String ℚ
  locals : Nat → LocalStore
  pending : Nat → Option (Call × Phase)
  answers : List (Call × Floats)
  /-- what the model was asked for -/
  encoded : List Source
  /-- the `SET`s that went out -/
  sent : List (Call × Floats)

def start (now : ℚ) : State where
  now := now
  redis := fun _ => none
  locals := fun _ => ∅
  pending := fun _ => none
  answers := []
  encoded := []
  sent := []

inductive Label where
  | pass (seconds : ℚ)
  /-- Redis drops a key -/
  | evicted (key : String)
  /-- a process starts anew; its calls are gone -/
  | restarted (proc : Nat)
  | call (id : Nat) (call : Call)
  | redisGet (id : Nat) (answers : Bool)
  | resume (id : Nat)
  | encoded (id : Nat)
  /-- the model fails, or the call is cancelled -/
  | dropped (id : Nat)
  | redisSet (id : Nat)
  /-- Redis takes a `SET` whose call is over, or takes it again -/
  | lateSet (i : Nat)
  /-- the call returns, whether the `SET` was taken or not -/
  | finish (id : Nat)

section

variable (encode : String → String → Floats) (sha256Hex : String → String)

/-- `_cache_key`. -/
def cacheKey (source : Source) : String :=
  source.redisPrefix ++ "emb:" ++ source.model ++ ":" ++ sha256Hex source.text

def localPut (now : ℚ) (store : LocalStore) (key : String) (vector : Floats) (ttl : Int) :
    LocalStore :=
  BoundedCache.put localMax now store key vector (now + max 1 ttl)

def State.keep (s : State) (call : Call) (vector : Floats) : State :=
  { s with
    locals := Function.update s.locals call.proc
      (localPut s.now (s.locals call.proc) (cacheKey sha256Hex call.source) vector call.ttl) }

def State.await (s : State) (id : Nat) (call : Call) (phase : Phase) : State :=
  { s with pending := Function.update s.pending id (some (call, phase)) }

def State.answer (s : State) (id : Nat) (call : Call) (vector : Floats) : State :=
  { s with
    pending := Function.update s.pending id none
    answers := (call, vector) :: s.answers }

/-- `embed_cached`, up to its first `await`. -/
def beginCall (id : Nat) (call : Call) (s : State) : State :=
  let (cached, store) :=
    BoundedCache.get s.now (s.locals call.proc) (cacheKey sha256Hex call.source)
  let s := { s with locals := Function.update s.locals call.proc store }
  match cached with
  | some vector => s.answer id call vector
  | none => s.await id call .reading

/-- What a call does with the reply: a blob that is empty, or cannot be unpacked, is none. -/
def resumeCall (id : Nat) (call : Call) (blob : Option String) (s : State) : State :=
  match (blob.filter fun b => b ≠ "").bind unpack with
  | some vector => (s.keep sha256Hex call vector).answer id call vector
  | none => s.await id call .encoding

def step (s : State) : Label → Option State
  | .pass seconds => if 0 ≤ seconds then some { s with now := s.now + seconds } else none
  | .evicted key => some { s with redis := Function.update s.redis key none }
  | .restarted proc =>
    some { s with
      locals := Function.update s.locals proc ∅
      pending := fun id => (s.pending id).filter fun p => decide (p.1.proc ≠ proc) }
  | .call id call =>
    match s.pending id with
    | none => some (beginCall sha256Hex id call s)
    | some _ => none
  | .redisGet id answers =>
    match s.pending id with
    | some (call, .reading) =>
      let blob := if answers then s.redis.get s.now (cacheKey sha256Hex call.source) else none
      some (s.await id call (.replied blob))
    | _ => none
  | .resume id =>
    match s.pending id with
    | some (call, .replied blob) => some (resumeCall sha256Hex id call blob s)
    | _ => none
  | .encoded id =>
    match s.pending id with
    | some (call, .encoding) =>
      let vector := encode call.model call.text
      let s := { s with encoded := call.source :: s.encoded, sent := (call, vector) :: s.sent }
      some ((s.keep sha256Hex call vector).await id call (.writing vector))
    | _ => none
  | .dropped id => some { s with pending := Function.update s.pending id none }
  | .redisSet id =>
    match s.pending id with
    | some (call, .writing vector) =>
      let key := cacheKey sha256Hex call.source
      let s := { s with redis := s.redis.set s.now key (pack vector) (max 1 call.ttl) }
      some (s.await id call (.written vector))
    | _ => none
  | .lateSet i =>
    match s.sent[i]? with
    | some (call, vector) =>
      let key := cacheKey sha256Hex call.source
      some { s with redis := s.redis.set s.now key (pack vector) (max 1 call.ttl) }
    | none => none
  | .finish id =>
    match s.pending id with
    | some (call, .writing vector) => some (s.answer id call vector)
    | some (call, .written vector) => some (s.answer id call vector)
    | _ => none

/-- The steps, each with what it takes and what it leaves. -/
inductive Took (s : State) : Label → State → Prop where
  | pass {seconds : ℚ} : Took s (.pass seconds) { s with now := s.now + seconds }
  | evicted {key : String} :
    Took s (.evicted key) { s with redis := Function.update s.redis key none }
  | restarted {proc : Nat} : Took s (.restarted proc) { s with
      locals := Function.update s.locals proc ∅
      pending := fun id => (s.pending id).filter fun p => decide (p.1.proc ≠ proc) }
  | call {id : Nat} {call : Call} : Took s (.call id call) (beginCall sha256Hex id call s)
  | redisGet {id : Nat} {answers : Bool} {call : Call} (h : s.pending id = some (call, .reading)) :
    Took s (.redisGet id answers) (s.await id call (.replied
      (if answers then s.redis.get s.now (cacheKey sha256Hex call.source) else none)))
  | resume {id : Nat} {call : Call} {blob : Option String}
      (h : s.pending id = some (call, .replied blob)) :
    Took s (.resume id) (resumeCall sha256Hex id call blob s)
  | encoded {id : Nat} {call : Call} (h : s.pending id = some (call, .encoding)) :
    Took s (.encoded id)
      ((({ s with
          encoded := call.source :: s.encoded
          sent := (call, encode call.model call.text) :: s.sent } : State).keep sha256Hex call
        (encode call.model call.text)).await id call (.writing (encode call.model call.text)))
  | dropped {id : Nat} :
    Took s (.dropped id) { s with pending := Function.update s.pending id none }
  | redisSet {id : Nat} {call : Call} {vector : Floats}
      (h : s.pending id = some (call, .writing vector)) :
    Took s (.redisSet id)
      (({ s with
          redis := s.redis.set s.now (cacheKey sha256Hex call.source) (pack vector)
            (max 1 call.ttl) } : State).await id call (.written vector))
  | lateSet {i : Nat} {call : Call} {vector : Floats} (h : (call, vector) ∈ s.sent) :
    Took s (.lateSet i)
      { s with
        redis := s.redis.set s.now (cacheKey sha256Hex call.source) (pack vector)
          (max 1 call.ttl) }
  | finish {id : Nat} {call : Call} {vector : Floats}
      (h : s.pending id = some (call, .writing vector) ∨
        s.pending id = some (call, .written vector)) :
    Took s (.finish id) (s.answer id call vector)

variable {encode} {sha256Hex}

theorem took_of_step {s s' : State} {label : Label}
    (h : step encode sha256Hex s label = some s') : Took encode sha256Hex s label s' := by
  cases label with
  | pass seconds =>
    simp only [step] at h
    split at h
    · cases h
      exact .pass
    · cases h
  | evicted key =>
    cases h
    exact .evicted
  | restarted proc =>
    cases h
    exact .restarted
  | call id call =>
    simp only [step] at h
    split at h
    · cases h
      exact .call
    · cases h
  | redisGet id answers =>
    simp only [step] at h
    split at h
    · next call hpending =>
      cases h
      exact .redisGet hpending
    · cases h
  | resume id =>
    simp only [step] at h
    split at h
    · next call blob hpending =>
      cases h
      exact .resume hpending
    · cases h
  | encoded id =>
    simp only [step] at h
    split at h
    · next call hpending =>
      cases h
      exact .encoded hpending
    · cases h
  | dropped id =>
    cases h
    exact .dropped
  | redisSet id =>
    simp only [step] at h
    split at h
    · next call vector hpending =>
      cases h
      exact .redisSet hpending
    · cases h
  | lateSet i =>
    simp only [step] at h
    split at h
    · next call vector hsent =>
      cases h
      exact .lateSet (List.mem_of_getElem? hsent)
    · cases h
  | finish id =>
    simp only [step] at h
    split at h
    · next call vector hpending =>
      cases h
      exact .finish (.inl hpending)
    · next call vector hpending =>
      cases h
      exact .finish (.inr hpending)
    · cases h

/-! ## 3. Whose a key is -/

/-- The prefix of a tenant's keys. -/
def TenantPrefix (redisPrefix : String) : Prop :=
  ∃ id tier, redisPrefix = (TenantContext.forTenant id tier).redisPrefix

/-- A tenant's prefix is empty, or its id between `t:` and a colon. -/
theorem tenantPrefix_cases {redisPrefix : String} (h : TenantPrefix redisPrefix) :
    redisPrefix.toList = [] ∨
      ∃ id : List Char, ':' ∉ id ∧ redisPrefix.toList = 't' :: ':' :: (id ++ [':']) := by
  obtain ⟨id, tier, hsame⟩ := h
  by_cases hdefault : sanitiseTenantId id = "default"
  · have hempty : (TenantContext.forTenant id tier).redisPrefix = "" := by
      simp [TenantContext.forTenant, hdefault]
    left
    rw [hsame, hempty]
    exact String.toList_empty
  · have hlead : (TenantContext.forTenant id tier).redisPrefix =
        "t:" ++ sanitiseTenantId id ++ ":" := by
      simp [TenantContext.forTenant, hdefault]
    right
    refine ⟨(sanitiseTenantId id).toList, colon_notMem_sanitiseTenantId id, ?_⟩
    have ht : ("t:" : String).toList = ['t', ':'] := by decide
    have hcolon : (":" : String).toList = [':'] := by decide
    rw [hsame, hlead, String.toList_append, String.toList_append, ht, hcolon]
    simp only [List.cons_append, List.nil_append]

/-- What follows two tenants' prefixes, behind `emb:`, tells whose they are. -/
theorem eq_of_prefixed {p p' : String} (hp : TenantPrefix p) (hp' : TenantPrefix p')
    {rest rest' : List Char}
    (h : p.toList ++ ("emb:".toList ++ rest) = p'.toList ++ ("emb:".toList ++ rest')) :
    p = p' ∧ rest = rest' := by
  rcases tenantPrefix_cases hp with hempty | ⟨id, hid, hlist⟩
  · rcases tenantPrefix_cases hp' with hempty' | ⟨id', -, hlist'⟩
    · rw [hempty, hempty'] at h
      refine ⟨String.toList_inj.mp (hempty.trans hempty'.symm), ?_⟩
      exact List.append_cancel_left h
    · rw [hempty, hlist'] at h
      exact absurd (List.cons.inj h).1 (by decide)
  · rcases tenantPrefix_cases hp' with hempty' | ⟨id', hid', hlist'⟩
    · rw [hlist, hempty'] at h
      exact absurd (List.cons.inj h).1 (by decide)
    · rw [hlist, hlist'] at h
      simp only [List.cons_append, List.append_assoc, List.cons.injEq, true_and] at h
      obtain ⟨rfl, hrest⟩ := TextReplace.append_cons_inj_of_notMem_left hid hid' h
      refine ⟨String.toList_inj.mp (hlist.trans hlist'.symm), ?_⟩
      exact List.append_cancel_left hrest

/-- **A key tells what it is for**: the tenant, the model and the hash of the text. -/
theorem cacheKey_inj (hlength : ∀ text, (sha256Hex text).toList.length = 64)
    {source source' : Source} (hown : TenantPrefix source.redisPrefix)
    (hown' : TenantPrefix source'.redisPrefix)
    (h : cacheKey sha256Hex source = cacheKey sha256Hex source') :
    source.redisPrefix = source'.redisPrefix ∧ source.model = source'.model ∧
      sha256Hex source.text = sha256Hex source'.text := by
  have hlist := congrArg String.toList h
  simp only [cacheKey, String.toList_append] at hlist
  obtain ⟨hleft, hhash⟩ := List.append_inj' hlist (by rw [hlength, hlength])
  obtain ⟨hhead, -⟩ := List.append_inj' hleft rfl
  rw [List.append_assoc, List.append_assoc] at hhead
  obtain ⟨hlead, hmodel⟩ := eq_of_prefixed hown hown' hhead
  exact ⟨hlead, String.toList_inj.mp hmodel, String.toList_inj.mp hhash⟩

/-! ## 4. What is kept, and what is answered -/

/-- A call of a tenant, with one of the texts. -/
def Own (texts : Set String) (source : Source) : Prop :=
  TenantPrefix source.redisPrefix ∧ source.text ∈ texts

/-- The vector of a key is what the model made for the key's source. -/
def Backed (encode : String → String → Floats) (sha256Hex : String → String) (texts : Set String)
    (encoded : List Source) (key : String) (vector : Floats) : Prop :=
  ∃ source ∈ encoded, Own texts source ∧ key = cacheKey sha256Hex source ∧
    vector = encode source.model source.text

/-- The vector is what the model makes of the call's text, and has made for its tenant. -/
def Answered (encode : String → String → Floats) (encoded : List Source) (call : Call)
    (vector : Floats) : Prop :=
  vector = encode call.model call.text ∧ call.source ∈ encoded

/-- What a call's phase promises. -/
def Phase.Good (encode : String → String → Floats) (sha256Hex : String → String)
    (texts : Set String) (encoded : List Source) (call : Call) : Phase → Prop
  | .reading => True
  | .replied blob => ∀ b ∈ blob, ∃ vector, b = pack vector ∧
      Backed encode sha256Hex texts encoded (cacheKey sha256Hex call.source) vector
  | .encoding => True
  | .writing vector => Answered encode encoded call vector
  | .written vector => Answered encode encoded call vector

structure Inv (encode : String → String → Floats) (sha256Hex : String → String)
    (texts : Set String) (s : State) : Prop where
  redis : ∀ key, ∀ entry ∈ s.redis key, ∃ vector, entry.value = pack vector ∧
    Backed encode sha256Hex texts s.encoded key vector
  locals : ∀ proc key e, (s.locals proc).get? key = some e →
    Backed encode sha256Hex texts s.encoded key e.2
  pending : ∀ id call phase, s.pending id = some (call, phase) →
    Own texts call.source ∧ phase.Good encode sha256Hex texts s.encoded call
  answers : ∀ answer ∈ s.answers, Answered encode s.encoded answer.1 answer.2
  sent : ∀ set ∈ s.sent, Own texts set.1.source ∧ Answered encode s.encoded set.1 set.2

variable {texts : Set String}

theorem Backed.mono {encoded encoded' : List Source} {key : String} {vector : Floats}
    (h : Backed encode sha256Hex texts encoded key vector) (hsub : encoded ⊆ encoded') :
    Backed encode sha256Hex texts encoded' key vector := by
  obtain ⟨source, hmem, hrest⟩ := h
  exact ⟨source, hsub hmem, hrest⟩

theorem Answered.mono {encoded encoded' : List Source} {call : Call} {vector : Floats}
    (h : Answered encode encoded call vector) (hsub : encoded ⊆ encoded') :
    Answered encode encoded' call vector := ⟨h.1, hsub h.2⟩

theorem Phase.Good.mono {encoded encoded' : List Source} {call : Call} {phase : Phase}
    (h : phase.Good encode sha256Hex texts encoded call) (hsub : encoded ⊆ encoded') :
    phase.Good encode sha256Hex texts encoded' call := by
  cases phase with
  | reading => trivial
  | replied blob =>
    intro b hb
    obtain ⟨vector, hpack, hbacked⟩ := h b hb
    exact ⟨vector, hpack, hbacked.mono hsub⟩
  | encoding => trivial
  | writing vector => exact Answered.mono h hsub
  | written vector => exact Answered.mono h hsub

/-- What the key of a call holds is its answer. -/
theorem answered_of_backed (hlength : ∀ text, (sha256Hex text).toList.length = 64)
    (hcollision : ∀ x ∈ texts, ∀ y ∈ texts, sha256Hex x = sha256Hex y → x = y)
    {encoded : List Source} {call : Call} {vector : Floats} (hown : Own texts call.source)
    (h : Backed encode sha256Hex texts encoded (cacheKey sha256Hex call.source) vector) :
    Answered encode encoded call vector := by
  obtain ⟨source, hmem, hsource, hkey, rfl⟩ := h
  obtain ⟨hlead, hmodel, hhash⟩ := cacheKey_inj hlength hown.1 hsource.1 hkey
  have htext := hcollision _ hown.2 _ hsource.2 hhash
  have hsame : call.source = source := by
    cases source
    cases hlead
    cases hmodel
    cases htext
    rfl
  rw [← hsame] at hmem ⊢
  exact ⟨rfl, hmem⟩

theorem backed_of_answered {encoded : List Source} {call : Call} {vector : Floats}
    (hown : Own texts call.source) (h : Answered encode encoded call vector) :
    Backed encode sha256Hex texts encoded (cacheKey sha256Hex call.source) vector :=
  ⟨call.source, h.2, hown, rfl, h.1⟩

theorem inv_start (now : ℚ) : Inv encode sha256Hex texts (start now) where
  redis := by
    intro key entry hentry
    cases hentry
  locals := by
    intro proc key e he
    cases he
  pending := by
    intro id call phase hpending
    cases hpending
  answers := by
    intro answer hanswer
    cases hanswer
  sent := by
    intro set hset
    cases hset

namespace Inv

variable {s : State} (h : Inv encode sha256Hex texts s)
include h

/-- A process has another store, of what is backed. -/
theorem setLocal {proc : Nat} {store : LocalStore}
    (hstore : ∀ key e, store.get? key = some e →
      Backed encode sha256Hex texts s.encoded key e.2) :
    Inv encode sha256Hex texts { s with locals := Function.update s.locals proc store } where
  redis := h.redis
  locals := by
    intro other key e he
    simp only [Function.update_apply] at he
    split at he
    · exact hstore key e he
    · exact h.locals other key e he
  pending := h.pending
  answers := h.answers
  sent := h.sent

theorem keep {call : Call} {vector : Floats}
    (hbacked : Backed encode sha256Hex texts s.encoded (cacheKey sha256Hex call.source) vector) :
    Inv encode sha256Hex texts (s.keep sha256Hex call vector) := by
  apply h.setLocal
  intro key e he
  rcases BoundedCache.get?_of_put he with ⟨rfl, rfl⟩ | ⟨hold, -⟩
  · exact hbacked
  · exact h.locals _ key e hold

theorem await {id : Nat} {call : Call} {phase : Phase} (hown : Own texts call.source)
    (hgood : phase.Good encode sha256Hex texts s.encoded call) :
    Inv encode sha256Hex texts (s.await id call phase) where
  redis := h.redis
  locals := h.locals
  pending := by
    intro other call' phase' hpending
    simp only [State.await, Function.update_apply] at hpending
    split at hpending
    · cases hpending
      exact ⟨hown, hgood⟩
    · exact h.pending other call' phase' hpending
  answers := h.answers
  sent := h.sent

theorem forget (id : Nat) :
    Inv encode sha256Hex texts { s with pending := Function.update s.pending id none } where
  redis := h.redis
  locals := h.locals
  pending := by
    intro other call phase hpending
    simp only [Function.update_apply] at hpending
    split at hpending
    · cases hpending
    · exact h.pending other call phase hpending
  answers := h.answers
  sent := h.sent

theorem answer {id : Nat} {call : Call} {vector : Floats}
    (hanswered : Answered encode s.encoded call vector) :
    Inv encode sha256Hex texts (s.answer id call vector) where
  redis := h.redis
  locals := h.locals
  pending := (h.forget id).pending
  answers := by
    intro answer hanswer
    rcases List.mem_cons.mp hanswer with rfl | hold
    · exact hanswered
    · exact h.answers answer hold
  sent := h.sent

/-- The model has made a vector, and a `SET` goes out with it. -/
theorem encodes {call : Call} (hown : Own texts call.source) :
    Inv encode sha256Hex texts { s with
      encoded := call.source :: s.encoded
      sent := (call, encode call.model call.text) :: s.sent } where
  redis := by
    intro key entry hentry
    obtain ⟨vector, hpack, hbacked⟩ := h.redis key entry hentry
    exact ⟨vector, hpack, hbacked.mono (List.subset_cons_self _ _)⟩
  locals := fun proc key e he => (h.locals proc key e he).mono (List.subset_cons_self _ _)
  pending := by
    intro id call phase hpending
    obtain ⟨hown, hgood⟩ := h.pending id call phase hpending
    exact ⟨hown, hgood.mono (List.subset_cons_self _ _)⟩
  answers := fun answer hanswer => (h.answers answer hanswer).mono (List.subset_cons_self _ _)
  sent := by
    intro set hset
    rcases List.mem_cons.mp hset with rfl | hold
    · exact ⟨hown, rfl, List.mem_cons_self⟩
    · obtain ⟨hown, hanswered⟩ := h.sent set hold
      exact ⟨hown, hanswered.mono (List.subset_cons_self _ _)⟩

theorem write {call : Call} {vector : Floats}
    (hbacked : Backed encode sha256Hex texts s.encoded (cacheKey sha256Hex call.source) vector)
    (ttl : ℚ) :
    Inv encode sha256Hex texts
      { s with redis := s.redis.set s.now (cacheKey sha256Hex call.source) (pack vector) ttl }
    where
  redis := by
    intro key entry hentry
    simp only at hentry
    by_cases hkey : key = cacheKey sha256Hex call.source
    · subst hkey
      rw [ExpiringKeys.set_self] at hentry
      cases hentry
      exact ⟨vector, rfl, hbacked⟩
    · rw [ExpiringKeys.set_of_ne hkey] at hentry
      exact h.redis key entry hentry
  locals := h.locals
  pending := h.pending
  answers := h.answers
  sent := h.sent

theorem begins (hlength : ∀ text, (sha256Hex text).toList.length = 64)
    (hcollision : ∀ x ∈ texts, ∀ y ∈ texts, sha256Hex x = sha256Hex y → x = y)
    (id : Nat) {call : Call} (hown : Own texts call.source) :
    Inv encode sha256Hex texts (beginCall sha256Hex id call s) := by
  have hlocal : Inv encode sha256Hex texts { s with
      locals := Function.update s.locals call.proc
        (BoundedCache.get s.now (s.locals call.proc) (cacheKey sha256Hex call.source)).2 } :=
    h.setLocal fun key e he => h.locals call.proc key e (BoundedCache.get?_of_get he)
  simp only [beginCall]
  cases hcached : (BoundedCache.get s.now (s.locals call.proc)
      (cacheKey sha256Hex call.source)).1 with
  | some vector =>
    obtain ⟨expires, -, hheld⟩ := BoundedCache.get?_of_get_value hcached
    have hbacked := h.locals _ _ _ hheld
    exact hlocal.answer (answered_of_backed hlength hcollision hown hbacked)
  | none => exact hlocal.await hown trivial

theorem resumes (hlength : ∀ text, (sha256Hex text).toList.length = 64)
    (hcollision : ∀ x ∈ texts, ∀ y ∈ texts, sha256Hex x = sha256Hex y → x = y)
    {id : Nat} {call : Call} {blob : Option String}
    (hpending : s.pending id = some (call, .replied blob)) :
    Inv encode sha256Hex texts (resumeCall sha256Hex id call blob s) := by
  obtain ⟨hown, hgood⟩ := h.pending id call _ hpending
  rw [resumeCall]
  split
  · next vector hvector =>
    obtain ⟨b, hb, hunpack⟩ := Option.bind_eq_some_iff.mp hvector
    obtain ⟨made, rfl, hbacked⟩ := hgood b (Option.filter_eq_some_iff.mp hb).1
    rw [unpack_pack] at hunpack
    cases hunpack
    have hkept := h.keep hbacked
    exact hkept.answer (answered_of_backed hlength hcollision hown hbacked)
  · exact h.await hown trivial

theorem restarts (proc : Nat) :
    Inv encode sha256Hex texts { s with
      locals := Function.update s.locals proc ∅
      pending := fun id => (s.pending id).filter fun p => decide (p.1.proc ≠ proc) } := by
  have hlocal : Inv encode sha256Hex texts
      { s with locals := Function.update s.locals proc ∅ } := by
    apply h.setLocal
    intro key e he
    cases he
  refine ⟨hlocal.redis, hlocal.locals, ?_, hlocal.answers, hlocal.sent⟩
  intro id call phase hpending
  exact h.pending id call phase (Option.filter_eq_some_iff.mp hpending).1

theorem evicts (key : String) :
    Inv encode sha256Hex texts { s with redis := Function.update s.redis key none } where
  redis := by
    intro other entry hentry
    simp only [Function.update_apply] at hentry
    split at hentry
    · cases hentry
    · exact h.redis other entry hentry
  locals := h.locals
  pending := h.pending
  answers := h.answers
  sent := h.sent

/-- What Redis answers a `GET` with is backed. -/
theorem replies {call : Call} (answers : Bool) :
    Phase.Good encode sha256Hex texts s.encoded call (.replied
      (if answers then s.redis.get s.now (cacheKey sha256Hex call.source) else none)) := by
  intro b hb
  split at hb
  · obtain ⟨entry, hentry, rfl, -⟩ := ExpiringKeys.exists_entry_of_get hb
    exact h.redis _ entry hentry
  · cases hb

theorem took (hlength : ∀ text, (sha256Hex text).toList.length = 64)
    (hcollision : ∀ x ∈ texts, ∀ y ∈ texts, sha256Hex x = sha256Hex y → x = y)
    {label : Label} {s' : State} (hcall : ∀ id call, label = .call id call → Own texts call.source)
    (hstep : Took encode sha256Hex s label s') : Inv encode sha256Hex texts s' := by
  cases hstep with
  | pass => exact ⟨h.redis, h.locals, h.pending, h.answers, h.sent⟩
  | evicted => exact h.evicts _
  | restarted => exact h.restarts _
  | @call id call => exact h.begins hlength hcollision id (hcall id call rfl)
  | redisGet hpending => exact h.await (h.pending _ _ _ hpending).1 (h.replies _)
  | resume hpending => exact h.resumes hlength hcollision hpending
  | @encoded id call hpending =>
    obtain ⟨hown, -⟩ := h.pending id call _ hpending
    have hanswered : Answered encode (call.source :: s.encoded) call
        (encode call.model call.text) := ⟨rfl, List.mem_cons_self⟩
    have hkept := (h.encodes hown).keep (backed_of_answered hown hanswered)
    exact hkept.await hown hanswered
  | dropped => exact h.forget _
  | @redisSet id call vector hpending =>
    obtain ⟨hown, hgood⟩ := h.pending id call _ hpending
    have hwritten := h.write (backed_of_answered hown hgood) (max 1 call.ttl)
    exact hwritten.await hown hgood
  | @lateSet i call vector hsent =>
    obtain ⟨hown, hanswered⟩ := h.sent _ hsent
    exact h.write (backed_of_answered hown hanswered) (max 1 call.ttl)
  | finish hpending =>
    apply h.answer
    rcases hpending with hwriting | hwritten
    · exact (h.pending _ _ _ hwriting).2
    · exact (h.pending _ _ _ hwritten).2

end Inv

/-- **A call is answered with what the model makes of its text**, and has made for its tenant. -/
theorem answers_are_encodings (hlength : ∀ text, (sha256Hex text).toList.length = 64)
    (hcollision : ∀ x ∈ texts, ∀ y ∈ texts, sha256Hex x = sha256Hex y → x = y) (now : ℚ)
    (labels : List Label)
    (hcalls : AllSteps (step encode sha256Hex)
      (fun _ label => ∀ id call, label = .call id call → Own texts call.source)
      (start now) labels) :
    Always (step encode sha256Hex) (fun s => ∀ answer ∈ s.answers,
      answer.2 = encode answer.1.model answer.1.text ∧ answer.1.source ∈ s.encoded)
      (start now) labels := by
  have hinv := Execution.always_of_allSteps
    (fun s label s' hs hok hstep => Inv.took hs hlength hcollision hok (took_of_step hstep))
    (@inv_start encode sha256Hex texts now) hcalls
  apply hinv.imp
  intro s hs answer hanswer
  exact hs.answers answer hanswer

/-- Two calls of one tenant with one text, in two processes. -/
def sharedText : List Label :=
  [.call 0 ⟨0, "t:acme:", "BAAI/bge-small-en-v1.5", Ccr.figures, 604800⟩, .redisGet 0 true,
    .resume 0, .encoded 0, .redisSet 0, .finish 0,
    .call 1 ⟨1, "t:acme:", "BAAI/bge-small-en-v1.5", Ccr.figures, 604800⟩, .redisGet 1 true,
    .resume 1]

/-- Both are answered, and the model is asked once. -/
theorem answers_are_encodings_shared :
    (exec (step (fun _ _ => [0x3f800000, 0xbe4ccccd]) Ccr.figuresHash) (start 0) sharedText).map
        (fun s => (s.answers.length, s.encoded.length)) = some (2, 1) ∧
      Always (step (fun _ _ => [0x3f800000, 0xbe4ccccd]) Ccr.figuresHash)
        (fun s => ∀ answer ∈ s.answers, answer.2 = [0x3f800000, 0xbe4ccccd] ∧
          answer.1.source ∈ s.encoded) (start 0) sharedText := by
  have hcollision : ∀ x ∈ ({Ccr.figures} : Set String), ∀ y ∈ ({Ccr.figures} : Set String),
      Ccr.figuresHash x = Ccr.figuresHash y → x = y := by
    intro x hx y hy _
    exact hx.trans hy.symm
  have hown : Own {Ccr.figures} ⟨"t:acme:", "BAAI/bge-small-en-v1.5", Ccr.figures⟩ :=
    ⟨⟨"acme", "free", by decide +kernel⟩, rfl⟩
  refine ⟨by decide +kernel, ?_⟩
  apply answers_are_encodings (fun text => (Ccr.isDigest_figuresHash text).1) hcollision
  apply Execution.allSteps_of_forall
  intro label hlabel s id call hcall
  subst hcall
  simp only [sharedText, List.mem_cons, Label.call.injEq, reduceCtorEq, List.not_mem_nil,
    or_false, false_or] at hlabel
  rcases hlabel with ⟨-, rfl⟩ | ⟨-, rfl⟩
  · exact hown
  · exact hown

/-! ## 5. What a process keeps -/

/-- No process keeps more than `localMax` vectors. -/
def Bounded (s : State) : Prop := ∀ proc, (s.locals proc).entries.length ≤ localMax

theorem Bounded.setLocal {s : State} (h : Bounded s) (proc : Nat) {store : LocalStore}
    (hstore : store.entries.length ≤ localMax) :
    Bounded { s with locals := Function.update s.locals proc store } := by
  intro other
  simp only [Function.update_apply]
  split
  · exact hstore
  · exact h other

theorem Bounded.keep {s : State} (h : Bounded s) (call : Call) (vector : Floats) :
    Bounded (s.keep sha256Hex call vector) :=
  h.setLocal call.proc (BoundedCache.length_put_le (by decide) _ _ _ _ _)

/-- A state whose processes keep the same is bounded as well. -/
theorem Bounded.of_locals {s s' : State} (h : Bounded s) (hlocals : s'.locals = s.locals) :
    Bounded s' := by
  intro proc
  rw [hlocals]
  exact h proc

theorem Bounded.took {s s' : State} (h : Bounded s) {label : Label}
    (hstep : Took encode sha256Hex s label s') : Bounded s' := by
  cases hstep with
  | pass => exact h.of_locals rfl
  | evicted => exact h.of_locals rfl
  | @restarted proc => exact (h.setLocal proc (Nat.zero_le _)).of_locals rfl
  | @call id call =>
    have hget := BoundedCache.length_get_le s.now (s.locals call.proc)
      (cacheKey sha256Hex call.source)
    have hlocal := h.setLocal call.proc (le_trans hget (h call.proc))
    simp only [beginCall]
    split
    · exact hlocal.of_locals rfl
    · exact hlocal.of_locals rfl
  | redisGet => exact h.of_locals rfl
  | @resume id call blob hpending =>
    rw [resumeCall]
    split
    · next vector hvector => exact (h.keep call vector).of_locals rfl
    · exact h.of_locals rfl
  | @encoded id call hpending =>
    have hencoded : Bounded { s with
        encoded := call.source :: s.encoded
        sent := (call, encode call.model call.text) :: s.sent } := h.of_locals rfl
    exact (hencoded.keep call (encode call.model call.text)).of_locals rfl
  | dropped => exact h.of_locals rfl
  | redisSet => exact h.of_locals rfl
  | lateSet => exact h.of_locals rfl
  | finish => exact h.of_locals rfl

/-- **No process keeps more than 512 vectors**, in any run. -/
theorem locals_bounded (now : ℚ) (labels : List Label) :
    Always (step encode sha256Hex) (fun s => ∀ proc, (s.locals proc).entries.length ≤ localMax)
      (start now) labels := by
  apply Execution.always_of_step (fun s label s' hs hstep => Bounded.took hs (took_of_step hstep))
  intro proc
  exact Nat.zero_le _

/-- **A vector is given up before its time only where there are 512 that have not expired**, and
    none that is kept expires sooner; the vector written is there. -/
theorem soonest_given_up (now : ℚ) (store : LocalStore) (key : String) (vector : Floats)
    (ttl : Int) :
    (localPut now store key vector ttl).get? key = some (now + (max 1 ttl : Int), vector) ∧
      ∀ gone e, store.get? gone = some e → now < e.1 →
        (localPut now store key vector ttl).get? gone = none →
          localMax ≤ (store.entries.filter fun entry => decide (now < entry.2.1)).length ∧
            ∀ kept e', kept ≠ key →
              (localPut now store key vector ttl).get? kept = some e' → e.1 ≤ e'.1 := by
  constructor
  · rw [localPut, BoundedCache.put, Dict.get?_set_self]
  · intro gone e hgone hlive hdropped
    exact BoundedCache.put_drops hgone hlive hdropped

end

end TokenProxy.EmbeddingCache
