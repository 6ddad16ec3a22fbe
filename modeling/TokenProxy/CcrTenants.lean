/-
  TokenProxy/CcrTenants.lean
  ==========================
  **Whose stored blocks a reference reaches** (`g28_ccr.py`).

  A reference is text that the model typed, so anyone may write any.  `shaFromRef` reads a
  hash off it, whatever markup is around, and the block is looked up under the caller's own
  prefix and that hash, first in the memory of the process, then in Redis.  A key ends in the
  64 characters of a hash, so that two tenants' keys differ when their prefixes do; a block is
  written under its tenant's prefix and its own hash, and read under nothing else.

  Main result: `retrieved_is_own`, over every run of any number of tenants.  The hash is a
  parameter, of which only the form of its results is assumed.
-/
import TokenProxy.CcrReferences
import TokenProxy.KeyStore
import Mathlib.Data.List.DropRight

namespace TokenProxy.Ccr

open TokenProxy.Execution (exec exec_cons)

/-! ## 1. References -/

def hexDigits : List Char := "0123456789abcdef".toList

/-- A result of `hexdigest`. -/
def IsDigest (sha : String) : Prop :=
  sha.toList.length = 64 ∧ ∀ c ∈ sha.toList, c ∈ hexDigits

instance (sha : String) : Decidable (IsDigest sha) :=
  decidable_of_iff (sha.toList.length = 64 ∧ sha.toList.all (· ∈ hexDigits) = true) (by
    simp only [IsDigest, List.all_eq_true, decide_eq_true_eq])

/-- `text.strip(chars)`. -/
def stripBy (p : Char → Bool) (cs : List Char) : List Char := (cs.dropWhile p).rdropWhile p

def isBracket (c : Char) : Bool := c = '[' || c = ']'

def refPrefix : List Char := "[CCR:".toList

def unwrap (candidate : List Char) : List Char :=
  if refPrefix.isPrefixOf candidate && candidate.getLast? = some ']' then
    (candidate.drop refPrefix.length).dropLast
  else if "CCR:".toList.isPrefixOf (candidate.map Char.toUpper) then candidate.drop 4
  else candidate

def shaOfText (ref : List Char) : Option (List Char) :=
  let candidate := unwrap (stripBy KeyStore.isSpace ref)
  let candidate :=
    stripBy KeyStore.isSpace (stripBy isBracket (stripBy KeyStore.isSpace candidate))
  if candidate.length ≠ 64 || !(candidate.map Char.toLower).all (· ∈ hexDigits) then none
  else some (candidate.map Char.toLower)

/-- `_sha_from_ref` -/
def shaFromRef : Json → Option String
  | .str ref => (shaOfText ref.toList).map String.ofList
  | _ => none

/-- Whitespace and brackets around 64 hexadecimal digits, of either case. -/
def Wrapped (cs sha : List Char) : Prop :=
  ∃ lead digits trail : List Char, cs = lead ++ digits ++ trail ∧
    (∀ c ∈ lead ++ trail, (KeyStore.isSpace c || isBracket c) = true) ∧
    digits.length = 64 ∧ digits.map Char.toLower = sha ∧ ∀ c ∈ sha, c ∈ hexDigits

/-- What counts as a reference to the block of a hash: `[CCR:…]`, `CCR:…` in any case, or the
    hash by itself, each with whitespace around. -/
inductive Refers : List Char → List Char → Prop where
  | bracketed {before after core sha : List Char} (hspace : (before ++ after).all KeyStore.isSpace)
      (hcore : Wrapped core sha) : Refers (before ++ ("[CCR:".toList ++ core ++ [']']) ++ after) sha
  | marked {before after marker core sha : List Char}
      (hspace : (before ++ after).all KeyStore.isSpace)
      (hmarker : marker.map Char.toUpper = "CCR:".toList) (hcore : Wrapped core sha) :
      Refers (before ++ (marker ++ core) ++ after) sha
  | bare {core sha : List Char} (hcore : Wrapped core sha) : Refers core sha

theorem Refers.wrapped {ref sha : List Char} (h : Refers ref sha) : ∃ core, Wrapped core sha := by
  cases h with
  | bracketed hspace hcore => exact ⟨_, hcore⟩
  | marked hspace hmarker hcore => exact ⟨_, hcore⟩
  | bare hcore => exact ⟨_, hcore⟩

theorem stripBy_spec (p : Char → Bool) (cs : List Char) :
    ∃ lead trail, cs = lead ++ stripBy p cs ++ trail ∧ ∀ c ∈ lead ++ trail, p c = true := by
  refine ⟨cs.takeWhile p, (cs.dropWhile p).rtakeWhile p, ?_, ?_⟩
  · rw [stripBy, List.append_assoc, List.rdropWhile_append_rtakeWhile,
      List.takeWhile_append_dropWhile]
  · intro c hc
    rcases List.mem_append.mp hc with hc | hc
    · exact List.mem_takeWhile_imp hc
    · exact List.mem_rtakeWhile_imp hc

theorem stripBy_eq_self {p : Char → Bool} {cs : List Char} (h : ∀ c ∈ cs, p c = false) :
    stripBy p cs = cs := by
  have hdrop : cs.dropWhile p = cs := by
    cases cs with
    | nil => rfl
    | cons c cs => simp [h c List.mem_cons_self]
  rw [stripBy, hdrop, List.rdropWhile_eq_self_iff]
  intro hne hlast
  rw [h _ (List.getLast_mem hne)] at hlast
  cases hlast

theorem head_stripBy {p : Char → Bool} {text rest : List Char} {c : Char}
    (h : stripBy p text = c :: rest) : p c = false := by
  obtain ⟨behind, hprefix⟩ := List.rdropWhile_prefix p (text.dropWhile p)
  rw [← stripBy, h, List.cons_append] at hprefix
  have hhead := List.head?_dropWhile_not p text
  rw [← hprefix] at hhead
  exact hhead

theorem last_stripBy {p : Char → Bool} {text : List Char} (h : stripBy p text ≠ []) :
    p ((stripBy p text).getLast h) = false := by
  have hlast := List.rdropWhile_last_not p (text.dropWhile p) h
  rw [Bool.not_eq_true] at hlast
  exact hlast

/-- Nothing is stripped from a text that has nothing to strip at either end. -/
theorem stripBy_eq_self_iff {p : Char → Bool} {text : List Char} :
    stripBy p text = text ↔
      (∀ c ∈ text.head?, p c = false) ∧ ∀ c ∈ text.getLast?, p c = false := by
  constructor
  · intro hself
    constructor
    · intro c hc
      obtain ⟨rest, htext⟩ := List.head?_eq_some_iff.mp hc
      exact head_stripBy (hself.trans htext)
    · intro c hc
      have hne : stripBy p text ≠ [] := by
        rw [hself]
        rintro rfl
        cases hc
      have hgiven : (stripBy p text).getLast? = some c := by
        rw [hself]
        exact hc
      rw [Option.some.inj (hgiven.symm.trans (List.getLast?_eq_some_getLast hne))]
      exact last_stripBy hne
  · rintro ⟨hfirst, hlast⟩
    have hdrop : text.dropWhile p = text := by
      cases text with
      | nil => rfl
      | cons c rest => rw [List.dropWhile_cons_of_neg (by simp [hfirst c rfl])]
    rw [stripBy, hdrop, List.rdropWhile_eq_self_iff]
    intro hne
    rw [hlast _ (List.getLast?_eq_some_getLast hne)]
    exact Bool.false_ne_true

theorem unwrap_cases (cs : List Char) :
    (∃ core, cs = refPrefix ++ core ++ [']'] ∧ unwrap cs = core) ∨
      (∃ marker core, marker.map Char.toUpper = "CCR:".toList ∧ cs = marker ++ core ∧
        unwrap cs = core) ∨
      unwrap cs = cs := by
  unfold unwrap
  split
  · rename_i h
    obtain ⟨hmarker, hlast⟩ := Bool.and_eq_true_iff.mp h
    obtain ⟨rest, rfl⟩ := List.isPrefixOf_iff_prefix.mp hmarker
    have hlast := of_decide_eq_true hlast
    left
    refine ⟨rest.dropLast, ?_, by rw [List.drop_left]⟩
    rcases List.eq_nil_or_concat rest with rfl | ⟨init, last, rfl⟩
    · exact absurd hlast (by decide)
    · rw [List.concat_eq_append, ← List.append_assoc, List.getLast?_append] at hlast
      have hbracket : last = ']' := by simpa using hlast
      rw [List.concat_eq_append, List.dropLast_concat, hbracket, List.append_assoc]
  · split
    · rename_i h
      right
      left
      refine ⟨cs.take 4, cs.drop 4, ?_, (List.take_append_drop 4 cs).symm, rfl⟩
      obtain ⟨rest, hrest⟩ := List.isPrefixOf_iff_prefix.mp h
      rw [List.map_take, ← hrest]
      exact @List.take_left _ "CCR:".toList rest
    · exact Or.inr (Or.inr rfl)

theorem Wrapped.extend {core sha lead trail : List Char} (h : Wrapped core sha)
    (hall : ∀ c ∈ lead ++ trail, (KeyStore.isSpace c || isBracket c) = true) :
    Wrapped (lead ++ core ++ trail) sha := by
  obtain ⟨before, digits, after, rfl, haround, hrest⟩ := h
  refine ⟨lead ++ before, digits, after ++ trail, by simp only [List.append_assoc], ?_, hrest⟩
  intro c hc
  simp only [List.mem_append] at hc
  rcases hc with (hc | hc) | hc | hc
  · exact hall c (List.mem_append_left _ hc)
  · exact haround c (List.mem_append_left _ hc)
  · exact haround c (List.mem_append_right _ hc)
  · exact hall c (List.mem_append_right _ hc)

theorem Wrapped.of_stripBy {p : Char → Bool} {cs sha : List Char}
    (hp : ∀ c, p c = true → (KeyStore.isSpace c || isBracket c) = true)
    (h : Wrapped (stripBy p cs) sha) : Wrapped cs sha := by
  obtain ⟨lead, trail, hcs, hall⟩ := stripBy_spec p cs
  rw [hcs]
  exact h.extend fun c hc => hp c (hall c hc)

theorem wrapped_digits {digits sha : List Char}
    (h : (if digits.length ≠ 64 || !(digits.map Char.toLower).all (· ∈ hexDigits) then none
      else some (digits.map Char.toLower)) = some sha) : Wrapped digits sha := by
  split at h
  · cases h
  · rename_i hdigits
    rw [Bool.or_eq_true, not_or, decide_eq_true_eq, Bool.not_eq_true', ne_eq, not_not,
      Bool.not_eq_false] at hdigits
    rw [← Option.some.inj h]
    refine ⟨[], digits, [], (List.append_nil _).symm, ?_, hdigits.1, rfl, ?_⟩
    · intro c hc
      cases hc
    · intro c hc
      exact of_decide_eq_true (List.all_eq_true.mp hdigits.2 c hc)

/-- **What is read as a reference is one.** -/
theorem refers_of_shaOfText {ref sha : List Char} (h : shaOfText ref = some sha) :
    Refers ref sha := by
  have hspace : ∀ c, KeyStore.isSpace c = true →
      (KeyStore.isSpace c || isBracket c) = true := fun c hc => by rw [hc, Bool.true_or]
  have hbracket : ∀ c, isBracket c = true →
      (KeyStore.isSpace c || isBracket c) = true := fun c hc => by rw [hc, Bool.or_true]
  have hwrapped : Wrapped (unwrap (stripBy KeyStore.isSpace ref)) sha := by
    refine .of_stripBy hspace (.of_stripBy hbracket (.of_stripBy hspace ?_))
    rw [shaOfText] at h
    exact wrapped_digits h
  obtain ⟨before, after, href, haround⟩ := stripBy_spec KeyStore.isSpace ref
  have haround' : (before ++ after).all KeyStore.isSpace = true := List.all_eq_true.mpr haround
  rcases unwrap_cases (stripBy KeyStore.isSpace ref) with
    ⟨core, hcs, hcore⟩ | ⟨marker, core, hmarker, hcs, hcore⟩ | hcs
  · rw [href, hcs]
    exact .bracketed haround' (hcore ▸ hwrapped)
  · rw [href, hcs]
    exact .marked haround' hmarker (hcore ▸ hwrapped)
  · rw [hcs] at hwrapped
    exact .bare (hwrapped.of_stripBy hspace)

theorem hexDigits_plain {c : Char} (h : c ∈ hexDigits) :
    KeyStore.isSpace c = false ∧ isBracket c = false ∧ c.toLower = c := by
  have hall : hexDigits.all (fun c => !KeyStore.isSpace c && (!isBracket c &&
      decide (c.toLower = c))) = true := by decide
  simpa only [Bool.and_eq_true, Bool.not_eq_true', decide_eq_true_eq] using
    List.all_eq_true.mp hall c h

theorem unwrap_bracketed (core : List Char) : unwrap (refPrefix ++ core ++ [']']) = core := by
  have hmarker : refPrefix.isPrefixOf (refPrefix ++ core ++ [']']) = true :=
    List.isPrefixOf_iff_prefix.mpr ⟨core ++ [']'], by rw [List.append_assoc]⟩
  have hlast : (refPrefix ++ core ++ [']']).getLast? = some ']' := List.getLast?_concat
  rw [unwrap, if_pos (by rw [hmarker, hlast]; rfl), List.append_assoc, List.drop_left,
    List.dropLast_concat]

/-- **A reference is read back** as the hash that it was made of. -/
theorem shaFromRef_makeRef {sha : String} (h : IsDigest sha) :
    shaFromRef (.str (makeRef sha)) = some sha := by
  obtain ⟨hlength, hdigits⟩ := h
  have hlist : (makeRef sha).toList = refPrefix ++ sha.toList ++ [']'] := by
    rw [makeRef, String.toList_append, String.toList_append]
    rfl
  have hspaces : ∀ c ∈ sha.toList, KeyStore.isSpace c = false :=
    fun c hc => (hexDigits_plain (hdigits c hc)).1
  have hbrackets : ∀ c ∈ sha.toList, isBracket c = false :=
    fun c hc => (hexDigits_plain (hdigits c hc)).2.1
  have hlower : sha.toList.map Char.toLower = sha.toList :=
    (List.map_congr_left fun c hc => (hexDigits_plain (hdigits c hc)).2.2).trans (List.map_id _)
  have hwhole : ∀ c ∈ refPrefix ++ sha.toList ++ [']'], KeyStore.isSpace c = false := by
    intro c hc
    rcases List.mem_append.mp hc with hc | hc
    · rcases List.mem_append.mp hc with hc | hc
      · have hmarker : refPrefix.all (fun c => !KeyStore.isSpace c) = true := by decide
        simpa using List.all_eq_true.mp hmarker c hc
      · exact hspaces c hc
    · rw [List.mem_singleton.mp hc]
      rfl
  have hall : sha.toList.all (fun c => decide (c ∈ hexDigits)) = true :=
    List.all_eq_true.mpr fun c hc => decide_eq_true (hdigits c hc)
  have hread : shaOfText (makeRef sha).toList = some sha.toList := by
    rw [shaOfText, hlist, stripBy_eq_self hwhole, unwrap_bracketed, stripBy_eq_self hspaces,
      stripBy_eq_self hbrackets, stripBy_eq_self hspaces]
    simp only [hlower, hall, hlength, ne_eq, not_true_eq_false, decide_false, Bool.not_true,
      Bool.or_self, Bool.false_eq_true, if_false]
  rw [shaFromRef, hread, Option.map_some, String.ofList_toList]

/-! ## 2. The tools -/

variable (sha256Hex : String → String) (estimateTokens : String → String → Nat)
  (repr : Json → String)

def error (message : String) : Json := .obj [("error", .str message)]

/-- `len(value)` -/
def pyLen : Json → Option Nat
  | .str text => some text.length
  | .arr items => some items.length
  | .obj fields => some fields.length
  | _ => none

/-- `headroom_compress` in `dispatch_mcp_tool`; no answer where Python raises. -/
def headroomCompress (proc : Nat) (redisPrefix : String) (arguments : Json)
    (ttl maxStoreChars : Int) (reply : SetReply) (s : State) : Option Json × State :=
  let text := arguments.getD "text" (.str "")
  if !text.truthy then (some (error "text is required"), s)
  else
    match pyLen text with
    | none => (none, s)
    | some length =>
      if maxStoreChars < length then
        (some (error s!"text exceeds {maxStoreChars} characters"), s)
      else
        match text with
        | .str text =>
          let sha := sha256Hex text
          let (stored, s) :=
            match arguments.getD "ttl" (.int ttl) with
            | .int callTtl => store proc (storeKey redisPrefix sha) text callTtl reply s
            -- the client refuses an expiry that is no integer
            | _ => (false, s)
          if stored then
            (some (.obj [("ref", .str (makeRef sha)), ("sha256", .str sha),
              ("original_len", .int text.length)]), s)
          else (some (error "CCR store unavailable"), s)
        | _ => (none, s)

/-- `headroom_retrieve` in `dispatch_mcp_tool`, less its counters. -/
def headroomRetrieve (proc : Nat) (redisPrefix : String) (arguments : Json) (answers : Bool)
    (s : State) : Json × State :=
  let ref := arguments.getD "ref" (.str "")
  match shaFromRef ref with
  | none => (error ("Invalid CCR reference: " ++ repr ref), s)
  | some sha =>
    match retrieveStored proc (storeKey redisPrefix sha) answers s with
    | (none, s) => (error "Reference not found", s)
    | (some value, s) => (.obj [("text", .str value)], s)

/-- The text that an answer of `headroom_retrieve` holds. -/
def textOf (answer : Json) : Option Json := answer.get? "text"

/-! ## 3. Tenants -/

variable {T : Type} (prefixOf : T → String)

/-- What can happen, each request with the tenant that makes it. -/
inductive Act (T : Type) where
  | pass (seconds : ℚ)
  | evicted (key : String)
  | restarted (proc : Nat)
  | message (tenant : T) (r : Request) (message : Json) (answers : Bool) (reply : SetReply)
  | compress (tenant : T) (proc : Nat) (arguments : Json) (ttl maxStoreChars : Int)
    (reply : SetReply)
  | retrieve (tenant : T) (proc : Nat) (arguments : Json) (answers : Bool)

/-- A request under its tenant's own prefix. -/
def own (tenant : T) (r : Request) : Request := { r with redisPrefix := prefixOf tenant }

def act (s : State) : Act T → Option State
  | .pass seconds => if 0 ≤ seconds then some { s with now := s.now + seconds } else none
  | .evicted key => some { s with durable := Function.update s.durable key none }
  | .restarted proc => some { s with locals := Function.update s.locals proc ∅ }
  | .message tenant r message answers reply =>
    some (processMessage sha256Hex estimateTokens (own prefixOf tenant r) message answers reply s).2
  | .compress tenant proc arguments ttl maxStoreChars reply =>
    some (headroomCompress sha256Hex proc (prefixOf tenant) arguments ttl maxStoreChars reply s).2
  | .retrieve tenant proc arguments answers =>
    some (headroomRetrieve repr proc (prefixOf tenant) arguments answers s).2

/-- In this step the tenant hands a text to `_store`, and it reaches Redis. -/
def Stores (s : State) (tenant : T) (text : String) : Act T → Prop
  | .message caller r message answers reply =>
    caller = tenant ∧ offered r message = some text ∧
      r.minTokens ≤ estimateTokens text r.model ∧ reply ≠ .refused ∧
        ¬ Found s r.proc (storeKey (prefixOf tenant) (sha256Hex text)) answers
  | .compress caller _ arguments ttl maxStoreChars reply =>
    caller = tenant ∧ arguments.getD "text" (.str "") = .str text ∧ text ≠ "" ∧
      text.length ≤ maxStoreChars ∧ reply ≠ .refused ∧
        ∃ callTtl, arguments.getD "ttl" (.int ttl) = .int callTtl
  | _ => False

/-- In one of the run's steps the tenant stores the text. -/
def StoredIn (tenant : T) (text : String) : State → List (Act T) → Prop
  | _, [] => False
  | s, a :: as =>
    Stores sha256Hex estimateTokens prefixOf s tenant text a ∨
      ∃ s', act sha256Hex estimateTokens repr prefixOf s a = some s' ∧ StoredIn tenant text s' as

/-! ## 4. What a key can hold -/

variable {sha256Hex : String → String} {estimateTokens : String → String → Nat}
  {repr : Json → String} {prefixOf : T → String}

/-- Redis, or the memory of a process, has the value under the key. -/
def Has (s : State) (key value : String) : Prop :=
  (∃ e, s.durable key = some e ∧ e.value = value) ∨
    ∃ proc expiresAt, (s.locals proc).get? key = some (expiresAt, value)

theorem evict_get? (n : Nat) {store : LocalStore} {key : String} {e : ℚ × String}
    (h : (evict n store).get? key = some e) : store.get? key = some e := by
  induction n generalizing store with
  | zero => exact h
  | succ n ih =>
    rw [evict] at h
    split at h
    · split at h
      · have herase := ih h
        rw [Dict.get?_erase] at herase
        split at herase
        · cases herase
        · exact herase
      · exact h
    · exact h

theorem localPut_get? {now : ℚ} {store : LocalStore} {key value other : String} {ttl : Int}
    {e : ℚ × String} (h : (localPut now store key value ttl).get? other = some e) :
    (other = key ∧ e.2 = value) ∨ store.get? other = some e := by
  rw [localPut, Dict.get?_set] at h
  split at h
  · rename_i heq
    cases h
    exact Or.inl ⟨heq, rfl⟩
  · have hpurged := evict_get? _ h
    rw [Dict.get?_filter, Option.filter_eq_some_iff] at hpurged
    exact Or.inr hpurged.1

theorem localGet_get? {now : ℚ} {store : LocalStore} {key other : String} {e : ℚ × String}
    (h : (localGet now store key).2.get? other = some e) : store.get? other = some e := by
  rw [localGet] at h
  split at h
  · exact h
  · split at h
    · rw [Dict.get?_erase] at h
      split at h
      · cases h
      · exact h
    · exact h

theorem localGet_value {now : ℚ} {store : LocalStore} {key value : String}
    (h : (localGet now store key).1 = some value) :
    ∃ expiresAt, store.get? key = some (expiresAt, value) := by
  rw [localGet] at h
  split at h
  · cases h
  · rename_i expiresAt held hget
    split at h
    · cases h
    · cases h
      exact ⟨expiresAt, hget⟩

theorem has_keep {s : State} {proc : Nat} {key text other value : String} {ttl : Int}
    (h : Has (s.keep proc key text ttl) other value) :
    (other = key ∧ value = text) ∨ Has s other value := by
  rcases h with hdurable | ⟨p, expiresAt, hget⟩
  · exact Or.inr (Or.inl hdurable)
  · simp only [State.keep, Function.update_apply] at hget
    split at hget
    · rcases localPut_get? hget with ⟨hkey, hvalue⟩ | hold
      · exact Or.inl ⟨hkey, hvalue⟩
      · exact Or.inr (Or.inr ⟨proc, expiresAt, hold⟩)
    · exact Or.inr (Or.inr ⟨p, expiresAt, hget⟩)

theorem has_write {s : State} {key text other value : String} {ttl : Int}
    (h : Has (s.write key text ttl) other value) :
    (other = key ∧ value = text) ∨ Has s other value := by
  rcases h with ⟨e, hdurable, hvalue⟩ | hlocal
  · simp only [State.write, Function.update_apply] at hdurable
    split at hdurable
    · rename_i heq
      cases hdurable
      exact Or.inl ⟨heq, hvalue.symm⟩
    · exact Or.inr (Or.inl ⟨e, hdurable, hvalue⟩)
  · exact Or.inr (Or.inr hlocal)

theorem has_store {s : State} {proc : Nat} {key text other value : String} {ttl : Int}
    {reply : SetReply} (h : Has (store proc key text ttl reply s).2 other value) :
    (other = key ∧ value = text ∧ reply ≠ .refused) ∨ Has s other value := by
  cases reply with
  | refused => exact Or.inr h
  | lost =>
    rcases has_write h with ⟨hkey, hvalue⟩ | hold
    · exact Or.inl ⟨hkey, hvalue, by decide⟩
    · exact Or.inr hold
  | taken =>
    rcases has_keep h with ⟨hkey, hvalue⟩ | hwritten
    · exact Or.inl ⟨hkey, hvalue, by decide⟩
    · rcases has_write hwritten with ⟨hkey, hvalue⟩ | hold
      · exact Or.inl ⟨hkey, hvalue, by decide⟩
      · exact Or.inr hold

/-- **A lookup** finds what the key held, and leaves nothing that was not there. -/
theorem retrieveStored_spec (proc : Nat) (key : String) (answers : Bool) (s : State) :
    (∀ value, (retrieveStored proc key answers s).1 = some value → Has s key value) ∧
      ∀ other value, Has (retrieveStored proc key answers s).2 other value → Has s other value := by
  have hread : ∀ other value, Has { s with
      locals := Function.update s.locals proc (localGet s.now (s.locals proc) key).2 } other value →
        Has s other value := by
    intro other value h
    rcases h with hdurable | ⟨p, expiresAt, hget⟩
    · exact Or.inl hdurable
    · simp only [Function.update_apply] at hget
      split at hget
      · exact Or.inr ⟨proc, expiresAt, localGet_get? hget⟩
      · exact Or.inr ⟨p, expiresAt, hget⟩
  have hcached := @localGet_value s.now (s.locals proc) key
  rw [retrieveStored]
  generalize localGet s.now (s.locals proc) key = looked at hread hcached ⊢
  obtain ⟨cached, store⟩ := looked
  cases cached with
  | some value =>
    refine ⟨?_, hread⟩
    intro found hfound
    obtain ⟨expiresAt, hget⟩ := hcached hfound
    exact Or.inr ⟨proc, expiresAt, hget⟩
  | none =>
    simp only
    split
    · rename_i entry hentry
      have hheld : s.durable key = some entry := by
        split at hentry
        · exact (State.held_eq_some_iff.mp hentry).1
        · cases hentry
      refine ⟨?_, ?_⟩
      · intro found hfound
        cases hfound
        exact Or.inl ⟨entry, hheld, rfl⟩
      · intro other value h
        rcases has_keep h with ⟨hkey, hvalue⟩ | hold
        · rw [hkey, hvalue]
          exact Or.inl ⟨entry, hheld, rfl⟩
        · exact hread other value hold
    · refine ⟨?_, hread⟩
      intro found hfound
      cases hfound

theorem has_replaceContent {r : Request} {content : String} {answers : Bool} {reply : SetReply}
    {s : State} {key value : String}
    (h : Has (replaceContent sha256Hex estimateTokens r content answers reply s).2 key value) :
    Has s key value ∨
      (key = storeKey r.redisPrefix (sha256Hex content) ∧ value = content ∧
        r.minTokens ≤ estimateTokens content r.model ∧ reply ≠ .refused ∧
        ¬ Found s r.proc (storeKey r.redisPrefix (sha256Hex content)) answers) := by
  have hlookup := (retrieveStored_spec r.proc (storeKey r.redisPrefix (sha256Hex content))
    answers s).2
  have hfound := retrieveStored_isSome r.proc (storeKey r.redisPrefix (sha256Hex content)) answers s
  simp only [replaceContent] at h
  by_cases hsmall : estimateTokens content r.model < r.minTokens
  · rw [if_pos hsmall] at h
    exact Or.inl h
  · rw [if_neg hsmall] at h
    generalize retrieveStored r.proc (storeKey r.redisPrefix (sha256Hex content)) answers s =
      looked at h hlookup hfound
    obtain ⟨existing, s'⟩ := looked
    -- what a reference adds to the state is neither in Redis nor in a process
    by_cases hexisting : existing.isSome = true
    · simp only [hexisting, if_true] at h
      left
      apply hlookup key value
      split at h
      · exact h
      · exact h
    · simp only [hexisting, Bool.false_eq_true, if_false] at h
      have hafter : Has (store r.proc (storeKey r.redisPrefix (sha256Hex content)) content r.ttl
          reply s').2 key value := by
        split at h
        · exact h
        · exact h
      rcases has_store hafter with ⟨hkey, hvalue, hreply⟩ | hold
      · right
        exact ⟨hkey, hvalue, Nat.not_lt.mp hsmall, hreply, fun hf => hexisting (hfound.mpr hf)⟩
      · exact Or.inl (hlookup key value hold)

theorem has_headroomCompress {proc : Nat} {redisPrefix : String} {arguments : Json}
    {ttl maxStoreChars : Int} {reply : SetReply} {s : State} {key value : String}
    (h : Has (headroomCompress sha256Hex proc redisPrefix arguments ttl maxStoreChars reply s).2
      key value) :
    Has s key value ∨
      (key = storeKey redisPrefix (sha256Hex value) ∧
        arguments.getD "text" (.str "") = .str value ∧ value ≠ "" ∧
        value.length ≤ maxStoreChars ∧ reply ≠ .refused ∧
        ∃ callTtl, arguments.getD "ttl" (.int ttl) = .int callTtl) := by
  simp only [headroomCompress] at h
  cases htext : arguments.getD "text" (.str "") with
  | str text =>
    rw [htext] at h
    simp only [Json.truthy, pyLen] at h
    by_cases hempty : text = ""
    · rw [if_pos (by simp [hempty])] at h
      exact Or.inl h
    · rw [if_neg (by simp [hempty])] at h
      by_cases hlong : maxStoreChars < (text.length : Int)
      · rw [if_pos hlong] at h
        exact Or.inl h
      · rw [if_neg hlong] at h
        cases httl : arguments.getD "ttl" (.int ttl) with
        | int callTtl =>
          simp only [httl] at h
          have hafter : Has (store proc (storeKey redisPrefix (sha256Hex text)) text callTtl
              reply s).2 key value := by
            split at h
            · exact h
            · exact h
          rcases has_store hafter with ⟨hkey, rfl, hreply⟩ | hold
          · exact Or.inr ⟨hkey, rfl, hempty, Int.not_lt.mp hlong, hreply, callTtl, rfl⟩
          · exact Or.inl hold
        | null | bool | float | str | arr | obj =>
          simp only [httl] at h
          exact Or.inl h
  | null | bool | int | float | arr | obj =>
    left
    rw [htext] at h
    simp only [pyLen] at h
    split at h
    · exact h
    · first
        | exact h
        | split at h
          · exact h
          · exact h

theorem headroomRetrieve_spec (proc : Nat) (redisPrefix : String) (arguments : Json)
    (answers : Bool) (s : State) :
    (∀ text, textOf (headroomRetrieve repr proc redisPrefix arguments answers s).1 = some text →
      ∃ sha value, shaFromRef (arguments.getD "ref" (.str "")) = some sha ∧ text = .str value ∧
        Has s (storeKey redisPrefix sha) value) ∧
      ∀ key value, Has (headroomRetrieve repr proc redisPrefix arguments answers s).2 key value →
        Has s key value := by
  rw [headroomRetrieve]
  cases hsha : shaFromRef (arguments.getD "ref" (.str "")) with
  | none =>
    refine ⟨?_, fun key value h => h⟩
    intro text htext
    cases htext
  | some sha =>
    obtain ⟨hvalue, hstate⟩ := retrieveStored_spec proc (storeKey redisPrefix sha) answers s
    simp only
    split
    · rename_i s' hlook
      rw [hlook] at hstate
      refine ⟨?_, hstate⟩
      intro text htext
      cases htext
    · rename_i value s' hlook
      rw [hlook] at hstate hvalue
      refine ⟨?_, hstate⟩
      intro text htext
      cases htext
      exact ⟨sha, value, rfl, rfl, hvalue value rfl⟩

/-- **One step** leaves under a key only what was there, or a text that a tenant stores in this
    step, under that tenant's prefix and the text's hash. -/
theorem has_act {s s' : State} {a : Act T}
    (hact : act sha256Hex estimateTokens repr prefixOf s a = some s') {key value : String}
    (h : Has s' key value) :
    Has s key value ∨
      ∃ tenant, Stores sha256Hex estimateTokens prefixOf s tenant value a ∧
        key = storeKey (prefixOf tenant) (sha256Hex value) := by
  cases a with
  | pass seconds =>
    rw [act] at hact
    split at hact
    · cases hact
      exact Or.inl h
    · cases hact
  | evicted gone =>
    cases hact
    left
    rcases h with ⟨e, hdurable, hvalue⟩ | hlocal
    · simp only [Function.update_apply] at hdurable
      split at hdurable
      · cases hdurable
      · exact Or.inl ⟨e, hdurable, hvalue⟩
    · exact Or.inr hlocal
  | restarted proc =>
    cases hact
    left
    rcases h with hdurable | ⟨p, expiresAt, hget⟩
    · exact Or.inl hdurable
    · simp only [Function.update_apply] at hget
      split at hget
      · cases hget
      · exact Or.inr ⟨p, expiresAt, hget⟩
  | message tenant r message answers reply =>
    cases hact
    rw [processMessage] at h
    cases hoffered : offered (own prefixOf tenant r) message with
    | none =>
      rw [hoffered] at h
      exact Or.inl h
    | some content =>
      rw [hoffered] at h
      rcases has_replaceContent h with hold | ⟨hkey, rfl, hsize, hreply, hfound⟩
      · exact Or.inl hold
      · exact Or.inr ⟨tenant, ⟨rfl, hoffered, hsize, hreply, hfound⟩, hkey⟩
  | compress tenant proc arguments ttl maxStoreChars reply =>
    cases hact
    rcases has_headroomCompress h with hold | ⟨hkey, htext⟩
    · exact Or.inl hold
    · exact Or.inr ⟨tenant, ⟨rfl, htext⟩, hkey⟩
  | retrieve tenant proc arguments answers =>
    cases hact
    exact Or.inl ((headroomRetrieve_spec proc (prefixOf tenant) arguments answers s).2 key value h)

/-! ## 5. Runs -/

theorem has_exec {s s' : State} {acts : List (Act T)}
    (hrun : exec (act sha256Hex estimateTokens repr prefixOf) s acts = some s')
    {key value : String} (h : Has s' key value) :
    Has s key value ∨
      ∃ tenant, StoredIn sha256Hex estimateTokens repr prefixOf tenant value s acts ∧
        key = storeKey (prefixOf tenant) (sha256Hex value) := by
  induction acts generalizing s with
  | nil =>
    cases hrun
    exact Or.inl h
  | cons a acts ih =>
    rw [exec_cons] at hrun
    obtain ⟨mid, hact, hrest⟩ := Option.bind_eq_some_iff.mp hrun
    rcases ih hrest with hmid | ⟨tenant, hstored, hkey⟩
    · rcases has_act hact hmid with hold | ⟨tenant, hstores, hkey⟩
      · exact Or.inl hold
      · exact Or.inr ⟨tenant, Or.inl hstores, hkey⟩
    · exact Or.inr ⟨tenant, Or.inr ⟨mid, hact, hstored⟩, hkey⟩

theorem not_has_start (now : ℚ) (key value : String) : ¬ Has (start now) key value := by
  rintro (⟨e, hdurable, -⟩ | ⟨proc, expiresAt, hget⟩)
  · cases hdurable
  · cases hget

/-- A key tells whose it is, since hashes are of one length. -/
theorem owner_of_storeKey {redisPrefix redisPrefix' sha sha' : String}
    (hlength : sha.toList.length = sha'.toList.length)
    (h : storeKey redisPrefix sha = storeKey redisPrefix' sha') : redisPrefix = redisPrefix' := by
  have hlist := congrArg String.toList h
  simp only [storeKey, String.toList_append] at hlist
  obtain ⟨hleft, -⟩ := List.append_inj' hlist hlength
  obtain ⟨howner, -⟩ := List.append_inj' hleft rfl
  exact String.toList_inj.mp howner

theorem length_of_shaFromRef {ref : Json} {sha : String} (h : shaFromRef ref = some sha) :
    sha.toList.length = 64 := by
  cases ref with
  | str text =>
    rw [shaFromRef, Option.map_eq_some_iff] at h
    obtain ⟨cs, hcs, hsha⟩ := h
    have hlist : sha.toList = cs := by rw [← hsha, String.toList_ofList]
    obtain ⟨core, lead, digits, trail, -, -, hlength, hlower, -⟩ :=
      (refers_of_shaOfText hcs).wrapped
    rw [hlist, ← hlower, List.length_map, hlength]
  | null | bool | int | float | arr | obj => simp [shaFromRef] at h

/-- **References do not cross tenants.**  After any run, whatever a tenant is given for a
    reference it has stored itself; a reference made of a hash is read as that hash; and what
    is no reference to any hash is answered with no text. -/
theorem retrieved_is_own (sha256Hex : String → String) (estimateTokens : String → String → Nat)
    (repr : Json → String) (prefixOf : T → String) (hinj : Function.Injective prefixOf)
    (hdigest : ∀ text, IsDigest (sha256Hex text)) :
    (∀ (now : ℚ) (acts : List (Act T)) (s : State),
      exec (act sha256Hex estimateTokens repr prefixOf) (start now) acts = some s →
      ∀ (tenant : T) (proc : Nat) (arguments : Json) (answers : Bool) (text : Json),
        textOf (headroomRetrieve repr proc (prefixOf tenant) arguments answers s).1 = some text →
          ∃ value, text = .str value ∧
            StoredIn sha256Hex estimateTokens repr prefixOf tenant value (start now) acts) ∧
      (∀ sha, IsDigest sha → shaFromRef (.str (makeRef sha)) = some sha) ∧
      ∀ arguments : Json,
        (∀ text sha, arguments.getD "ref" (.str "") = .str text → ¬ Refers text.toList sha) →
        shaFromRef (arguments.getD "ref" (.str "")) = none ∧
          ∀ (proc : Nat) (redisPrefix : String) (answers : Bool) (s : State),
            textOf (headroomRetrieve repr proc redisPrefix arguments answers s).1 = none := by
  refine ⟨?_, fun sha hsha => shaFromRef_makeRef hsha, ?_⟩
  · intro now acts s hrun tenant proc arguments answers text htext
    obtain ⟨sha, value, hsha, rfl, hhas⟩ :=
      (headroomRetrieve_spec proc (prefixOf tenant) arguments answers s).1 text htext
    rcases has_exec hrun hhas with hstart | ⟨owner, hstored, hkey⟩
    · exact absurd hstart (not_has_start now _ _)
    · have hlength : sha.toList.length = (sha256Hex value).toList.length :=
        (length_of_shaFromRef hsha).trans (hdigest value).1.symm
      have howner : tenant = owner := hinj (owner_of_storeKey hlength hkey)
      exact ⟨value, rfl, howner ▸ hstored⟩
  · intro arguments hnot
    have hnone : shaFromRef (arguments.getD "ref" (.str "")) = none := by
      cases href : arguments.getD "ref" (.str "") with
      | str text =>
        rw [shaFromRef, Option.map_eq_none_iff, Option.eq_none_iff_forall_ne_some]
        intro sha hsha
        exact hnot text sha href (refers_of_shaOfText hsha)
      | null | bool | int | float | arr | obj => rfl
    refine ⟨hnone, ?_⟩
    intro proc redisPrefix answers s
    rw [headroomRetrieve, hnone]
    rfl

def figures : String := "the quarterly figures"

/-- SHA-256 of one text; any other text gets a hash of zeros. -/
def figuresHash (text : String) : String :=
  if text = figures then
    "e83b3d2693818d6fa0efd8a56d99c495f834cb3b5bf9a6ea952f2cd1e55610a0"
  else .ofList (List.replicate 64 '0')

theorem isDigest_ofList {l : List Char}
    (h : l.length = 64 ∧ l.all (· ∈ hexDigits) = true) : IsDigest (.ofList l) := by
  rw [IsDigest, String.toList_ofList]
  exact ⟨h.1, fun c hc => of_decide_eq_true (List.all_eq_true.mp h.2 c hc)⟩

theorem isDigest_figuresHash (text : String) : IsDigest (figuresHash text) := by
  rw [figuresHash]
  split
  · exact isDigest_ofList (by decide +kernel)
  · exact isDigest_ofList (by decide +kernel)

/-- Acme stores its figures, and Globex asks for them by the reference that Acme was given. -/
def sharedRef : List (Act Bool) :=
  [.compress true 0 (.obj [("text", .str figures)]) 86400 200000 .taken,
    .retrieve false 0 (.obj [("ref", .str (makeRef (figuresHash figures)))]) true]

def prefixOfBool (acme : Bool) : String := if acme then "t:acme:" else "t:globex:"

theorem retrieved_is_own_figures :
    (∃ s, exec (act figuresHash (fun _ _ => 300) (fun _ => "") prefixOfBool) (start 0) sharedRef =
        some s ∧
      textOf (headroomRetrieve (fun _ => "") 1 "t:acme:"
        (.obj [("ref", .str (makeRef (figuresHash figures)))]) true s).1 = some (.str figures)) ∧
    StoredIn figuresHash (fun _ _ => 300) (fun _ => "") prefixOfBool true figures (start 0)
      sharedRef := by
  have hinjective : Function.Injective prefixOfBool :=
    Bool.injective_iff.mpr (by decide)
  have hread : (exec (act figuresHash (fun _ _ => 300) (fun _ => "") prefixOfBool) (start 0)
      sharedRef).map (fun s => textOf (headroomRetrieve (fun _ => "") 1 "t:acme:"
        (.obj [("ref", .str (makeRef (figuresHash figures)))]) true s).1) =
      some (some (.str figures)) := by decide +kernel
  obtain ⟨s, hrun, htext⟩ := Option.map_eq_some_iff.mp hread
  obtain ⟨value, hvalue, hstored⟩ :=
    (retrieved_is_own figuresHash (fun _ _ => 300) (fun _ => "") prefixOfBool hinjective
      isDigest_figuresHash).1 0 sharedRef s hrun true 1 _ true _ htext
  cases hvalue
  exact ⟨⟨s, hrun, htext⟩, hstored⟩

end TokenProxy.Ccr
