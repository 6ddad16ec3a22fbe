/-
  TokenProxy/StarvationGuard.lean
  ===============================
  **The starvation guard of G06 and the reservation that it relies on** (`_caller_output_budget`
  and `_reasoning_budget_starved` of `g06_routing.py`, `reasoning_headroom_needed`,
  `reasoning_headroom_cap` and `reserve_reasoning_headroom` of `openai_adapter.py`).

  The guard lets a route pass whose budget the reservation can raise.  Both read the budget from
  two fields: the guard passes over a field that is no positive number, the reservation stops at
  the first field that is not null.  An infinity in a field that the guard reads is an error
  that it does not catch, and then it answers nothing.

  Main result: `guard_agrees_iff`, the two agree exactly when the first field that is not null
  is a positive number and, unless it is enough by itself, the ceiling can be read, or when the
  guard does not get as far as an answer.
-/
import TokenProxy.OutputHeadroom

namespace TokenProxy.Providers

/-! ## 1. The guard -/

section

variable (py : Python)

/-- The loop of `_caller_output_budget`; `none` where it raises. -/
def budgetOf (params : Params) : List String → Option (Option Int)
  | [] => some none
  | key :: keys =>
    if infinite (param params key) then none
    else
      match py.int (param params key) with
      | some n => if 0 < n then some (some n) else budgetOf params keys
      | none => budgetOf params keys

/-- `_caller_output_budget`; `none` where it raises. -/
def callerOutputBudget (params : Params) : Option (Option Int) :=
  budgetOf py params outputBudgetKeys

/-- `OpenAIAdapter.reasoning_headroom_needed`, for the effort that a request names. -/
def headroomNeeded (reasons : Bool) (config effort : Json) : Option Int :=
  if !reasons then none
  else do
    let hcfg ← headroomConfig config
    reasoningHeadroomNeeded py config
      (py.str (effort.orElse (hcfg.getD "assumed_effort" (.str "medium"))))

/-- `reasoning_headroom_cap`; `none` where it raises, too. -/
def headroomCap (reasons : Bool) (model : String) (config : Json) : Option Int :=
  if !reasons then none
  else do
    let hcfg ← headroomConfig config
    if !headroomEnabled hcfg then none else reasoningHeadroomCeiling py model hcfg

/-- `_reasoning_budget_starved`: what cannot be answered does not block a route. -/
def reasoningBudgetStarved (reasons : Bool) (params : Params) (model : String) (config : Json) :
    Option Int → Bool
  | none => false
  | some budget =>
    match headroomNeeded py reasons config (param params "reasoning_effort") with
    | none => false
    | some needed =>
      if needed = 0 then false
      else if needed ≤ budget then false
      else
        match headroomCap py reasons model config with
        | none => false
        | some cap => decide (cap < needed)

/-- The answer for a route; `none` where reading the budget raises. -/
def guardAnswer (reasons : Bool) (params : Params) (model : String) (config : Json) :
    Option Bool :=
  (callerOutputBudget py params).map (reasoningBudgetStarved py reasons params model config)

/-! ## 2. What is sent -/

/-- The parameters after `reserve_reasoning_headroom`. -/
def reservedParams (reasons : Bool) (params : Params) (model : String) (config : Json) : Params :=
  match reserveOpenai py reasons params model config (param params "reasoning_effort") with
  | none => params
  | some raised => Assoc.insert raised.param (.int raised.toBudget) params

/-- The field that carries the output budget. -/
def budgetField (params : Params) : Option String :=
  outputBudgetKeys.find? fun key => decide (param params key ≠ .null)

/-- The budget that the reservation reads there. -/
def reservationBudget (params : Params) : Option Int :=
  (budgetField params).bind fun key =>
    (py.int (param params key)).filter fun n => decide (0 < n)

/-- A budget that is sent holds what is needed. -/
def SentEnough (sent : Params) (needed : Int) : Prop :=
  ∀ key, budgetField sent = some key → ∃ n, py.int (param sent key) = some n ∧ needed ≤ n

/-- The guard and the reservation read one budget, and a route that passes is sent enough. -/
structure GuardAgrees (reasons : Bool) (params : Params) (model : String) (config : Json)
    (needed : Int) : Prop where
  reads : (callerOutputBudget py params).getD none = reservationBudget py params
  enough : guardAnswer py reasons params model config = some false →
    SentEnough py (reservedParams py reasons params model config) needed

/-- The operator's ceilings for a model can be read. -/
def CeilingReadable (model : String) (config : Json) : Prop :=
  ∃ hcfg raw, headroomConfig config = some hcfg ∧ capRaw py model hcfg = some raw ∧
    infinite raw = false

/-- The field is a positive number, and enough or one that can be raised. -/
def Raisable (params : Params) (model : String) (config : Json) (needed : Int) (key : String) :
    Prop :=
  ∃ n, py.int (param params key) = some n ∧ 0 < n ∧ (needed ≤ n ∨ CeilingReadable py model config)

/-- The field is no positive number, and there is an infinity among the two. -/
def Unanswered (params : Params) (key : String) : Prop :=
  (∀ n, py.int (param params key) = some n → n ≤ 0) ∧
    ∃ other ∈ outputBudgetKeys, infinite (param params other) = true

/-- The field is enough without being positive, and so is neither of the two. -/
def EnoughUnread (params : Params) (needed : Int) (key : String) : Prop :=
  (∃ n, py.int (param params key) = some n ∧ needed ≤ n) ∧
    ∀ other ∈ outputBudgetKeys, ∀ n, py.int (param params other) = some n → n ≤ 0

/-- What the field that carries the budget has to be. -/
def BudgetReadable (params : Params) (model : String) (config : Json) (needed : Int) : Prop :=
  ∀ key, budgetField params = some key →
    Raisable py params model config needed key ∨ Unanswered py params key ∨
      EnoughUnread py params needed key

end

/-- What is documented of `str.lower`. -/
structure LowerLaws (py : Python) : Prop where
  idem : ∀ s, py.lower (py.lower s) = py.lower s
  empty : ∀ s, py.lower s = "" ↔ s = ""

/-! ## 3. One derivation of what is needed -/

variable {py : Python}

theorem reasoningHeadroomNeeded_lower (laws : LowerLaws py) (config : Json) (effort : String) :
    reasoningHeadroomNeeded py config (py.lower effort) =
      reasoningHeadroomNeeded py config effort := by
  unfold reasoningHeadroomNeeded
  simp only [laws.empty, apply_ite py.lower, laws.idem]

theorem orElse_self (value fallback : Json) :
    (value.orElse value).orElse fallback = value.orElse fallback := by
  have hself : value.orElse value = value := ite_self _
  rw [hself]

theorem enabled_of_needed {config hcfg : Json} {effort : String} {needed : Int}
    (hconfig : headroomConfig config = some hcfg)
    (h : reasoningHeadroomNeeded py config effort = some needed) :
    headroomEnabled hcfg = true := by
  unfold reasoningHeadroomNeeded at h
  obtain ⟨hcfg', hconfig', h⟩ := Option.bind_eq_some_iff.mp h
  cases hconfig.symm.trans hconfig'
  split at h
  · cases h
  · rename_i henabled
    simpa using henabled

/-- The reservation in terms of what is needed, the cap and the budget that it reads. -/
theorem reserveOpenai_of_budget (laws : LowerLaws py) {reasons : Bool} {params : Params}
    (model : String) {config : Json} {needed : Int}
    (hneeded : headroomNeeded py reasons config (param params "reasoning_effort") = some needed)
    {key : String} (hfield : budgetField params = some key) :
    (∀ n, py.int (param params key) = some n → 0 < n → n < needed → ∀ cap,
        headroomCap py reasons model config = some cap → needed ≤ cap →
        ∃ raised,
          reserveOpenai py reasons params model config (param params "reasoning_effort") =
            some raised ∧ raised.param = key ∧ raised.toBudget = needed) ∧
      ((∀ n, py.int (param params key) = some n → n ≤ 0 ∨ needed ≤ n ∨
          headroomCap py reasons model config = none) →
        reserveOpenai py reasons params model config (param params "reasoning_effort") = none) := by
  rw [headroomNeeded] at hneeded
  split at hneeded
  · cases hneeded
  · rename_i hreasons
    obtain ⟨hcfg, hconfig, hneeded⟩ := Option.bind_eq_some_iff.mp hneeded
    have henabled := enabled_of_needed hconfig hneeded
    have hcap : headroomCap py reasons model config = reasoningHeadroomCeiling py model hcfg := by
      rw [headroomCap, if_neg hreasons, hconfig]
      simp [henabled]
    have hfind : (outputBudgetKeys.find? fun key => decide (param params key ≠ .null)) =
        some key := hfield
    rw [hcap]
    unfold reserveOpenai
    simp only [hreasons, hconfig, henabled, hfind, orElse_self, Option.bind_eq_bind,
      Option.bind_some, reasoningHeadroomNeeded_lower laws, hneeded, Bool.not_true,
      Bool.false_eq_true, if_false]
    constructor
    · intro n hn hpos hlt cap hceiling hle
      simp only [hn, hceiling, Option.bind_some, min_eq_left hle]
      rw [if_neg (Int.not_le.mpr hpos), if_neg (Int.not_le.mpr hlt),
        if_neg (Int.not_le.mpr hlt)]
      exact ⟨_, rfl, rfl, rfl⟩
    · intro hcase
      cases hn : py.int (param params key) with
      | none => rfl
      | some n =>
        rw [Option.bind_some]
        rcases hcase n hn with hpos | hle | hceiling
        · rw [if_pos hpos]
        · rw [if_pos hle, ite_self]
        · rw [hceiling, Option.bind_none, ite_self, ite_self]

/-! ## 4. The field that carries the budget -/

theorem budgetField_cases {params : Params} {key : String} (h : budgetField params = some key) :
    param params key ≠ .null ∧ (key = "max_completion_tokens" ∨
      key = "max_tokens" ∧ param params "max_completion_tokens" = .null) := by
  have hset : param params key ≠ .null := by simpa using List.find?_some h
  refine ⟨hset, ?_⟩
  rw [budgetField, outputBudgetKeys, List.find?_cons] at h
  split at h
  · exact Or.inl (Option.some.inj h).symm
  · rename_i hnull
    have hmem := List.mem_singleton.mp (List.mem_of_find?_eq_some h)
    exact Or.inr ⟨hmem, by simpa using hnull⟩

theorem budgetField_insert {params : Params} {key : String} (h : budgetField params = some key)
    (m : Int) : budgetField (Assoc.insert key (.int m) params) = some key := by
  obtain ⟨-, rfl | ⟨rfl, hnull⟩⟩ := budgetField_cases h
  · simp [budgetField, outputBudgetKeys, param]
  · have hfirst : param (Assoc.insert "max_tokens" (.int m) params) "max_completion_tokens" =
        .null := by
      rw [param, Assoc.lookup_insert_of_ne (by decide)]
      exact hnull
    rw [budgetField, outputBudgetKeys, List.find?_cons_of_neg (by simpa using hfirst)]
    simp [param]

theorem not_infinite_of_int {value : Json} {n : Int} (h : py.int value = some n) :
    infinite value = false := by
  rw [← Bool.not_eq_true]
  intro hinf
  cases (py.int_of_infinite hinf).symm.trans h

theorem budgetOf_cons_of_null {params : Params} {key : String} (keys : List String)
    (hnull : param params key = .null) : budgetOf py params (key :: keys) =
      budgetOf py params keys := by
  rw [budgetOf, hnull]
  rfl

theorem budgetOf_cons_of_pos {params : Params} {key : String} (keys : List String) {n : Int}
    (hn : py.int (param params key) = some n) (hpos : 0 < n) :
    budgetOf py params (key :: keys) = some (some n) := by
  rw [budgetOf, not_infinite_of_int hn, hn]
  exact if_pos hpos

theorem budgetOf_cons_of_nonpos {params : Params} {key : String} (keys : List String)
    (hfinite : infinite (param params key) = false)
    (hnonpos : ∀ n, py.int (param params key) = some n → n ≤ 0) :
    budgetOf py params (key :: keys) = budgetOf py params keys := by
  rw [budgetOf, hfinite]
  cases hn : py.int (param params key) with
  | none => rfl
  | some n => exact if_neg (Int.not_lt.mpr (hnonpos n hn))

theorem unread_of_nonpos {params : Params} {keys : List String}
    (h : ∀ key ∈ keys, ∀ n, py.int (param params key) = some n → n ≤ 0) :
    (budgetOf py params keys).getD none = none := by
  induction keys with
  | nil => rfl
  | cons key keys ih =>
    cases hinf : infinite (param params key) with
    | true =>
      rw [budgetOf, hinf]
      rfl
    | false =>
      rw [budgetOf_cons_of_nonpos keys hinf (h key List.mem_cons_self)]
      exact ih fun other hother => h other (List.mem_cons_of_mem key hother)

theorem nonpos_of_unread {params : Params} {keys : List String}
    (h : budgetOf py params keys = some none) :
    ∀ key ∈ keys, ∀ n, py.int (param params key) = some n → n ≤ 0 := by
  induction keys with
  | nil => simp
  | cons key keys ih =>
    have hnonpos : ∀ n, py.int (param params key) = some n → n ≤ 0 := by
      intro n hn
      by_contra hpos
      rw [budgetOf_cons_of_pos keys hn (Int.not_le.mp hpos)] at h
      cases h
    have hfinite : infinite (param params key) = false := by
      rw [← Bool.not_eq_true]
      intro hinf
      rw [budgetOf, if_pos hinf] at h
      cases h
    rw [budgetOf_cons_of_nonpos keys hfinite hnonpos] at h
    intro other hother
    rcases List.mem_cons.mp hother with rfl | hother
    · exact hnonpos
    · exact ih h other hother

theorem infinite_of_raised {params : Params} {keys : List String}
    (h : budgetOf py params keys = none) :
    ∃ key ∈ keys, infinite (param params key) = true := by
  induction keys with
  | nil => cases h
  | cons key keys ih =>
    rw [budgetOf] at h
    split at h
    · rename_i hinf
      exact ⟨key, List.mem_cons_self, hinf⟩
    · have hrest : budgetOf py params keys = none := by
        split at h
        · split at h
          · cases h
          · exact h
        · exact h
      obtain ⟨other, hother, hinf⟩ := ih hrest
      exact ⟨other, List.mem_cons_of_mem key hother, hinf⟩

/-- With an infinity and no positive number before it, the loop raises. -/
theorem callerOutputBudget_of_unanswered {params : Params} {key : String}
    (hfield : budgetField params = some key) (h : Unanswered py params key) :
    callerOutputBudget py params = none := by
  obtain ⟨hnonpos, other, hother, hinf⟩ := h
  have hfirst : ∀ n, py.int (param params "max_completion_tokens") = some n → n ≤ 0 := by
    obtain ⟨-, rfl | ⟨-, hnull⟩⟩ := budgetField_cases hfield
    · exact hnonpos
    · rw [hnull]
      rintro n ⟨⟩
  rw [callerOutputBudget, outputBudgetKeys]
  cases hfinite : infinite (param params "max_completion_tokens") with
  | true => rw [budgetOf, if_pos hfinite]
  | false =>
    have hsecond : other = "max_tokens" := by
      rcases List.mem_cons.mp hother with rfl | hlast
      · cases hinf.symm.trans hfinite
      · exact List.mem_singleton.mp hlast
    rw [budgetOf_cons_of_nonpos _ hfinite hfirst, budgetOf, if_pos (hsecond ▸ hinf)]

theorem callerOutputBudget_of_field {params : Params} {key : String} {n : Int}
    (h : budgetField params = some key) (hn : py.int (param params key) = some n) (hpos : 0 < n) :
    callerOutputBudget py params = some (some n) := by
  obtain ⟨-, rfl | ⟨rfl, hnull⟩⟩ := budgetField_cases h
  · exact budgetOf_cons_of_pos _ hn hpos
  · exact (budgetOf_cons_of_null _ hnull).trans (budgetOf_cons_of_pos _ hn hpos)

theorem callerOutputBudget_of_unset {params : Params} (h : budgetField params = none) :
    callerOutputBudget py params = some none := by
  have hnull : ∀ key ∈ outputBudgetKeys, param params key = .null := by
    intro key hkey
    rw [budgetField, List.find?_eq_none] at h
    simpa using h key hkey
  exact (budgetOf_cons_of_null _ (hnull _ (by decide))).trans
    ((budgetOf_cons_of_null _ (hnull _ (by decide))).trans rfl)

theorem reservationBudget_of_pos {params : Params} {key : String} {n : Int}
    (h : budgetField params = some key) (hn : py.int (param params key) = some n) (hpos : 0 < n) :
    reservationBudget py params = some n := by
  rw [reservationBudget, h, Option.bind_some, hn, Option.filter_some]
  exact if_pos (decide_eq_true hpos)

theorem reservationBudget_of_nonpos {params : Params} {key : String}
    (h : budgetField params = some key)
    (hnonpos : ∀ n, py.int (param params key) = some n → n ≤ 0) :
    reservationBudget py params = none := by
  rw [reservationBudget, h, Option.bind_some, Option.filter_eq_none_iff]
  intro n hn
  simpa using hnonpos n hn

/-! ### The ceiling -/

/-- Where something is needed, the ceiling is read from the one section that there is. -/
theorem headroomCap_isSome_iff {reasons : Bool} {config effort : Json} {needed : Int}
    (hneeded : headroomNeeded py reasons config effort = some needed) (model : String) :
    (headroomCap py reasons model config).isSome = true ↔ CeilingReadable py model config := by
  rw [headroomNeeded] at hneeded
  split at hneeded
  · cases hneeded
  · rename_i hreasons
    obtain ⟨hcfg, hconfig, hneeded⟩ := Option.bind_eq_some_iff.mp hneeded
    have henabled := enabled_of_needed hconfig hneeded
    rw [headroomCap, if_neg hreasons, hconfig, Option.bind_eq_bind, Option.bind_some,
      if_neg (by simpa using henabled), CeilingReadable, hconfig, reasoningHeadroomCeiling]
    cases hraw : capRaw py model hcfg with
    | none => simp [hraw]
    | some raw => simp [hraw]

/-! ## 5. The two together -/

/-- With no reservation what is sent is what the request has. -/
theorem sentEnough_of_kept {reasons : Bool} {params : Params} {model : String} {config : Json}
    {needed n : Int} {key : String}
    (hkept : reserveOpenai py reasons params model config (param params "reasoning_effort") = none)
    (hfield : budgetField params = some key) (hn : py.int (param params key) = some n)
    (hle : needed ≤ n) : SentEnough py (reservedParams py reasons params model config) needed := by
  rw [reservedParams, hkept]
  intro key' hkey'
  cases hfield.symm.trans hkey'
  exact ⟨n, hn, hle⟩

theorem starved_of_budget {reasons : Bool} {params : Params} {model : String} {config : Json}
    {needed n : Int}
    (hneeded : headroomNeeded py reasons config (param params "reasoning_effort") = some needed)
    (hpos : 0 < n) (hlt : n < needed) :
    reasoningBudgetStarved py reasons params model config (some n) = true ↔
      ∃ cap, headroomCap py reasons model config = some cap ∧ cap < needed := by
  rw [reasoningBudgetStarved, hneeded]
  dsimp only
  rw [if_neg (ne_of_gt (hpos.trans hlt)), if_neg (Int.not_le.mpr hlt)]
  cases headroomCap py reasons model config with
  | none => simp
  | some cap => simp

section

variable {reasons : Bool} {params : Params} {model : String} {config : Json} {needed n : Int}
  {key : String}

/-- Where the field is below what is needed and the cap is not, it is raised to what is needed. -/
theorem sentEnough_of_raised (laws : LowerLaws py)
    (hneeded : headroomNeeded py reasons config (param params "reasoning_effort") = some needed)
    (hfield : budgetField params = some key) (hn : py.int (param params key) = some n)
    (hpos : 0 < n) (hlt : n < needed) {cap : Int}
    (hcap : headroomCap py reasons model config = some cap) (hceiling : needed ≤ cap) :
    SentEnough py (reservedParams py reasons params model config) needed := by
  obtain ⟨raised, hreserve, hparam, hto⟩ :=
    (reserveOpenai_of_budget laws model hneeded hfield).1 n hn hpos hlt cap hcap hceiling
  rw [reservedParams, hreserve]
  dsimp only
  rw [hparam, hto]
  intro key' hkey'
  cases (budgetField_insert hfield needed).symm.trans hkey'
  refine ⟨needed, ?_, le_rfl⟩
  rw [param, Assoc.lookup_insert_self]
  rfl

theorem agrees_of_unset (hfield : budgetField params = none) :
    GuardAgrees py reasons params model config needed := by
  have hunset : callerOutputBudget py params = some none := callerOutputBudget_of_unset hfield
  refine ⟨by rw [hunset, reservationBudget, hfield, Option.bind_none, Option.getD_some],
    fun _ => ?_⟩
  have hkept : reserveOpenai py reasons params model config
      (param params "reasoning_effort") = none := by
    cases hreserve : reserveOpenai py reasons params model config
        (param params "reasoning_effort") with
    | none => rfl
    | some raised =>
      obtain ⟨hkey, hset, -⟩ := reserveOpenai_spec hreserve
      rw [budgetField, List.find?_eq_none] at hfield
      exact absurd (decide_eq_true hset) (hfield _ hkey)
  rw [reservedParams, hkept]
  intro key hkey
  cases hfield.symm.trans hkey

/-- A positive budget, which both of them read. -/
theorem agrees_of_raisable (laws : LowerLaws py)
    (hneeded : headroomNeeded py reasons config (param params "reasoning_effort") = some needed)
    (hfield : budgetField params = some key) (h : Raisable py params model config needed key) :
    GuardAgrees py reasons params model config needed := by
  obtain ⟨n, hn, hpos, henough⟩ := h
  have hbudget := callerOutputBudget_of_field hfield hn hpos
  refine ⟨?_, fun hpasses => ?_⟩
  · rw [hbudget, reservationBudget_of_pos hfield hn hpos, Option.getD_some]
  · rcases Int.lt_or_le n needed with hlt | hle
    · have hreadable := henough.resolve_left (Int.not_le.mpr hlt)
      obtain ⟨cap, hcap⟩ := Option.isSome_iff_exists.mp
        ((headroomCap_isSome_iff hneeded model).mpr hreadable)
      have hceiling : needed ≤ cap := by
        rw [guardAnswer, hbudget, Option.map_some, Option.some_inj, ← Bool.not_eq_true,
          starved_of_budget hneeded hpos hlt] at hpasses
        exact Int.not_lt.mp fun hbelow => hpasses ⟨cap, hcap, hbelow⟩
      exact sentEnough_of_raised laws hneeded hfield hn hpos hlt hcap hceiling
    · have hkept := (reserveOpenai_of_budget laws model hneeded hfield).2
      refine sentEnough_of_kept (hkept fun n' hn' => ?_) hfield hn hle
      cases hn.symm.trans hn'
      exact Or.inr (Or.inl hle)

/-- The guard does not get as far as an answer. -/
theorem agrees_of_unanswered (hfield : budgetField params = some key)
    (h : Unanswered py params key) : GuardAgrees py reasons params model config needed := by
  have hraises := callerOutputBudget_of_unanswered hfield h
  refine ⟨by rw [hraises, reservationBudget_of_nonpos hfield h.1, Option.getD_none], ?_⟩
  rw [guardAnswer, hraises]
  rintro ⟨⟩

/-- A budget that is not positive, which neither of them reads. -/
theorem agrees_of_enoughUnread (laws : LowerLaws py)
    (hneeded : headroomNeeded py reasons config (param params "reasoning_effort") = some needed)
    (hfield : budgetField params = some key) (h : EnoughUnread py params needed key) :
    GuardAgrees py reasons params model config needed := by
  obtain ⟨⟨n, hn, hle⟩, hnonpos⟩ := h
  have hkey : ∀ m, py.int (param params key) = some m → m ≤ 0 :=
    hnonpos key (List.mem_of_find?_eq_some hfield)
  have hkept := (reserveOpenai_of_budget laws model hneeded hfield).2
  refine ⟨?_, fun _ => ?_⟩
  · rw [callerOutputBudget, unread_of_nonpos hnonpos, reservationBudget_of_nonpos hfield hkey]
  · exact sentEnough_of_kept (hkept fun m hm => Or.inl (hkey m hm)) hfield hn hle

/-- A budget that is read and is not enough can be raised. -/
theorem cap_of_agrees (laws : LowerLaws py)
    (hneeded : headroomNeeded py reasons config (param params "reasoning_effort") = some needed)
    (h : GuardAgrees py reasons params model config needed)
    (hfield : budgetField params = some key) (hn : py.int (param params key) = some n)
    (hpos : 0 < n) (hlt : n < needed) : (headroomCap py reasons model config).isSome = true := by
  cases hcap : headroomCap py reasons model config with
  | some cap => rfl
  | none =>
    have hpasses : guardAnswer py reasons params model config = some false := by
      rw [guardAnswer, callerOutputBudget_of_field hfield hn hpos, Option.map_some,
        Option.some_inj, ← Bool.not_eq_true, starved_of_budget hneeded hpos hlt, hcap]
      rintro ⟨cap, ⟨⟩, -⟩
    have hkept := (reserveOpenai_of_budget laws model hneeded hfield).2 fun _ _ =>
      Or.inr (Or.inr hcap)
    have hsent := h.enough hpasses
    rw [reservedParams, hkept] at hsent
    obtain ⟨n', hn', hle⟩ := hsent key hfield
    cases hn.symm.trans hn'
    exact absurd hle (Int.not_le.mpr hlt)

theorem readable_of_agrees (laws : LowerLaws py)
    (hneeded : headroomNeeded py reasons config (param params "reasoning_effort") = some needed)
    (h : GuardAgrees py reasons params model config needed) :
    BudgetReadable py params model config needed := by
  intro key hfield
  by_cases hpositive : ∃ n, py.int (param params key) = some n ∧ 0 < n
  · obtain ⟨n, hn, hpos⟩ := hpositive
    refine Or.inl ⟨n, hn, hpos, ?_⟩
    rcases Int.lt_or_le n needed with hlt | hle
    · have hcap := cap_of_agrees laws hneeded h hfield hn hpos hlt
      exact Or.inr ((headroomCap_isSome_iff hneeded model).mp hcap)
    · exact Or.inl hle
  · have hnonpos : ∀ n, py.int (param params key) = some n → n ≤ 0 := fun n hn =>
      Int.not_lt.mp fun hpos => hpositive ⟨n, hn, hpos⟩
    right
    have hunread := h.reads.trans (reservationBudget_of_nonpos hfield hnonpos)
    cases hbudget : callerOutputBudget py params with
    | none => exact Or.inl ⟨hnonpos, infinite_of_raised hbudget⟩
    | some budget =>
      rw [hbudget, Option.getD_some] at hunread
      rw [hunread] at hbudget
      -- a route without a budget passes, and nothing is reserved for it
      have hpasses : guardAnswer py reasons params model config = some false := by
        rw [guardAnswer, hbudget]
        rfl
      have hkept := (reserveOpenai_of_budget laws model hneeded hfield).2 fun n hn =>
        Or.inl (hnonpos n hn)
      have hsent := h.enough hpasses
      rw [reservedParams, hkept] at hsent
      exact Or.inr ⟨hsent key hfield, nonpos_of_unread hbudget⟩

end

/-- **The guard and the reservation agree exactly when the field that carries the budget can be
read as one, or the guard meets an infinity.** -/
theorem guard_agrees_iff (laws : LowerLaws py) (reasons : Bool) (params : Params) (model : String)
    (config : Json) :
    (∀ needed, headroomNeeded py reasons config (param params "reasoning_effort") = some needed →
        GuardAgrees py reasons params model config needed) ↔
      ∀ needed, headroomNeeded py reasons config (param params "reasoning_effort") = some needed →
        BudgetReadable py params model config needed := by
  refine forall₂_congr fun needed hneeded => ⟨readable_of_agrees laws hneeded, ?_⟩
  intro hreadable
  cases hfield : budgetField params with
  | none => exact agrees_of_unset hfield
  | some key =>
    rcases hreadable key hfield with hraisable | hunanswered | hunread
    · exact agrees_of_raisable laws hneeded hfield hraisable
    · exact agrees_of_unanswered hfield hunanswered
    · exact agrees_of_enoughUnread laws hneeded hfield hunread

/-! ### A field that is zero -/

section

/-- The built-ins on texts in lower case. -/
def plainPython : Python where
  intOfStr := String.toInt?
  strOf _ := ""
  lower s := s
  pairsOf _ := none

theorem lowerLaws_plain : LowerLaws plainPython := ⟨fun _ => rfl, fun _ => Iff.rfl⟩

theorem guard_agrees_small_budget :
    GuardAgrees plainPython true [("max_completion_tokens", .int 1024)] "o4-mini" (.obj [])
      4608 := by
  refine (guard_agrees_iff lowerLaws_plain true [("max_completion_tokens", .int 1024)] "o4-mini"
    (.obj [])).mpr ?_ 4608 (by decide)
  intro needed _ key hfield
  have hkey : key = "max_completion_tokens" := (Option.some.inj hfield).symm
  rw [hkey]
  exact Or.inl ⟨1024, rfl, by decide, Or.inr ⟨.obj [], .int 32768, rfl, rfl, rfl⟩⟩

/-- The guard reads the 1024 tokens of the second field; the reservation stops at the zero of
the first, which is sent. -/
theorem not_guard_agrees :
    ¬ ∀ (params : Params) (model : String) (config : Json) (needed : Int),
      headroomNeeded plainPython true config (param params "reasoning_effort") = some needed →
      GuardAgrees plainPython true params model config needed := by
  intro h
  have hagrees := h [("max_completion_tokens", .int 0), ("max_tokens", .int 1024)] "o4-mini"
    (.obj []) 4608 (by decide)
  obtain ⟨n, hn, hle⟩ := hagrees.enough (by decide) "max_completion_tokens" (by decide)
  have hzero : (0 : Int) = n := Option.some.inj hn
  rw [← hzero] at hle
  exact absurd hle (by decide)

end

end TokenProxy.Providers
