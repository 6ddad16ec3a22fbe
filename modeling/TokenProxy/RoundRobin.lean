/-
  TokenProxy/RoundRobin.lean
  ==========================
  **Choosing a model within a tier** (`_select_from_tier` and `_resolve_tiers`,
  `g06_routing.py`).

  Under `round_robin` a worker keeps one counter for each tenant and tier label.  The counter is
  meant for the tier's candidates, but the label does not say which these are: the ladders of two
  providers share `medium`, and a request of the one moves the counter of the other.

  Main result: `roundRobinFair_iff`, the candidate lists that are rotated fairly under every
  interleaving.
-/
import TokenProxy.Dict
import TokenProxy.Rotation
import Mathlib.Data.List.MinMax
import Mathlib.Data.Prod.Lex
import Mathlib.Data.Set.Defs
import Mathlib.Algebra.Order.Ring.Rat

namespace TokenProxy.Routing

open Rotation

/-! ## 1. The selection -/

/-- `_VALID_STRATEGIES`; a text that names none of them counts as `priority`. -/
inductive Strategy where
  | priority
  | cascade
  | weighted
  | roundRobin
  | leastLatency
  | canary
deriving DecidableEq, Repr

/-- What the selection reads of `G6_routing`. -/
structure RoutingCfg where
  strategy : Strategy := .priority
  canaryPct : ℚ := 0
  strategyWeights : List (String × ℚ) := []

structure Ctx where
  tenantId : Option String := none
  requestId : Option String := none
deriving DecidableEq, Repr

/-- `value or default`, of a text. -/
def orDefault (value : Option String) (default : String) : String :=
  match value with
  | some text => if text = "" then default else text
  | none => default

/-- What a worker has seen of its models. -/
structure Seen where
  stableBucket : String → ℕ → ℕ
  /-- the last call failed less than `_FAILED_MODEL_HOLD_S` ago -/
  held : String → Bool
  /-- `_MODEL_LATENCY_EWMA`, zero for a model that is not measured -/
  latency : String → ℚ

/-- The worker's rotating indices, `_RR_COUNTERS`. -/
abbrev Counters := List ((String × String) × ℕ)

def counterKey (ctx : Ctx) (models : List String) (tierLabel : String) : String × String :=
  (orDefault ctx.tenantId "default",
    if tierLabel = "" then ",".intercalate models else tierLabel)

/-- The first model whose weight takes the sum above the point. -/
def pickWeighted (point : ℚ) : ℚ → List (String × ℚ) → Option String
  | _, [] => none
  | acc, (model, weight) :: rest =>
    if point < acc + weight then some model else pickWeighted point (acc + weight) rest

/-- `_select_from_tier`, and the counters afterwards. -/
def selectFromTier (seen : Seen) (models : List String) (cfg : RoutingCfg) (ctx : Ctx)
    (tierLabel : String) (counters : Counters) : Option String × Counters :=
  match models with
  | [] => (none, counters)
  | [model] => (some model, counters)
  | incumbent :: candidate :: _ =>
    let rid := orDefault ctx.requestId ""
    match cfg.strategy with
    | .priority | .cascade => (some incumbent, counters)
    | .roundRobin =>
      let key := counterKey ctx models tierLabel
      let idx := (Assoc.lookup key counters).getD 0
      (models[idx % models.length]?, Assoc.insert key ((idx + 1) % models.length) counters)
    | .canary =>
      let pct := max 0 (min 100 cfg.canaryPct)
      if pct ≤ 0 then (some incumbent, counters)
      else if (seen.stableBucket rid 100 : ℚ) < pct then (some candidate, counters)
      else (some incumbent, counters)
    | .weighted =>
      let weights := models.map fun model =>
        (model, max 0 ((Assoc.lookup model cfg.strategyWeights).getD 1))
      let total := (weights.map Prod.snd).sum
      if total ≤ 0 then (some incumbent, counters)
      else
        let point := (seen.stableBucket rid 10000 : ℚ) / 10000 * total
        ((pickWeighted point 0 weights).or models.getLast?, counters)
    | .leastLatency =>
      (models.argmin fun model => toLex (seen.held model, seen.latency model), counters)

/-! ## 2. The candidates -/

abbrev Tiers := List (String × List String)

def tierNames : List String := ["simple", "medium", "complex"]

/-- The ladders of `G6_routing`. -/
structure Ladders where
  tiers : Tiers := []
  tiersByProvider : List (String × Tiers) := []

/-- `_resolve_tiers`, with the provider that owns the model; `none` where the request passes
    through. -/
def resolveTiers (cfg : Ladders) (family : Option String) (tenantPicks : Tiers) : Option Tiers :=
  if cfg.tiersByProvider = [] then some cfg.tiers
  else
    let famTiers := (Assoc.lookup (orDefault family "") cfg.tiersByProvider).filter fun tiers =>
      decide (orDefault family "" ≠ "") &&
        tierNames.any fun tier => (Assoc.lookup tier tiers).getD [] ≠ []
    if tenantPicks = [] then famTiers
    else some (tenantPicks.foldl (fun d entry => Assoc.insert entry.1 entry.2 d)
      (famTiers.getD []))

/-- The candidates of a classified request: those of `medium` where its tier has no entry. -/
def candidates (tiers : Tiers) (complexity : String) : List String :=
  (Assoc.lookup complexity tiers).getD ((Assoc.lookup "medium" tiers).getD [])

/-! ## 3. Runs -/

/-- A request at the selection. -/
structure Request where
  seen : Seen
  models : List String
  cfg : RoutingCfg
  ctx : Ctx
  tierLabel : String

namespace Request

variable (r : Request)

/-- The candidate list, a tenant's: tenants rotate independently. -/
def list : String × List String := (orDefault r.ctx.tenantId "default", r.models)

def key : String × String := counterKey r.ctx r.models r.tierLabel

def Uses (list : String × List String) : Prop := r.cfg.strategy = .roundRobin ∧ r.list = list

instance (list : String × List String) : Decidable (r.Uses list) := instDecidableAnd

/-- There is something to rotate. -/
def Rotates : Prop := r.cfg.strategy = .roundRobin ∧ 2 ≤ r.models.length

def serve (counters : Counters) : Option String × Counters :=
  selectFromTier r.seen r.models r.cfg r.ctx r.tierLabel counters

end Request

def after (counters : Counters) (rs : List Request) : Counters :=
  rs.foldl (fun counters r => (r.serve counters).2) counters

/-- What the requests that use a list are given, in their order. -/
def picks (list : String × List String) : Counters → List Request → List (Option String)
  | _, [] => []
  | counters, r :: rs =>
    let (pick, counters') := r.serve counters
    if r.Uses list then pick :: picks list counters' rs else picks list counters' rs

/-- Any consecutive requests that use the list get each of its models its share of times, in every
    run of a worker over the requests. -/
def RoundRobinFair (requests : Set Request) : Prop :=
  ∀ rs : List Request, (∀ r ∈ rs, r ∈ requests) → ∀ list window,
    window <:+: picks list [] rs → FairShare list.2 window

/-- A list that is rotated names each model once, and it alone has its counter and has one. -/
def Separate (requests : Set Request) : Prop :=
  ∀ r ∈ requests, r.Rotates → r.models.Nodup ∧
    ∀ r' ∈ requests, r'.Rotates → (r.key = r'.key ↔ r.list = r'.list)

/-! ## 4. One request -/

theorem serve_rotates {r : Request} (h : r.Rotates) (counters : Counters) :
    r.serve counters =
      (r.models[(Assoc.lookup r.key counters).getD 0 % r.models.length]?,
        Assoc.insert r.key (((Assoc.lookup r.key counters).getD 0 + 1) % r.models.length)
          counters) := by
  obtain ⟨seen, models, cfg, ctx, tierLabel⟩ := r
  obtain ⟨hstrategy, hlength⟩ := h
  dsimp only at hstrategy hlength
  cases models with
  | nil => simp at hlength
  | cons incumbent rest =>
    cases rest with
    | nil => simp at hlength
    | cons candidate rest =>
      simp only [Request.serve, selectFromTier, hstrategy]
      rfl

/-- A request that rotates nothing leaves the counters. -/
theorem serve_keeps {r : Request} (h : ¬ r.Rotates) (counters : Counters) :
    (r.serve counters).2 = counters := by
  obtain ⟨seen, models, cfg, ctx, tierLabel⟩ := r
  cases models with
  | nil => rfl
  | cons incumbent rest =>
    cases rest with
    | nil => rfl
    | cons candidate rest =>
      cases hstrategy : cfg.strategy with
      | roundRobin => exact absurd ⟨hstrategy, by simp⟩ h
      | canary =>
        simp only [Request.serve, selectFromTier, hstrategy]
        split_ifs <;> rfl
      | weighted =>
        simp only [Request.serve, selectFromTier, hstrategy]
        split_ifs <;> rfl
      | _ => simp only [Request.serve, selectFromTier, hstrategy]

/-- The only model of a list is picked every time. -/
theorem serve_single {r : Request} {model : String} (h : r.models = [model])
    (counters : Counters) : (r.serve counters).1 = some model := by
  rw [Request.serve, h]
  rfl

theorem picks_of_unused {list : String × List String} (rs : List Request) (counters : Counters)
    (h : ∀ r ∈ rs, ¬ r.Uses list) : picks list counters rs = [] := by
  induction rs generalizing counters with
  | nil => rfl
  | cons r rs ih =>
    rw [picks]
    dsimp only
    rw [if_neg (h r List.mem_cons_self)]
    exact ih _ fun r' hr' => h r' (List.mem_cons_of_mem r hr')

theorem picks_append (list : String × List String) (counters : Counters) (rs rs' : List Request) :
    picks list counters (rs ++ rs') =
      picks list counters rs ++ picks list (after counters rs) rs' := by
  induction rs generalizing counters with
  | nil => rfl
  | cons r rs ih =>
    rw [List.cons_append, picks, picks]
    dsimp only
    rw [ih]
    split <;> rfl

theorem picks_of_rotates {r : Request} (h : r.Rotates) (counters : Counters) :
    picks r.list counters [r] =
      [r.models[(Assoc.lookup r.key counters).getD 0 % r.models.length]?] := by
  rw [picks]
  dsimp only
  rw [if_pos ⟨h.1, rfl⟩, serve_rotates h]
  rfl

theorem length_picks_replicate {r : Request} (h : r.Rotates) (counters : Counters) (m : ℕ) :
    (picks r.list counters (List.replicate m r)).length = m := by
  induction m generalizing counters with
  | zero => rfl
  | succ m ih =>
    rw [List.replicate_succ, picks]
    dsimp only
    rw [if_pos ⟨h.1, rfl⟩, List.length_cons, ih]

theorem lookup_after {r : Request} (h : r.Rotates) (counters : Counters) (j : ℕ) :
    Assoc.lookup r.key (after counters (List.replicate (j + 1) r)) =
      some (((Assoc.lookup r.key counters).getD 0 + j + 1) % r.models.length) := by
  induction j generalizing counters with
  | zero =>
    rw [after, List.replicate_one, List.foldl_cons, List.foldl_nil, serve_rotates h,
      Assoc.lookup_insert_self, Nat.add_zero]
  | succ j ih =>
    rw [List.replicate_succ, after, List.foldl_cons, ← after, ih, serve_rotates h,
      Assoc.lookup_insert_self, Option.getD_some]
    congr 1
    rw [Nat.add_assoc, Nat.mod_add_mod]
    congr 1
    omega

/-! ## 5. A list with its own counter -/

/-- Where the requests that rotate use a key exactly when they use the list, the list's requests
    are given its models in turn. -/
theorem picks_eq_turns {list : String × List String} {key : String × String}
    (hlength : 2 ≤ list.2.length) {rs : List Request}
    (hkey : ∀ r ∈ rs, r.Rotates → (r.key = key ↔ r.list = list)) (counters : Counters) :
    picks list counters rs =
      turns list.2 ((Assoc.lookup key counters).getD 0) (picks list counters rs).length := by
  induction rs generalizing counters with
  | nil => rfl
  | cons r rs ih =>
    have hrest := fun r' hr' => hkey r' (List.mem_cons_of_mem r hr')
    rw [picks]
    dsimp only
    by_cases huses : r.Uses list
    · have hrotates : r.Rotates := by
        refine ⟨huses.1, ?_⟩
        rw [← huses.2] at hlength
        exact hlength
      have hown : r.key = key := (hkey r List.mem_cons_self hrotates).mpr huses.2
      have hmodels : r.models = list.2 := congrArg Prod.snd huses.2
      rw [if_pos huses, List.length_cons, turns_succ, ← hown, ← hmodels]
      rw [serve_rotates hrotates]
      have hih := ih hrest (Assoc.insert r.key
        (((Assoc.lookup r.key counters).getD 0 + 1) % r.models.length) counters)
      rw [← hown, Assoc.lookup_insert_self, Option.getD_some, ← hmodels, turns_mod] at hih
      exact congrArg _ hih
    · rw [if_neg huses, ih hrest]
      congr 1
      · by_cases hrotates : r.Rotates
        · have hother : key ≠ r.key := by
            intro heq
            exact huses ⟨hrotates.1, (hkey r List.mem_cons_self hrotates).mp heq.symm⟩
          rw [serve_rotates hrotates, Assoc.lookup_insert_of_ne hother]
        · rw [serve_keeps hrotates]
      · rw [← ih hrest]

theorem picks_single {tenant model : String} (rs : List Request) (counters : Counters) :
    picks (tenant, [model]) counters rs =
      turns [model] 0 (picks (tenant, [model]) counters rs).length := by
  induction rs generalizing counters with
  | nil => rfl
  | cons r rs ih =>
    rw [picks]
    dsimp only
    by_cases huses : r.Uses (tenant, [model])
    · rw [if_pos huses, serve_single (congrArg Prod.snd huses.2), List.length_cons, turns_succ]
      have hmod := turns_mod [model] 1 (picks (tenant, [model]) (r.serve counters).2 rs).length
      rw [List.length_singleton, Nat.mod_one] at hmod
      rw [Nat.zero_add, ← hmod, ← ih]
      rfl
    · rw [if_neg huses]
      exact ih _

theorem fair_of_separate {requests : Set Request} (h : Separate requests) :
    RoundRobinFair requests := by
  rintro rs hrs ⟨tenant, models⟩ window hwindow
  cases models with
  | nil =>
    intro model hmodel
    cases hmodel
  | cons model rest =>
    cases rest with
    | nil =>
      rw [picks_single] at hwindow
      obtain ⟨d, hturns⟩ := infix_turns hwindow
      rw [hturns]
      exact fairShare_turns (List.nodup_singleton model) d _
    | cons model' rest =>
      by_cases hused : ∃ r ∈ rs, r.Uses (tenant, model :: model' :: rest)
      · obtain ⟨r, hr, hstrategy, hlist⟩ := hused
        have hlength : 2 ≤ (model :: model' :: rest).length := by simp
        have hmodels : r.models = model :: model' :: rest := congrArg Prod.snd hlist
        obtain ⟨hnodup, hseparate⟩ := h r (hrs r hr) ⟨hstrategy, by rw [hmodels]; exact hlength⟩
        have hkey : ∀ r' ∈ rs, r'.Rotates →
            (r'.key = r.key ↔ r'.list = (tenant, model :: model' :: rest)) := by
          intro r' hr' hrotates
          rw [eq_comm, hseparate r' (hrs r' hr') hrotates, hlist, eq_comm]
        rw [picks_eq_turns hlength hkey] at hwindow
        obtain ⟨d, hturns⟩ := infix_turns hwindow
        rw [hturns]
        rw [hmodels] at hnodup
        exact fairShare_turns hnodup d _
      · rw [picks_of_unused rs [] fun r hr huses => hused ⟨r, hr, huses⟩] at hwindow
        rw [List.eq_nil_of_infix_nil hwindow]
        exact fun _ _ => Or.inl (Nat.zero_div _).symm

/-! ## 6. A list whose counter moves otherwise -/

/-- Two picks in a row that find the counter at zero are the same. -/
theorem not_fair_of_zero {requests : Set Request} {r r' : Request} (h : r.Rotates)
    (h' : r'.Rotates) (hlist : r.list = r'.list) (between : List Request)
    (hrs : ∀ q ∈ r :: (between ++ [r']), q ∈ requests)
    (hbetween : ∀ q ∈ between, ¬ q.Uses r.list)
    (hzero : (Assoc.lookup r'.key (after (after [] [r]) between)).getD 0 = 0) :
    ¬ RoundRobinFair requests := by
  intro hfair
  have hmodels : r.models = r'.models := congrArg Prod.snd hlist
  have hn : 0 < r.models.length := Nat.zero_lt_of_lt h.2
  have hpicks : picks r.list [] (r :: (between ++ [r'])) =
      [some r.models[0], some r.models[0]] := by
    have hcons : r :: (between ++ [r']) = [r] ++ (between ++ [r']) := rfl
    rw [hcons, picks_append, picks_append, picks_of_unused between _ hbetween, List.nil_append,
      picks_of_rotates h]
    rw [hlist, picks_of_rotates h', hzero, ← hmodels]
    simp [hn]
  have hshare := hfair _ hrs r.list _ (List.infix_refl _)
  rw [hpicks] at hshare
  exact not_fairShare_pair h.2 (List.getElem_mem hn) hshare

theorem separate_of_fair {requests : Set Request} (h : RoundRobinFair requests) :
    Separate requests := by
  intro r hr hrotates
  constructor
  · have hrs : ∀ q ∈ List.replicate r.models.length r, q ∈ requests := by
      intro q hq
      rw [List.eq_of_mem_replicate hq]
      exact hr
    have hturns := @picks_eq_turns r.list r.key hrotates.2 (List.replicate r.models.length r)
      (by
        intro q hq _
        rw [List.eq_of_mem_replicate hq]
        exact iff_of_true rfl rfl) []
    rw [length_picks_replicate hrotates] at hturns
    have hshare := h _ hrs r.list _ (List.infix_refl _)
    rw [hturns] at hshare
    exact nodup_of_fairShare (turns_length r.models ▸ hshare)
  · intro r' hr' hrotates'
    constructor
    · -- the other list brings the counter around while this one is not used
      intro hkey
      by_contra hlist
      have hn : r'.models.length - 2 + 1 + 1 = r'.models.length := by
        have := hrotates'.2
        omega
      refine not_fair_of_zero hrotates hrotates rfl
        (List.replicate (r'.models.length - 2 + 1) r') ?_ ?_ ?_ h
      · intro q hq
        simp only [List.mem_cons, List.mem_append, List.mem_replicate, List.not_mem_nil,
          or_false] at hq
        rcases hq with rfl | ⟨_, rfl⟩ | rfl
        exacts [hr, hr', hr]
      · intro q hq huses
        rw [List.eq_of_mem_replicate hq] at huses
        exact hlist huses.2.symm
      · rw [hkey, lookup_after hrotates', ← hkey, ← List.replicate_one, lookup_after hrotates]
        have hone : 1 % r.models.length = 1 := Nat.mod_eq_of_lt hrotates.2
        simp only [Assoc.lookup, Option.getD_none, Option.getD_some, Nat.zero_add, hone]
        rw [Nat.add_comm 1, hn, Nat.mod_self]
    · -- the other key's counter has not moved
      intro hlist
      by_contra hkey
      refine not_fair_of_zero hrotates hrotates' hlist [] ?_ ?_ ?_ h
      · intro q hq
        simp only [List.nil_append, List.mem_cons, List.not_mem_nil, or_false] at hq
        rcases hq with rfl | rfl
        exacts [hr, hr']
      · intro q hq
        cases hq
      · rw [after, List.foldl_nil, after, List.foldl_cons, List.foldl_nil, serve_rotates hrotates,
          Assoc.lookup_insert_of_ne (Ne.symm hkey)]
        rfl

/-- **A worker rotates fairly under every interleaving exactly where a tenant's list names each
    model once, is always chosen under one label, and shares that label with no other list.** -/
theorem roundRobinFair_iff (requests : Set Request) :
    RoundRobinFair requests ↔ Separate requests :=
  ⟨separate_of_fair, fair_of_separate⟩

/-! ## 7. Ladders -/

/-- A request after the classifier. -/
def classified (seen : Seen) (cfg : RoutingCfg) (ctx : Ctx) (tiers : Tiers) (complexity : String) :
    Request :=
  ⟨seen, candidates tiers complexity, cfg, ctx, complexity⟩

/-- Flat tiers with a list of their own each are rotated fairly, for every tenant. -/
theorem flat_tiers_fair (cfg : RoutingCfg) (tiers : Tiers)
    (hnodup : ∀ tier models, Assoc.lookup tier tiers = some models → models.Nodup)
    (hnamed : Assoc.lookup "" tiers = none)
    (hown : ∀ tier tier' models, Assoc.lookup tier tiers = some models →
      Assoc.lookup tier' tiers = some models → tier = tier') :
    RoundRobinFair {r | ∃ seen ctx tier models, Assoc.lookup tier tiers = some models ∧
      r = classified seen cfg ctx tiers tier} := by
  apply fair_of_separate
  rintro _ ⟨seen, ctx, tier, models, htier, rfl⟩ -
  have hlabel : ∀ {tier models}, Assoc.lookup tier tiers = some models → tier ≠ "" := by
    rintro tier models hlookup rfl
    rw [hnamed] at hlookup
    cases hlookup
  have hcandidates : ∀ {tier models}, Assoc.lookup tier tiers = some models →
      candidates tiers tier = models := by
    intro tier models hlookup
    rw [candidates, hlookup, Option.getD_some]
  refine ⟨by rw [classified, hcandidates htier]; exact hnodup tier models htier, ?_⟩
  rintro _ ⟨seen', ctx', tier', models', htier', rfl⟩ -
  simp only [Request.key, Request.list, classified, counterKey, hcandidates htier,
    hcandidates htier', if_neg (hlabel htier), if_neg (hlabel htier'), Prod.mk.injEq]
  refine and_congr_right fun _ => ⟨?_, ?_⟩
  · rintro rfl
    exact Option.some.inj (htier.symm.trans htier')
  · rintro rfl
    exact hown tier tier' models htier htier'

/-- Two providers' ladders, each with a `medium`. -/
def providerLadders : Ladders where
  tiersByProvider :=
    [("openai", [("medium", ["gpt-4o-mini", "gpt-4o"])]),
      ("anthropic", [("medium", ["claude-haiku-4-5", "claude-sonnet-4-5", "claude-opus-4-1"])])]

/-- A `medium` request of the default tenant, for a model of the provider. -/
def mediumRequest (family : String) : Request :=
  classified ⟨fun _ _ => 0, fun _ => false, fun _ => 0⟩ { strategy := .roundRobin } {}
    ((resolveTiers providerLadders (some family) []).getD []) "medium"

/-- Two requests for the one provider bring the counter around for the other. -/
theorem not_providerLadders_fair :
    ¬ RoundRobinFair {r | ∃ family, family ∈ ["openai", "anthropic"] ∧
      r = mediumRequest family} := by
  intro h
  have hpicks : picks ("default", ["gpt-4o-mini", "gpt-4o"]) []
      [mediumRequest "openai", mediumRequest "anthropic", mediumRequest "anthropic",
        mediumRequest "openai"] = [some "gpt-4o-mini", some "gpt-4o-mini"] := by decide
  have hshare := h [mediumRequest "openai", mediumRequest "anthropic", mediumRequest "anthropic",
    mediumRequest "openai"] ?_ ("default", ["gpt-4o-mini", "gpt-4o"]) _ (List.infix_refl _)
  · rw [hpicks] at hshare
    exact not_fairShare_pair (by decide) List.mem_cons_self hshare
  · intro r hr
    simp only [List.mem_cons, List.not_mem_nil, or_false] at hr
    rcases hr with rfl | rfl | rfl | rfl
    · exact ⟨"openai", by decide, rfl⟩
    · exact ⟨"anthropic", by decide, rfl⟩
    · exact ⟨"anthropic", by decide, rfl⟩
    · exact ⟨"openai", by decide, rfl⟩

end TokenProxy.Routing
