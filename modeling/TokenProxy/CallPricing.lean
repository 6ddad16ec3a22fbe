/-
  TokenProxy/CallPricing.lean
  ===========================
  **What a provider call costs** (`savings/calculator.py`, `record_provider_call` of
  `middleware/__init__.py` and the pricing functions of `g18_observability.py`).

  A call is booked as a `ProviderCall`, read from the answer's usage.  The served call is
  priced from its answer (cache, reasoning surcharge, batch discount), every other one
  from its entry, at list price.  Amounts are exact rationals, rounded where the code
  rounds them.
-/
import TokenProxy.CallBook
import TokenProxy.TokenCounter
import Mathlib.Data.Rat.Floor

namespace TokenProxy.Ledger

open TokenCounter CallBook

/-! ## 1. Rates -/

/-- A row of the pricing table, per thousand tokens. -/
structure Rates where
  input : ℚ := 1 / 200
  output : ℚ := 3 / 200
deriving DecidableEq, Repr

/-- How a provider reports its usage and what it charges for cached input. -/
structure Adapter where
  name : String
  requiresApiKey : Bool
  /-- `extract_usage`; `{}` where it raises -/
  extractUsage : Json → Json
  cacheReadCostMultiplier : ℚ
  cacheWriteCostMultiplier : ℚ
  cacheWrite1hCostMultiplier : ℚ

structure Prices where
  rt : Runtime
  pricing : List (String × Rates)
  /-- `reasoning_rate_multiplier` of G18's configuration -/
  reasoningRateMultiplier : ℚ
  /-- `batch_discount_multiplier` for a request on the native batch lane, else 1 -/
  batchDiscount : ℚ
  /-- `int(text)` -/
  intOf : String → Option Int
  /-- `dict(value)` of a value that is neither a dict nor `None` -/
  dictOf : Json → Option Json

variable (env : Prices)

/-- `round(x, 8)`: to the nearest multiple, halves to the even one. -/
def round8 (x : ℚ) : ℚ :=
  let scaled := x * 100000000
  let below := ⌊scaled⌋
  let rest := scaled - below
  let nearest :=
    if rest < 1 / 2 then below
    else if 1 / 2 < rest then below + 1
    else if below % 2 = 0 then below else below + 1
  nearest / 100000000

/-- One turn of the search for the longest key that the model's name contains. -/
def bestRow (modelLower : String) (best : Option (String × Rates)) (row : String × Rates) :
    Option (String × Rates) :=
  if row.1 = "default" then best
  else if contains (env.rt.lower row.1) modelLower &&
      (match best with
        | none => true
        | some b => decide (b.1.length < row.1.length)) then some row
  else best

def getCostPer1k (model : String) : Rates :=
  match env.pricing.foldl (bestRow env (env.rt.lower model)) none with
  | some row => row.2
  | none => ((env.pricing.find? fun row => row.1 = "default").map Prod.snd).getD {}

def estimateCost (inputTokens outputTokens : ℚ) (model : String) : ℚ :=
  let rates := getCostPer1k env model
  round8 (inputTokens / 1000 * rates.input + outputTokens / 1000 * rates.output)

structure InputSpans where
  plain : ℚ
  cached : ℚ
  written5m : ℚ
  written1h : ℚ
deriving DecidableEq, Repr

def partitionInputTokens (inputTokens cachedTokens cacheWriteTokens cacheWrite1hTokens : ℚ) :
    InputSpans :=
  let cached := max 0 (min cachedTokens inputTokens)
  let written := max 0 (min cacheWriteTokens (inputTokens - cached))
  let written1h := max 0 (min cacheWrite1hTokens written)
  { plain := inputTokens - cached - written
    cached
    written5m := written - written1h
    written1h }

/-- What `resolve_cache_usage` reads of an answer, with the multipliers that apply. -/
structure CacheUsage where
  cachedTokens : ℚ
  reasoningTokens : ℚ
  cacheWriteTokens : ℚ
  cacheWrite1hTokens : ℚ
  readMultiplier : ℚ
  writeMultiplier : ℚ
  write1hMultiplier : ℚ
deriving DecidableEq, Repr

def estimateCostWithCache (inputTokens outputTokens : ℚ) (model : String) (u : CacheUsage) : ℚ :=
  let rates := getCostPer1k env model
  let spans := partitionInputTokens inputTokens u.cachedTokens u.cacheWriteTokens
    u.cacheWrite1hTokens
  let base := spans.plain / 1000 * rates.input
    + spans.cached / 1000 * rates.input * u.readMultiplier
    + spans.written5m / 1000 * rates.input * u.writeMultiplier
    + spans.written1h / 1000 * rates.input * u.write1hMultiplier
    + outputTokens / 1000 * rates.output
  -- reasoning tokens are part of the output: only the surcharge is added
  let reasoning := max 0 (min u.reasoningTokens outputTokens)
  let surcharged := base + reasoning / 1000 * rates.output * (env.reasoningRateMultiplier - 1)
  round8 (surcharged * env.batchDiscount)

/-! ## 2. Booking a call -/

/-- An entry of `ctx.provider_calls`. -/
structure ProviderCall where
  model : String
  promptTokens : Int
  completionTokens : Int
  reasoningTokens : Int
  cachedTokens : Int
  side : Bool
deriving DecidableEq, Repr

/-- `int(value)`. -/
def pyInt : Json → Option Int
  | .int n => some n
  | .bool b => some (if b then 1 else 0)
  | .float q => some (q.num.tdiv q.den)
  | .str s => env.intOf s
  | _ => none

/-- `int(d.get(key) or 0)`. -/
def countOf (d : Json) (key : String) : Option Int :=
  pyInt env ((d.getD key .null).orElse (.int 0))

/-- `d.get(key) or {}`, and `{}` for what is no dict. -/
def detailsOf (usage : Json) (key : String) : Json :=
  let details := (usage.getD key .null).orElse (.obj [])
  if details.isObj then details else .obj []

/-- `usage or {}`, with `usage` made a dict. -/
def bookedUsage (response : Json) : Option Json :=
  match response.getD "usage" .null with
  | .null => some (.obj [])
  | .obj fields => some (.obj fields)
  | other => env.dictOf other

/-- The entry that `record_provider_call` appends; `none` where it cannot parse the answer. -/
def recordOf (model : String) (response : Json) (side : Bool) : Option ProviderCall := do
  let usage ← bookedUsage env response
  let ctd := detailsOf usage "completion_tokens_details"
  let ptd := detailsOf usage "prompt_tokens_details"
  let promptTokens ← countOf env usage "prompt_tokens"
  let completionTokens ← countOf env usage "completion_tokens"
  let reasoningTokens ← countOf env ctd "reasoning_tokens"
  let cachedTokens ← countOf env ptd "cached_tokens"
  pure { model, promptTokens, completionTokens, reasoningTokens, cachedTokens, side }

theorem recordOf_fields {model : String} {response : Json} {side : Bool} {call : ProviderCall}
    (h : recordOf env model response side = some call) :
    call.model = model ∧ call.side = side := by
  simp only [recordOf, Option.bind_eq_bind, Option.bind_eq_some_iff, Option.pure_def,
    Option.some.injEq] at h
  obtain ⟨_, -, _, -, _, -, _, -, _, -, rfl⟩ := h
  exact ⟨rfl, rfl⟩

/-- The price of a booked call; `model` is for an entry that names none. -/
def callPrice (model : String) (call : ProviderCall) : ℚ :=
  estimateCost env call.promptTokens call.completionTokens
    (if call.model = "" then model else call.model)

def priceCalls (calls : List ProviderCall) (model : String) : ℚ :=
  (calls.map (callPrice env model)).sum

/-! ## 3. Pricing the served call -/

/-- `_first_present`: the first key that holds something, as an `int`, else `None`. -/
def firstPresent (source : Json) (keys : List String) : Json :=
  match keys.find? fun key => decide (source.getD key .null ≠ .null) with
  | some key => ((pyInt env (source.getD key .null)).map Json.int).getD .null
  | none => .null

/-- `ProviderAdapter.extract_usage`, which reads OpenAI's shape of a usage. -/
def extractUsage (response : Json) : Json :=
  let usage := (response.getD "usage" .null).orElse (.obj [])
  let details := (usage.getD "prompt_tokens_details" .null).orElse (.obj [])
  let completionDetails := (usage.getD "completion_tokens_details" .null).orElse (.obj [])
  if usage.isObj && details.isObj && completionDetails.isObj then
    let reported := completionDetails.getD "reasoning_tokens" .null
    .obj
      [("cached_tokens", (details.getD "cached_tokens" .null).orElse (.int 0)),
        ("reasoning_tokens",
          reported.orElse ((usage.getD "thinking_tokens" .null).orElse (.int 0))),
        ("cache_read_tokens", firstPresent env details ["cached_tokens"]),
        ("cache_write_tokens",
          firstPresent env details ["cache_write_tokens", "cache_creation_tokens"])]
  else .obj []

/-- A number that arithmetic takes. -/
def number? : Json → Option ℚ
  | .int n => some n
  | .float q => some q
  | .bool b => some (if b then 1 else 0)
  | _ => none

/-- `value or 0`, as a number. -/
def countOrZero (value : Json) : Option ℚ := number? (value.orElse (.int 0))

def resolveCacheUsage (adapter : Adapter) (response : Json) : Option CacheUsage := do
  let extracted := (adapter.extractUsage response).orElse (.obj [])
  let cachedTokens ← countOrZero (extracted.getD "cached_tokens" (.int 0))
  let reasoningTokens ← countOrZero (extracted.getD "reasoning_tokens" (.int 0))
  let cacheWriteTokens ← countOrZero (extracted.getD "cache_write_tokens" .null)
  let cacheWrite1hTokens ← countOrZero (extracted.getD "cache_write_1h_tokens" .null)
  pure
    { cachedTokens, reasoningTokens, cacheWriteTokens, cacheWrite1hTokens
      readMultiplier := if cachedTokens ≠ 0 then adapter.cacheReadCostMultiplier else 1
      writeMultiplier := if cacheWriteTokens ≠ 0 then adapter.cacheWriteCostMultiplier else 1
      write1hMultiplier := if cacheWrite1hTokens ≠ 0 then adapter.cacheWrite1hCostMultiplier
        else 1 }

/-- `(response or {}).get("usage") or {}`; `none` where a value has no `get`. -/
def usageOf (response : Json) : Option Json :=
  let dict := response.orElse (.obj [])
  if dict.isObj then
    let usage := (dict.getD "usage" .null).orElse (.obj [])
    if usage.isObj then some usage else none
  else none

/-- What `price_response` puts on the ledger for the served call alone; `none` where the
    usage cannot be priced. -/
def servedPrice (adapter : Adapter) (model : String) (proxyOptimisedTokens : Int)
    (response : Json) : Option ℚ := do
  let usage ← usageOf response
  let promptTokens ← match usage.getD "prompt_tokens" .null with
    | .null => some (proxyOptimisedTokens : ℚ)
    | reported => number? reported
  let completionTokens ← countOrZero (usage.getD "completion_tokens" (.int 0))
  let u ← resolveCacheUsage adapter response
  pure (estimateCostWithCache env promptTokens completionTokens model u)

end TokenProxy.Ledger
