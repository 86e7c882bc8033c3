/-
TraderAssist/Planning/Plan.lean

The plan of a Formal Signal (`planning.py`): the liquidity evidence of an L2 book and the
arithmetic of `make_plan`.

Prices are values, the operations those of the decimal context; fractions of the book are
exact.  `quantize` rounds towards zero and raises when the result has more digits than the
context keeps; a division by zero raises.  Left out: the constant fields of a draft.
-/
import TraderAssist.Kernel.Types

namespace TraderAssist

open Py

/-! ### Inputs -/

inductive EntryQuality
  | ideal
  | lateButWithinChase
deriving DecidableEq, Repr

inductive PlanRejection
  | bboInvalidOrStale
  | liquidityHardLimit
  | chaseLimitExceeded
  | targetFeasibilityFailed
deriving DecidableEq, Repr

inductive PlanningError
  | invalidBbo
  | l2Identity
  | l2Levels
  | askOrder
  | bidOrder
  | vwapDirection
  | pricePrecision
  | structuralStop
  | invalidOperation
  | divisionByZero
deriving DecidableEq, Repr

def hardMaxSpreadBps : ℚ := 40
def hardMaxPrimaryOneWaySlippageBps : ℚ := 35
def primaryReferenceNotionalUsd : ℚ := 1000
def referenceShadowEquityUsd : ℚ := 200
def referenceMaxNotionalUsd : ℚ := 5000

structure PublicBbo where
  bestBid : ℚ
  bestAsk : ℚ
  observedAtMs : ℤ := 0
  marketId : Text := []
  coin : Text := []
deriving DecidableEq

/-- Versioned costs; the constructor refuses negative ones. -/
structure CostModel where
  version : Text
  feeBpsPerSide : ℚ
  slippageBpsPerSide : ℚ
  stressSlippageBpsPerSide : ℚ
  version_ne : version ≠ []
  costs_nonneg : 0 ≤ feeBpsPerSide ∧ 0 ≤ slippageBpsPerSide ∧ 0 ≤ stressSlippageBpsPerSide

structure LiquidityAssessment where
  marketId : Text
  coin : Text
  side : Side
  observedAtMs : ℤ
  bestBid : ℚ
  bestAsk : ℚ
  referenceNotionalUsd : ℚ
  depthConsumed : List (ℚ × ℚ)
  executablePrice : Option ℚ
  oneWaySlippageBps : Option ℚ
  sufficientDepth : Bool
  provenanceHash : Text
deriving DecidableEq

structure PlanInputs where
  marketId : Text
  side : Side
  idealEntryLow : ℚ
  idealEntryHigh : ℚ
  chaseLimit : ℚ
  structuralStop : ℚ
  structuralTarget : ℚ
  liquidity : Option LiquidityAssessment
  costModel : Option CostModel
  nowMs : ℤ
  priceMaxDecimals : ℤ := 6
  priceMaxSignificantFigures : ℤ := 5
  sizeDecimals : ℤ := 5
  maxLeverage : Option ℚ := none

structure PlanDraft where
  side : Side
  plannedEntry : ℚ
  stop : ℚ
  tp1 : ℚ
  tp2 : Option ℚ
  riskDistance : ℚ
  netRToTarget : ℚ
  entryQuality : EntryQuality
  referenceQty1pct : ℚ
  referenceQty2pct : ℚ
  referenceNotional1pct : ℚ
  referenceNotional2pct : ℚ
  referenceSizeUnavailable : Bool
  costModelVersion : Text
deriving DecidableEq

inductive PlanResult
  | rejected (reason : PlanRejection)
  | draft (plan : PlanDraft)
deriving DecidableEq

/-! ### Precision -/

/-- `value.quantize(Decimal(1).scaleb(exponent), rounding=ROUND_DOWN)`. -/
def quantizeDown (value : ℚ) (exponent : ℤ) : Except PlanningError ℚ :=
  let coefficient := ⌊|value| / pow10 exponent⌋.toNat
  if 10 ^ ctxPrec ≤ coefficient then .error .invalidOperation
  else .ok (if value < 0 then -(coefficient * pow10 exponent) else coefficient * pow10 exponent)

/-- `value.adjusted()`. -/
def adjusted (value : ℚ) : ℤ := magnitude value.num.natAbs value.den

/-- `round_provider_perp_price`. -/
def roundProviderPerpPrice (value : ℚ) (maxDecimals significantFigures : ℤ) :
    Except PlanningError ℚ := do
  require (0 < value ∧ 0 ≤ maxDecimals ∧ 0 < significantFigures) .pricePrecision
  let decimalLimited ← quantizeDown value (-maxDecimals)
  if decimalLimited.den = 1 then
    pure decimalLimited
  else
    let significantQuantum := adjusted decimalLimited - significantFigures + 1
    quantizeDown decimalLimited (max (-maxDecimals) significantQuantum)

/-- A division that raises on zero. -/
def divide (x y : ℚ) : Except PlanningError ℚ :=
  if y = 0 then .error .divisionByZero else .ok (cdiv x y)

/-! ### Liquidity -/

/-- What is taken of a book. -/
structure BookFill where
  remaining : ℚ := primaryReferenceNotionalUsd
  quote : ℚ := 0
  base : ℚ := 0
  consumed : List (ℚ × ℚ) := []

/-- The loop of `assess_l2` over the levels. -/
def consumeLevels : BookFill → List (ℚ × ℚ) → BookFill
  | fill, [] => fill
  | fill, (price, size) :: levels =>
    let take := min (price * size) fill.remaining
    if take ≤ 0 then consumeLevels fill levels
    else
      let quantity := take / price
      let fill' : BookFill :=
        { remaining := fill.remaining - take
          quote := fill.quote + take
          base := fill.base + quantity
          consumed := fill.consumed ++ [(price, cdiv quantity.num quantity.den)] }
      if fill'.remaining = 0 then fill' else consumeLevels fill' levels

/-- `assess_l2`. -/
def assessL2 (marketId coin : Text) (side : Side) (observedAtMs : ℤ) (bestBid bestAsk : ℚ)
    (levels : List (ℚ × ℚ)) (provenanceHash : Text) : Except PlanningError LiquidityAssessment := do
  require (0 < bestBid ∧ bestBid < bestAsk ∧ 0 ≤ observedAtMs) .invalidBbo
  require (marketId ≠ [] ∧ coin ≠ [] ∧ provenanceHash ≠ []) .l2Identity
  require (∀ level ∈ levels, 0 < level.1 ∧ 0 < level.2) .l2Levels
  require (side = .long → (∀ level ∈ levels, bestAsk ≤ level.1) ∧
    (levels.map Prod.fst).IsChain (· ≤ ·)) .askOrder
  require (side = .short → (∀ level ∈ levels, level.1 ≤ bestBid) ∧
    (levels.map Prod.fst).IsChain (· ≥ ·)) .bidOrder
  let fill := consumeLevels {} levels
  let assessment (price slippage : Option ℚ) (sufficient : Bool) : LiquidityAssessment :=
    { marketId := marketId, coin := coin, side := side, observedAtMs := observedAtMs
      bestBid := bestBid, bestAsk := bestAsk
      referenceNotionalUsd := primaryReferenceNotionalUsd, depthConsumed := fill.consumed
      executablePrice := price, oneWaySlippageBps := slippage, sufficientDepth := sufficient
      provenanceHash := provenanceHash }
  if 0 < fill.remaining ∨ fill.base = 0 then pure (assessment none none false)
  else
    let vwap := fill.quote / fill.base
    let touch := side.pick bestAsk bestBid
    let directional := side.pick (vwap - touch) (touch - vwap)
    require (0 ≤ directional) .vwapDirection
    let slippage := directional / touch * 10000
    pure (assessment (some (cdiv vwap.num vwap.den)) (some (cdiv slippage.num slippage.den)) true)

namespace LiquidityAssessment

/-- `fresh_for`. -/
def freshFor (l : LiquidityAssessment) (marketId coin : Text) (side : Side) (nowMs : ℤ)
    (maxAgeMs : ℤ := 10000) : Bool :=
  l.marketId = marketId && l.coin = coin && l.side = side &&
  l.referenceNotionalUsd = primaryReferenceNotionalUsd && l.sufficientDepth &&
  l.executablePrice.isSome && l.oneWaySlippageBps.isSome &&
  decide (0 ≤ nowMs - l.observedAtMs ∧ nowMs - l.observedAtMs ≤ maxAgeMs)

end LiquidityAssessment

/-! ### The plan -/

namespace PublicBbo

/-- `spread_bps`. -/
def spreadBps (bbo : PublicBbo) : Except PlanningError ℚ :=
  if bbo.bestBid ≤ 0 ∨ bbo.bestAsk ≤ bbo.bestBid then .error .invalidBbo
  else .ok (cmul (cdiv (csub bbo.bestAsk bbo.bestBid) (cdiv (cadd bbo.bestAsk bbo.bestBid) 2)) 10000)

end PublicBbo

namespace PlanInputs

section

variable (inputs : PlanInputs)

/-- The gates of `make_plan` on the BBO, the costs and the liquidity. -/
def gates (bbo : PublicBbo) : Except PlanRejection CostModel :=
  match inputs.liquidity with
  | none => .error .liquidityHardLimit
  | some liquidity => do
    require (bbo.marketId = inputs.marketId ∧ bbo.coin = liquidity.coin) .bboInvalidOrStale
    require (0 ≤ inputs.nowMs - bbo.observedAtMs ∧ inputs.nowMs - bbo.observedAtMs ≤ 10000)
      .bboInvalidOrStale
    match bbo.spreadBps with
    | .error _ => .error .bboInvalidOrStale
    | .ok spread =>
      match inputs.costModel with
      | none => .error .liquidityHardLimit
      | some costs => do
        require (liquidity.freshFor inputs.marketId bbo.coin inputs.side inputs.nowMs)
          .liquidityHardLimit
        require (liquidity.bestBid = bbo.bestBid ∧ liquidity.bestAsk = bbo.bestAsk ∧
          liquidity.observedAtMs = bbo.observedAtMs) .liquidityHardLimit
        require (spread ≤ hardMaxSpreadBps ∧
          ∃ slippage ∈ liquidity.oneWaySlippageBps, slippage ≤ hardMaxPrimaryOneWaySlippageBps)
          .liquidityHardLimit
        pure costs

/-- The side of the book that the plan meets. -/
def touch (bbo : PublicBbo) : ℚ := inputs.side.pick bbo.bestAsk bbo.bestBid

/-- The planned entry: the touch at the provider's precision, but never better than it. -/
def entry (bbo : PublicBbo) : Except PlanningError ℚ := do
  let touch := inputs.touch bbo
  let rounded ← roundProviderPerpPrice touch inputs.priceMaxDecimals inputs.priceMaxSignificantFigures
  pure (inputs.side.pick (if rounded < touch then touch else rounded)
    (if touch < rounded then touch else rounded))

/-- The distance from the entry to the stop, in the direction of the side. -/
def distance (entry : ℚ) : ℚ :=
  inputs.side.pick (csub entry inputs.structuralStop) (csub inputs.structuralStop entry)

/-- A price some distance from the entry, in the favourable direction. -/
def favourable (entry distance : ℚ) : ℚ :=
  inputs.side.pick (cadd entry distance) (csub entry distance)

/-- The first target, one risk from the entry. -/
def firstTarget (entry : ℚ) : ℚ :=
  inputs.favourable entry (inputs.distance entry)

/-- The second target: the structural one, at most two risks from the entry. -/
def secondTarget (entry : ℚ) : ℚ :=
  let limit := inputs.favourable entry (cmul 2 (inputs.distance entry))
  inputs.side.pick (min inputs.structuralTarget limit) (max inputs.structuralTarget limit)

/-- `risk`. -/
def risk (entry : ℚ) : ℚ := cabs (csub entry inputs.structuralStop)

/-- The distance of the structural target in risks. -/
def targetRisks (entry : ℚ) : ℚ :=
  cdiv (cabs (csub inputs.structuralTarget entry)) (inputs.risk entry)

end

/-- `side_cost_bps`. -/
def sideCostBps (costs : CostModel) : ℚ := cadd costs.feeBpsPerSide costs.slippageBpsPerSide

/-- `net_r`. -/
def netR (inputs : PlanInputs) (costs : CostModel) (entry : ℚ) : ℚ :=
  let targetCost := cdiv (cmul (cadd entry inputs.structuralTarget) (sideCostBps costs)) 10000
  cdiv (csub (cabs (csub inputs.structuralTarget entry)) targetCost) (inputs.risk entry)

/-- `size`. -/
def size (inputs : PlanInputs) (costs : CostModel) (entry riskBudget : ℚ) :
    Except PlanningError ℚ := do
  let bps := sideCostBps costs
  let lossPerUnit := cadd (cadd (inputs.risk entry) (cdiv (cmul entry bps) 10000))
    (cdiv (cmul inputs.structuralStop bps) 10000)
  let leverageCap := match inputs.maxLeverage with
    | none => referenceMaxNotionalUsd
    | some leverage => cmul referenceShadowEquityUsd leverage
  let byRisk ← divide riskBudget lossPerUnit
  let byNotional ← divide (min referenceMaxNotionalUsd leverageCap) entry
  quantizeDown (min byRisk byNotional) (-inputs.sizeDecimals)

/-- The plan at an entry that passed the gates. -/
def planAt (inputs : PlanInputs) (costs : CostModel) (entry : ℚ) : Except PlanningError PlanResult := do
  let withinChase := inputs.side.pick (entry ≤ inputs.chaseLimit : Bool) (inputs.chaseLimit ≤ entry : Bool)
  let stopValid := inputs.side.pick (inputs.structuralStop < entry : Bool) (entry < inputs.structuralStop : Bool)
  if withinChase = false then pure (.rejected .chaseLimitExceeded)
  else
    require (stopValid = true ∧ 0 < inputs.risk entry) .structuralStop
    if inputs.netR costs entry < 1 then pure (.rejected .targetFeasibilityFailed)
    else
      let one ← inputs.size costs entry (cmul referenceShadowEquityUsd (1 / 100))
      let two ← inputs.size costs entry (cmul referenceShadowEquityUsd (2 / 100))
      pure (.draft
        { side := inputs.side
          plannedEntry := entry
          stop := inputs.structuralStop
          tp1 := inputs.firstTarget entry
          tp2 := if inputs.targetRisks entry < 5 / 4 then none else some (inputs.secondTarget entry)
          riskDistance := inputs.risk entry
          netRToTarget := inputs.netR costs entry
          entryQuality :=
            if inputs.idealEntryLow ≤ entry ∧ entry ≤ inputs.idealEntryHigh then .ideal
            else .lateButWithinChase
          referenceQty1pct := one
          referenceQty2pct := two
          referenceNotional1pct := cmul one entry
          referenceNotional2pct := cmul two entry
          referenceSizeUnavailable := one = 0
          costModelVersion := costs.version })

end PlanInputs

/-- `make_plan`. -/
def makePlan (inputs : PlanInputs) (bbo : PublicBbo) : Except PlanningError PlanResult :=
  match inputs.gates bbo with
  | .error reason => .ok (.rejected reason)
  | .ok costs => do
    let entry ← inputs.entry bbo
    inputs.planAt costs entry

end TraderAssist
