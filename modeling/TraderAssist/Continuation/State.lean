/-
TraderAssist/Continuation/State.lean

`IncrementalStrategyState` of `strategy_continuation.py`: the bounded state from
which a market's strategy is evaluated bar by bar.

It keeps the last 21 5m, 98 15m and 10 1h bars, three rolling ATRs, the last two
1h pivots of each kind and the ledger without its terminal events.  The history
commitments are written and never read by an evaluation; they are left out.
-/
import TraderAssist.Kernel.Engine

namespace TraderAssist

open Py

variable {δ : Type}

/-- What ingesting a bar or building an input can raise. -/
inductive ContinuationError
  | atrLacksClose
  | atrLacksAnchor
  | barIdentity
  | notChronological
  | aggregation15m
  | aggregation1h
  | insufficient
  | kernel (e : KernelError)
deriving DecidableEq, Repr

/-- An error of the kernel, raised through the continuation. -/
def liftKernel {α : Type} : Except KernelError α → Except ContinuationError α
  | .ok a => .ok a
  | .error e => .error (.kernel e)

/-! ### Rolling ATR -/

structure RollingAtr where
  barCount : ℕ := 0
  previousClose : Option ℚ := none
  seedSum : ℚ := 0
  value : Option ℚ := none
deriving DecidableEq, Repr

/-- `RollingAtr.ingest`; the value it returns is the `value` field. -/
def RollingAtr.ingest (a : RollingAtr) (bar : Bar) : Except ContinuationError RollingAtr :=
  if a.barCount = 0 then .ok { a with barCount := 1, previousClose := some bar.close }
  else match a.previousClose with
    | none => .error .atrLacksClose
    | some previousClose =>
      let currentRange := trueRange bar previousClose
      let next : RollingAtr :=
        { a with barCount := a.barCount + 1, previousClose := some bar.close }
      if a.barCount < 14 then .ok { next with seedSum := cadd a.seedSum currentRange }
      else if a.barCount = 14 then
        .ok { next with
          seedSum := cadd a.seedSum currentRange
          value := some (cdiv (cadd a.seedSum currentRange) 14) }
      else match a.value with
        | none => .error .atrLacksAnchor
        | some value => .ok { next with value := some (wilderStep value currentRange) }

/-! ### The state -/

structure IncrementalStrategyState (δ : Type) where
  marketId : Text
  bars5m : List Bar := []
  bars15m : List Bar := []
  atr15mValues : List (Option ℚ) := []
  bars1h : List Bar := []
  atr5m : RollingAtr := {}
  atr15m : RollingAtr := {}
  atr1h : RollingAtr := {}
  total5m : ℕ := 0
  total15m : ℕ := 0
  total1h : ℕ := 0
  pivotHighs1h : List ℚ := []
  pivotLows1h : List ℚ := []
  ledger : EventLedger δ := []
  lastSourceOpenTimeMs : Option ℕ := none

/-- The bar is the last of its bucket of `count` 5m bars. -/
def completes (count : ℕ) (bar : Bar) : Bool :=
  (bar.openTimeMs / fiveMinutesMs + 1) % count = 0

namespace IncrementalStrategyState

section

variable (s : IncrementalStrategyState δ)

/-- The 5m part of `ingest`. -/
def ingest5m (bar : Bar) :
    Except ContinuationError (IncrementalStrategyState δ) := do
  let atr ← s.atr5m.ingest bar
  pure { s with
    lastSourceOpenTimeMs := some bar.openTimeMs
    total5m := s.total5m + 1
    atr5m := atr
    bars5m := lastN 21 (s.bars5m ++ [bar]) }

/-- A new 15m bar. -/
def push15m (value : Bar) :
    Except ContinuationError (IncrementalStrategyState δ) := do
  let atr ← s.atr15m.ingest value
  pure { s with
    total15m := s.total15m + 1
    atr15m := atr
    bars15m := lastN 98 (s.bars15m ++ [value])
    atr15mValues := lastN 98 (s.atr15mValues ++ [atr.value]) }

def ingest15m (bar : Bar) :
    Except ContinuationError (IncrementalStrategyState δ) :=
  if 3 ≤ s.total5m ∧ completes 3 bar then do
    let derived ← liftKernel (aggregateClosed5mCausally (lastN 3 s.bars5m) 15)
    match derived with
    | [value] => s.push15m value
    | _ => throw .aggregation15m
  else .ok s

end

/-- The pivot lists after a new 1h bar: the last bar becomes a pivot if it stands
out between the one before it and the new one. -/
def pivotsAfter (test : Bar → Bar → Bar → Bool) (price : Bar → ℚ) (bars1h : List Bar) (value : Bar)
    (pivots : List ℚ) : List ℚ :=
  match lastN 2 bars1h with
  | [left, pivot] => if test left pivot value then lastN 2 (pivots ++ [price pivot]) else pivots
  | _ => pivots

/-- A new 1h bar. -/
def push1h (s : IncrementalStrategyState δ) (value : Bar) :
    Except ContinuationError (IncrementalStrategyState δ) := do
  let atr ← s.atr1h.ingest value
  pure { s with
    pivotHighs1h := pivotsAfter isPivotHigh Bar.high s.bars1h value s.pivotHighs1h
    pivotLows1h := pivotsAfter isPivotLow Bar.low s.bars1h value s.pivotLows1h
    total1h := s.total1h + 1
    atr1h := atr
    bars1h := lastN 10 (s.bars1h ++ [value]) }

def ingest1h (s : IncrementalStrategyState δ) (bar : Bar) :
    Except ContinuationError (IncrementalStrategyState δ) :=
  if 12 ≤ s.total5m ∧ completes 12 bar then do
    let derived ← liftKernel (aggregateClosed5mCausally (lastN 12 s.bars5m) 60)
    match derived with
    | [value] => s.push1h value
    | _ => throw .aggregation1h
  else .ok s

def ingest (s : IncrementalStrategyState δ) (bar : Bar) :
    Except ContinuationError (IncrementalStrategyState δ) :=
  if bar.marketId ≠ s.marketId ∨ bar.interval ≠ .m5 then .error .barIdentity
  else if s.lastSourceOpenTimeMs.any fun last => bar.openTimeMs ≠ last + 300000 then
    .error .notChronological
  else do
    let s ← s.ingest5m bar
    let s ← s.ingest15m bar
    s.ingest1h bar

/-- `_htf_context`. -/
def htfContextOf (s : IncrementalStrategyState δ) : Except KernelError HtfContext :=
  match s.atr1h.value with
  | none => .ok unavailableContext
  | some a1h =>
    if s.total1h < 15 ∨ s.bars1h.length < 9 then .ok unavailableContext
    else do
      let er8 ← directionalEfficiency8 s.bars1h
      let d8 ← directionalMove8 s.bars1h a1h
      pure ⟨momentumOf er8 d8, pivotStructure s.pivotHighs1h s.pivotLows1h a1h, some er8, some d8⟩

section

variable [LinearOrder δ] (sha256 : Preimage δ → δ)

def evaluationInput (s : IncrementalStrategyState δ) (minimumTick : ℚ)
    (scannerLinkage : Option ScannerLinkage) :
    Except ContinuationError (StrategyEvaluationInput δ) :=
  match s.atr5m.value, s.atr15m.value with
  | some a5, some a15 =>
    if s.bars5m.length < 21 ∨ s.bars15m.length < 15 then .error .insufficient
    else do
      let zoneBook ← liftKernel (buildZoneBook sha256 s.bars15m minimumTick (some s.atr15mValues)
        (s.total15m - s.bars15m.length))
      let context ← liftKernel s.htfContextOf
      pure
        { bars5m := s.bars5m
          minimumTick := minimumTick
          bars15m := some s.bars15m
          bars1h := some s.bars1h
          zoneBook := some zoneBook
          scannerLinkage := scannerLinkage
          mandatoryDataValid := true
          a5Override := some a5
          m20Override := some (previous20Median s.bars5m)
          a15Override := some a15
          htfContextOverride := some context }
  | _, _ => .error .insufficient

/-- `evaluate_strategy(state.evaluation_input(...), state.ledger)`. -/
def evaluate (s : IncrementalStrategyState δ) (minimumTick : ℚ)
    (scannerLinkage : Option ScannerLinkage) : Except ContinuationError (KernelResult δ) := do
  let inputs ← s.evaluationInput sha256 minimumTick scannerLinkage
  liftKernel (evaluateStrategy sha256 inputs s.ledger)

end

/-- `retain_result`: terminal events leave the ledger. -/
def retainResult (s : IncrementalStrategyState δ) (ledger : EventLedger δ) :
    IncrementalStrategyState δ :=
  { s with ledger := ledger.filter fun event => !event.status.terminal }

end IncrementalStrategyState

/-! ### Runs -/

/-- A bar with what the caller adds to it. -/
structure ReplayBar where
  bar : Bar
  minimumTick : ℚ
  scannerLinkage : Option ScannerLinkage

section

variable [LinearOrder δ] (sha256 : Preimage δ → δ)

/-- One bar of the incremental route.  An evaluation that raises leaves the bar
ingested and the ledger as it was. -/
def incrementalStep (s : IncrementalStrategyState δ) (x : ReplayBar) :
    IncrementalStrategyState δ × Except ContinuationError (KernelResult δ) :=
  match s.ingest x.bar with
  | .error e => (s, .error e)
  | .ok s =>
    match s.evaluate sha256 x.minimumTick x.scannerLinkage with
    | .error e => (s, .error e)
    | .ok result => (s.retainResult result.ledger, .ok result)

/-- The plain route keeps every bar and the whole ledger. -/
structure FullHistory (δ : Type) where
  bars : List Bar := []
  ledger : EventLedger δ := []

/-- One bar of the plain route. -/
def plainStep (h : FullHistory δ) (x : ReplayBar) :
    FullHistory δ × Except KernelError (KernelResult δ) :=
  let bars := h.bars ++ [x.bar]
  match evaluateStrategy sha256
    { bars5m := bars, minimumTick := x.minimumTick, scannerLinkage := x.scannerLinkage }
    h.ledger with
  | .error e => (⟨bars, h.ledger⟩, .error e)
  | .ok result => (⟨bars, result.ledger⟩, .ok result)

end

end TraderAssist
