/-
TraderAssist/Kernel/Indicators.lean

Causal aggregation and the frozen indicators (`strategy_kernel/indicators.py`).

Every function of the source that validates its series first does so here too;
the part after the validation is a function of its own (`atrValues`,
`pivotIndices`), which is what later modules reason about.
-/
import TraderAssist.Kernel.Types
import TraderAssist.Lib.Seq

namespace TraderAssist

open Py

/-- `derive() if given is None else given`. -/
def givenOr {α : Type} (given : Option α) (derive : Except KernelError α) : Except KernelError α :=
  match given with
  | none => derive
  | some a => .ok a

/-! ### Series validation -/

def fiveMinutesMs : ℕ := 300000

/-- The loop of `validate_series`, with the open time of the bar before. -/
def validateFrom (marketId : Text) (interval : Interval) :
    Option ℕ → List Bar → Except KernelError Unit
  | _, [] => .ok ()
  | previousOpen, item :: bars =>
    if item.marketId ≠ marketId ∨ item.interval ≠ interval then .error .historyIdentity
    else if item.openTimeMs % interval.ms ≠ 0 then .error .historyAlignment
    else if previousOpen.any fun p => item.openTimeMs ≠ p + interval.ms then .error .historyGap
    else validateFrom marketId interval (some item.openTimeMs) bars

def validateSeries (bars : List Bar) (interval : Option Interval := none) :
    Except KernelError Unit :=
  match bars with
  | [] => .error .historyEmpty
  | first :: _ => validateFrom first.marketId (interval.getD first.interval) none bars

/-! ### Aggregation -/

def bucketOf (bucketMs : ℕ) (item : Bar) : ℕ := item.openTimeMs - item.openTimeMs % bucketMs

/-- `grouped.setdefault(bucket, []).append(item)`. -/
def addToBucket (bucket : ℕ) (item : Bar) : List (ℕ × List Bar) → List (ℕ × List Bar)
  | [] => [(bucket, [item])]
  | (key, members) :: rest =>
    if key = bucket then (key, members ++ [item]) :: rest
    else (key, members) :: addToBucket bucket item rest

def groupBuckets (bucketMs : ℕ) (bars : List Bar) : List (ℕ × List Bar) :=
  bars.foldl (fun grouped item => addToBucket (bucketOf bucketMs item) item grouped) []

/-- `CAUSAL_LOCAL_FROM_CLOSED_5M`. -/
def causalLocalSource : Text :=
  ['C', 'A', 'U', 'S', 'A', 'L', '_', 'L', 'O', 'C', 'A', 'L', '_', 'F', 'R', 'O', 'M', '_',
    'C', 'L', 'O', 'S', 'E', 'D', '_', '5', 'M']

/-- One bucket of the output loop: skipped unless complete. -/
def mergeBucket (interval : Interval) (required bucket : ℕ) (members : List Bar) :
    Except KernelError (Option Bar) :=
  let expectedOpens := (List.range required).map fun index => bucket + index * fiveMinutesMs
  if members.map Bar.openTimeMs ≠ expectedOpens then .ok none
  else match members with
    | [] => .ok none  -- not reached: a bucket holds at least the bar that opened it
    | first :: rest =>
      let last := rest.getLast?.getD first
      some <$> Bar.make first.marketId interval bucket last.closeTimeMs first.openRepr
        (Decimal.maxFirst first.highRepr (rest.map Bar.highRepr))
        (Decimal.minFirst first.lowRepr (rest.map Bar.lowRepr))
        last.closeRepr
        (Decimal.sum (members.map Bar.volumeRepr))
        causalLocalSource

/-- The buckets of a validated series, in order, and the bars of the complete
ones. -/
def mergeBuckets (bars : List Bar) (minutes : ℕ) : Except KernelError (List Bar) := do
  let interval := if minutes = 15 then Interval.m15 else Interval.h1
  let merged ← (sortBy Prod.fst (groupBuckets (minutes * 60000) bars)).mapM fun g =>
    mergeBucket interval (minutes / 5) g.1 g.2
  pure (merged.filterMap id)

def aggregateClosed5mCausally (bars : List Bar) (minutes : ℕ) : Except KernelError (List Bar) :=
  if minutes ≠ 15 ∧ minutes ≠ 60 then .error .aggregationFrozen
  else do
    validateSeries bars (some .m5)
    if (bars.zip bars.tail).any fun p => p.2.openTimeMs ≠ p.1.openTimeMs + fiveMinutesMs then
      throw .fiveMinuteGap
    else mergeBuckets bars minutes

/-! ### Ranges, ATR and volume -/

def trueRange (current : Bar) (previousClose : ℚ) : ℚ :=
  max (max (csub current.high current.low) (cabs (csub current.high previousClose)))
    (cabs (csub current.low previousClose))

/-- `ranges[index - 1]` is the true range of the bar at `index`. -/
def trueRanges (bars : List Bar) : List ℚ :=
  List.zipWith (fun current previous => trueRange current previous.close) bars.tail bars

def wilderStep (current range : ℚ) : ℚ := cdiv (cadd (cmul 13 current) range) 14

/-- The values from bar 15 on.  The recursion continues from a value that is not
reported. -/
def atrTail : ℚ → List ℚ → List (Option ℚ)
  | _, [] => []
  | current, range :: ranges =>
    let next := wilderStep current range
    (if 0 < next then some next else none) :: atrTail next ranges

section

variable (bars : List Bar)

def atrSeed : ℚ := cdiv (csum ((trueRanges bars).take 14)) 14

/-- The body of `wilder_atr14_series`, after validation. -/
def atrValues : List (Option ℚ) :=
  if bars.length < 15 then List.replicate bars.length none
  else if atrSeed bars ≤ 0 then List.replicate bars.length none
  else List.replicate 14 none
    ++ some (atrSeed bars) :: atrTail (atrSeed bars) ((trueRanges bars).drop 14)

def wilderAtr14Series : Except KernelError (List (Option ℚ)) := do
  validateSeries bars
  pure (atrValues bars)

def wilderAtr14 : Except KernelError ℚ := do
  let values ← wilderAtr14Series bars
  match values.getLast? with
  | some (some value) => pure value
  | _ => throw .atrTooShort

/-- `median(item.volume for item in bars[-21:-1])`. -/
def previous20Median : ℚ := median ((lastN 21 bars).dropLast.map Bar.volume)

def medianPrevious20Volume : Except KernelError ℚ := do
  validateSeries bars
  if bars.length < 21 then throw .m20TooShort
  else if previous20Median bars < 0 then throw .m20Invalid
  else pure (previous20Median bars)

/-! ### Candle geometry -/

end

def clvLong (bar : Bar) : Except KernelError ℚ :=
  let span := csub bar.high bar.low
  if span ≤ 0 then .error .clvRange else .ok (cdiv (csub bar.close bar.low) span)

def clvShort (bar : Bar) : Except KernelError ℚ :=
  let span := csub bar.high bar.low
  if span ≤ 0 then .error .clvRange else .ok (cdiv (csub bar.high bar.close) span)

/-- Closes of the last nine bars, and the efficiency of the move between them. -/
def efficiencyOf (closes : List ℚ) : ℚ :=
  let denominator := csum (List.zipWith (fun left right => cabs (csub right left)) closes closes.tail)
  if denominator = 0 then 0
  else cdiv (cabs (csub (closes.getLast?.getD 0) (closes.head?.getD 0))) denominator

def directionalEfficiency8 (bars : List Bar) : Except KernelError ℚ := do
  validateSeries bars
  if bars.length < 9 then throw .er8TooShort
  else pure (efficiencyOf ((lastN 9 bars).map Bar.close))

/-- `bars[-1].close - bars[-9].close`. -/
def move8 (bars : List Bar) : ℚ :=
  let closes := (lastN 9 bars).map Bar.close
  csub (closes.getLast?.getD 0) (closes.head?.getD 0)

def directionalMove8 (bars : List Bar) (atr : ℚ) : Except KernelError ℚ := do
  validateSeries bars
  if bars.length < 9 ∨ atr ≤ 0 then throw .d8Invalid
  else pure (cdiv (move8 bars) atr)

/-! ### Pivots -/

def isPivotHigh (left pivot right : Bar) : Bool :=
  left.high < pivot.high ∧ right.high ≤ pivot.high

def isPivotLow (left pivot right : Bar) : Bool :=
  pivot.low < left.low ∧ pivot.low ≤ right.low

def pivotAt (test : Bar → Bar → Bar → Bool) (bars : List Bar) (index : ℕ) : Bool :=
  match bars[index - 1]?, bars[index]?, bars[index + 1]? with
  | some left, some pivot, some right => test left pivot right
  | _, _, _ => false

/-- Indices in `range(1, len(bars) - 1)` that pass the test. -/
def pivotIndices (test : Bar → Bar → Bar → Bool) (bars : List Bar) : List ℕ :=
  (List.range' 1 (bars.length - 2)).filter (pivotAt test bars)

def causalPivotHighIndices (bars : List Bar) : Except KernelError (List ℕ) := do
  validateSeries bars
  pure (pivotIndices isPivotHigh bars)

def causalPivotLowIndices (bars : List Bar) : Except KernelError (List ℕ) := do
  validateSeries bars
  pure (pivotIndices isPivotLow bars)

/-! ### Higher time frame context -/

/-- `HH`/`LH`/`EH` for highs and `HL`/`LL`/`EL` for lows. -/
inductive Swing
  | higher
  | lower
  | equal
deriving DecidableEq, Repr

def swing (first second epsilon : ℚ) : Swing :=
  if cadd first epsilon < second then .higher
  else if second < csub first epsilon then .lower
  else .equal

def momentumOf (er8 d8 : ℚ) : HtfMomentum :=
  if 35 / 100 ≤ er8 ∧ 75 / 100 ≤ d8 then .up
  else if 35 / 100 ≤ er8 ∧ d8 ≤ -75 / 100 then .down
  else .neutral

def structureOf (high low : Swing) : HtfStructure :=
  if high = .higher ∧ low = .higher then .up
  else if high = .lower ∧ low = .lower then .down
  else if (high = .lower ∨ high = .equal) ∧ (low = .higher ∨ low = .equal) then .range
  else .transition

/-- The structure read off the last two pivot highs and lows. -/
def pivotStructure (highs lows : List ℚ) (a1h : ℚ) : HtfStructure :=
  match lastN 2 highs, lastN 2 lows with
  | [firstHigh, secondHigh], [firstLow, secondLow] =>
    let epsilon := cmul (1 / 10) a1h
    structureOf (swing firstHigh secondHigh epsilon) (swing firstLow secondLow epsilon)
  | _, _ => .insufficient

def unavailableContext : HtfContext := ⟨.unavailable, .unavailable, none, none⟩

def htfContext (bars1h : List Bar) : Except KernelError HtfContext :=
  if bars1h = [] then .ok unavailableContext
  else do
    validateSeries bars1h (some .h1)
    let atr ← wilderAtr14Series bars1h
    match atr.getLast?.join with
    | none => pure unavailableContext
    | some a1h =>
      if bars1h.length < 9 then pure unavailableContext
      else
        let er8 ← directionalEfficiency8 bars1h
        let d8 ← directionalMove8 bars1h a1h
        let highs ← causalPivotHighIndices bars1h
        let lows ← causalPivotLowIndices bars1h
        let structural := pivotStructure (highs.filterMap fun i => bars1h[i]?.map Bar.high)
          (lows.filterMap fun i => bars1h[i]?.map Bar.low) a1h
        pure ⟨momentumOf er8 d8, structural, some er8, some d8⟩

def HtfMomentum.direction : HtfMomentum → ℤ
  | .up => 1
  | .down => -1
  | .neutral => 0
  | .unavailable => 0

def HtfStructure.direction : HtfStructure → ℤ
  | .up => 1
  | .down => -1
  | _ => 0

def htfRelation (context : HtfContext) (side : Side) : HtfRelation :=
  if context.momentum = .unavailable ∨ context.htfStructure = .unavailable then .contextIncomplete
  else
    let m := context.momentum.direction
    let s := context.htfStructure.direction
    let signal : ℤ := if side = .long then 1 else -1
    if m = signal ∧ s = signal then .alignedStrong
    else if (m = signal ∨ s = signal) ∧ (m = 0 ∨ s = 0) then .alignedPartial
    else if m = -signal ∧ s = -signal then .countertrendStrong
    else if (m = -signal ∨ s = -signal) ∧ (m = 0 ∨ s = 0) then .countertrendPartial
    else if (m = signal ∨ s = signal) ∧ (m = -signal ∨ s = -signal) then .conflicted
    else .neutral

end TraderAssist
