/-
TraderAssist/Scanner/Candidate.lean

Scanner R3 (`strategy_kernel/scanner.py`): what one closed 5m cadence discovers
in each market, and how a discovered breakout is advanced from bar to bar.

The levels a candidate id hashes keep their decimal representation; every other
number is a value.  The size of a tail is computed by the source in floats, and
is here: a count times a binary64 fraction, rounded to 53 bits.  The two version
constants of a candidate are left out of the record, since no function reads
them there.

Two facts are what later modules use: a discovered candidate with a breakout bar
is still open to progression (`observe_discovered`), and advancing a candidate
keeps its identity, its market and its breakout bar, and never turns a breakout
into a watch (`advance_advances`).
-/
import Mathlib.Data.Char
import TraderAssist.Kernel.Indicators
import TraderAssist.Lib.Dict

namespace TraderAssist

open Py

/-! ### Candidates -/

/-- `SESSION-MOMENTUM-R3`. -/
def scannerVersion : Text :=
  ['S', 'E', 'S', 'S', 'I', 'O', 'N', '-', 'M', 'O', 'M', 'E', 'N', 'T', 'U', 'M', '-', 'R', '3']

inductive ScannerError
  | kernel (error : KernelError)
  | returnsTooShort
  | metricsTooShort
  | indexError
  | divisionByZero
  | breakoutBarAbsent
  | directionless
deriving DecidableEq, Repr

inductive ScannerChase
  | early
  | late
  | rejected
deriving DecidableEq, Repr

inductive ScannerReason
  | history64To287
  | breakoutDetected
  | topOrBottom15PercentAndMoveAtr
  | topOrBottom20PercentNearLevel
  | returnedInsideRange
  | invalidationInsideRange
  | retestWindowEnded
  | retestConfirmed
  | retestConfirmedDoNotChase
  | chaseDistanceAbove150
  | chaseDistanceAbove075
  | retestTouchPending
  | retestNotTouched
deriving DecidableEq, Repr

inductive ScannerCandidateClass
  | discoveryOnly
  | progressionEligible
  | terminal
deriving DecidableEq, Repr

namespace ScannerState

def value : ScannerState → Text
  | watchMomentum => "WATCH_MOMENTUM".toList
  | watchNearLevel => "WATCH_NEAR_LEVEL".toList
  | watchNewMarket => "WATCH_NEW_MARKET".toList
  | breakoutDetected => "BREAKOUT_DETECTED".toList
  | retestPending => "RETEST_PENDING".toList
  | breakoutRetestReady => "BREAKOUT_RETEST_READY".toList
  | failedBreakoutSweepWatch => "FAILED_BREAKOUT_SWEEP_WATCH".toList
  | failedInvalidatedInsideRange => "FAILED_INVALIDATED_INSIDE_RANGE".toList
  | lateWatch => "LATE_WATCH".toList
  | rejectedChaseForAction => "REJECTED_CHASE_FOR_ACTION".toList
  | expiredNoRetest => "EXPIRED_NO_RETEST".toList

/-- `classify_scanner_state`. -/
def classify : ScannerState → ScannerCandidateClass
  | watchMomentum | watchNearLevel | watchNewMarket => .discoveryOnly
  | breakoutDetected | retestPending | lateWatch | rejectedChaseForAction => .progressionEligible
  | breakoutRetestReady | failedBreakoutSweepWatch | failedInvalidatedInsideRange
  | expiredNoRetest => .terminal

end ScannerState

/-- `ScannerCandidate`; a transition `a->b` is the pair of its ends, with `none`
for `NEW`. -/
structure ScannerCandidate (δ : Type) where
  candidateId : δ
  marketId : Text
  side : Option Side
  state : ScannerState
  createdBarOpenTimeMs : ℕ
  breakoutBarOpenTimeMs : Option ℕ
  breakoutLevel : Option Decimal
  breakoutBuffer : Option ℚ
  secondaryLevelBroken : Bool
  retestTouchBarOpenTimeMs : Option ℕ
  chase : Option ScannerChase
  chaseDistanceAtr : Option ℚ
  reason : ScannerReason
  transitions : List (Option ScannerState × ScannerState)
deriving DecidableEq

variable {δ : Type}

/-- A breakout path that the next boundary has to advance. -/
def ScannerCandidate.Live (c : ScannerCandidate δ) : Prop :=
  c.breakoutBarOpenTimeMs ≠ none ∧ c.state.classify = .progressionEligible

instance (c : ScannerCandidate δ) : Decidable c.Live := by
  unfold ScannerCandidate.Live
  infer_instance

structure ScannerMarketInput where
  marketId : Text
  bars5m : List Bar
  minimumTick : ℚ
  currentSpreadPrice : ℚ
  liquidityHealthy : Bool
  btcReturns : Option ℚ × Option ℚ × Option ℚ := (none, none, none)
  historyCount : Option ℕ := none
  exactWilderAtr5m : Option ℚ := none

structure ScannerMetrics where
  returns : ℚ × ℚ × ℚ
  relativeUniverse : ℚ × ℚ × ℚ
  relativeBtc : Option ℚ × Option ℚ × Option ℚ
  moveAtr : ℚ × ℚ × ℚ
  relativeVolume5m : ℚ
  er : ℚ × ℚ × ℚ
  priorHigh12 : Decimal
  priorLow12 : Decimal
  priorHigh36 : Decimal
  priorLow36 : Decimal

structure ScannerObservation (δ : Type) where
  marketId : Text
  metrics : Option ScannerMetrics
  candidate : Option (ScannerCandidate δ)

/-! ### Readings of one market -/

/-- `bars[-1 - offset]`. -/
def barBack (bars : List Bar) (offset : ℕ) : Except ScannerError Bar :=
  match bars.reverse[offset]? with
  | some bar => .ok bar
  | none => .error .indexError

def divideBy (x y : ℚ) : Except ScannerError ℚ :=
  if y = 0 then .error .divisionByZero else .ok (cdiv x y)

/-- `wilder_atr14(bars) if given is None else given`. -/
def atrOr (given : Option ℚ) (bars : List Bar) : Except ScannerError ℚ :=
  (givenOr given (wilderAtr14 bars)).mapError .kernel

namespace ScannerMarketInput

/-- `_history_count`. -/
def history (item : ScannerMarketInput) : ℕ := item.historyCount.getD item.bars5m.length

/-- `_exact_atr`. -/
def exactAtr (item : ScannerMarketInput) : Except ScannerError ℚ :=
  atrOr item.exactWilderAtr5m item.bars5m

end ScannerMarketInput

/-- The same reading at the offsets 3, 6 and 12. -/
def overHorizons (f : ℕ → Except ScannerError ℚ) : Except ScannerError (ℚ × ℚ × ℚ) := do
  pure (← f 3, ← f 6, ← f 12)

/-- `_returns`. -/
def closeReturns (bars : List Bar) : Except ScannerError (ℚ × ℚ × ℚ) := do
  require (13 ≤ bars.length) .returnsTooShort
  let current ← barBack bars 0
  overHorizons fun offset => do
    let earlier ← barBack bars offset
    pure (csub (← divideBy current.close earlier.close) 1)

def priorHigh : List Bar → Except ScannerError Decimal
  | [] => .error .indexError
  | bar :: bars => .ok (Decimal.maxFirst bar.highRepr (bars.map Bar.highRepr))

def priorLow : List Bar → Except ScannerError Decimal
  | [] => .error .indexError
  | bar :: bars => .ok (Decimal.minFirst bar.lowRepr (bars.map Bar.lowRepr))

/-- `efficiency(offset)`. -/
def efficiency (bars : List Bar) (offset : ℕ) : Except ScannerError ℚ := do
  let selected := lastN (offset + 1) bars
  let denominator := csum ((selected.zip selected.tail).map fun p => cabs (csub p.2.close p.1.close))
  let last ← barBack bars 0
  let first ← barBack bars offset
  pure (if denominator = 0 then 0 else cdiv (cabs (csub last.close first.close)) denominator)

/-- `_metrics`. -/
def metricsOf (item : ScannerMarketInput) (medians : ℚ × ℚ × ℚ) :
    Except ScannerError ScannerMetrics := do
  let bars := item.bars5m
  require (37 ≤ bars.length) .metricsTooShort
  let atr ← item.exactAtr
  let returns ← closeReturns bars
  let current ← barBack bars 0
  let moves ← overHorizons fun offset => do
    let earlier ← barBack bars offset
    divideBy (cabs (csub current.close earlier.close)) atr
  let m20 ← (medianPrevious20Volume bars).mapError .kernel
  let er ← overHorizons (efficiency bars)
  let previous12 := (lastN 13 bars).dropLast
  let previous36 := (lastN 37 bars).dropLast
  pure
    { returns := returns
      relativeUniverse := (csub returns.1 medians.1, csub returns.2.1 medians.2.1,
        csub returns.2.2 medians.2.2)
      relativeBtc := (item.btcReturns.1.map (csub returns.1),
        item.btcReturns.2.1.map (csub returns.2.1), item.btcReturns.2.2.map (csub returns.2.2))
      moveAtr := moves
      relativeVolume5m := if m20 = 0 then 0 else cdiv current.volume m20
      er := er
      priorHigh12 := ← priorHigh previous12
      priorLow12 := ← priorLow previous12
      priorHigh36 := ← priorHigh previous36
      priorLow36 := ← priorLow previous36 }

/-! ### The cross section -/

/-- `n * (m / 2 ^ 55)` in binary64, times `2 ^ 55`: the product kept to 53
significant bits. -/
def binary64Scaled (n m : ℕ) : ℕ :=
  let dropped := (n * m).log2 + 1 - 53
  divHalfEven (n * m) (2 ^ dropped) * 2 ^ dropped

/-- `max(1, ceil(n * float(fraction)))`, for the fraction `m / 2 ^ 55`. -/
def tailCount (n m : ℕ) : ℕ := max 1 ((binary64Scaled n m + (2 ^ 55 - 1)) / 2 ^ 55)

/-- `float(Decimal("0.15")) * 2 ** 55`. -/
def fraction015 : ℕ := 5404319552844595

/-- `float(Decimal("0.20")) * 2 ** 55`. -/
def fraction020 : ℕ := 7205759403792794

/-- The lower and the upper tail. -/
structure Tails where
  lower : List Text
  upper : List Text

/-- `_tail_members`. -/
def tailMembers (values : Dict Text ℚ) (fraction : ℕ) : Tails :=
  let count := tailCount values.entries.length fraction
  let ordered := (sortBy (fun e => toLex (e.2, e.1)) values.entries).map Prod.fst
  ⟨ordered.take count, lastN count ordered⟩

/-- What the cross section says of one market. -/
structure Standing where
  medians : ℚ × ℚ × ℚ
  longRank : Bool
  shortRank : Bool
  longTail20 : Bool
  shortTail20 : Bool

/-- `_candidate_id`. -/
def scannerCandidateId (sha256 : Preimage δ → δ) (marketId : Text) (side : Option Side)
    (state : ScannerState) (bar : Bar) (level : Option Decimal) : δ :=
  sha256 (lit (marketId ++ side.elim "NO_DIRECTION".toList Side.value ++ state.value)
    ++ (hex (bar.candleId sha256)
      ++ lit (level.elim "None".toList Decimal.str ++ scannerVersion ++ parameterVersion)))

/-- `_chase`. -/
def chaseOf (distance : ℚ) : ScannerChase :=
  if distance ≤ 3 / 4 then .early else if distance ≤ 3 / 2 then .late else .rejected

/-- The state a breakout is discovered in. -/
def breakoutState : ScannerChase → ScannerState
  | .rejected => .rejectedChaseForAction
  | .late => .lateWatch
  | .early => .breakoutDetected

/-- `_breakout`. -/
def breakout (sha256 : Preimage δ → δ) (item : ScannerMarketInput) (metrics : ScannerMetrics)
    (side : Side) : Except ScannerError (Option (ScannerCandidate δ)) := do
  let current ← barBack item.bars5m 0
  let atr ← item.exactAtr
  let buffer := max (max (cmul (1 / 10) atr) (cmul 2 item.currentSpreadPrice))
    (cmul 2 item.minimumTick)
  let level := side.pick metrics.priorHigh12 metrics.priorLow12
  let beyond (long short : Decimal) : Bool :=
    side.pick (decide (cadd long.toRat buffer < current.close))
      (decide (current.close < csub short.toRat buffer))
  if beyond level level then do
    let distance ← divideBy (cabs (csub current.close level.toRat)) atr
    let state := breakoutState (chaseOf distance)
    pure (some
      { candidateId := scannerCandidateId sha256 item.marketId side .breakoutDetected current level
        marketId := item.marketId
        side := side
        state := state
        createdBarOpenTimeMs := current.openTimeMs
        breakoutBarOpenTimeMs := current.openTimeMs
        breakoutLevel := level
        breakoutBuffer := buffer
        secondaryLevelBroken := beyond metrics.priorHigh36 metrics.priorLow36
        retestTouchBarOpenTimeMs := none
        chase := chaseOf distance
        chaseDistanceAtr := distance
        reason := .breakoutDetected
        transitions := [(none, state)] })
  else pure none

/-- A breakout is looked for only on a side the market ranks for. -/
def breakoutIf (ready : Bool) (sha256 : Preimage δ → δ) (item : ScannerMarketInput)
    (metrics : ScannerMetrics) (side : Side) : Except ScannerError (Option (ScannerCandidate δ)) :=
  if ready then breakout sha256 item metrics side else pure none

section

variable (sha256 : Preimage δ → δ)

/-- The watch candidates: no breakout bar, no chase. -/
def watch (marketId : Text) (current : Bar) (side : Option Side)
    (state : ScannerState) (level : Option Decimal) (reason : ScannerReason) :
    ScannerCandidate δ where
  candidateId := scannerCandidateId sha256 marketId side state current level
  marketId := marketId
  side := side
  state := state
  createdBarOpenTimeMs := current.openTimeMs
  breakoutBarOpenTimeMs := none
  breakoutLevel := level
  breakoutBuffer := none
  secondaryLevelBroken := false
  retestTouchBarOpenTimeMs := none
  chase := none
  chaseDistanceAtr := none
  reason := reason
  transitions := [(none, state)]

/-- The last branch of the loop: near a level and in a 20 percent tail. -/
def watchNear (item : ScannerMarketInput) (metrics : ScannerMetrics)
    (standing : Standing) : Except ScannerError (Option (ScannerCandidate δ)) := do
  let current ← barBack item.bars5m 0
  let atr ← item.exactAtr
  let near (level12 level36 : Decimal) : Bool :=
    min (cabs (csub current.close level12.toRat)) (cabs (csub current.close level36.toRat))
      ≤ cmul (35 / 100) atr
  let longNear := near metrics.priorHigh12 metrics.priorHigh36 && standing.longTail20
  let shortNear := near metrics.priorLow12 metrics.priorLow36 && standing.shortTail20
  if longNear || shortNear then
    pure (some (watch sha256 item.marketId current (some (if longNear then .long else .short))
      .watchNearLevel (some (if longNear then metrics.priorHigh12 else metrics.priorLow12))
      .topOrBottom20PercentNearLevel))
  else pure none

/-- The candidate of a mature market. -/
def discover (item : ScannerMarketInput) (metrics : ScannerMetrics)
    (standing : Standing) : Except ScannerError (Option (ScannerCandidate δ)) := do
  let moveReady : Bool := 60 / 100 ≤ metrics.moveAtr.1 ∨ 90 / 100 ≤ metrics.moveAtr.2.1
    ∨ 120 / 100 ≤ metrics.moveAtr.2.2
  let long ← breakoutIf (standing.longRank && moveReady) sha256 item metrics .long
  let short ← breakoutIf (long.isNone && standing.shortRank && moveReady) sha256 item metrics .short
  if (long.or short).isSome then pure (long.or short)
  else if (standing.longRank || standing.shortRank) && moveReady then do
    let current ← barBack item.bars5m 0
    pure (some (watch sha256 item.marketId current
      (some (if standing.longRank then .long else .short)) .watchMomentum none
      .topOrBottom15PercentAndMoveAtr))
  else watchNear sha256 item metrics standing

/-- The body of the loop of `scan_cross_section`. -/
def observe (standing : Text → Standing) (item : ScannerMarketInput) :
    Except ScannerError (ScannerObservation δ) :=
  if item.history < 64 ∨ item.liquidityHealthy = false then .ok ⟨item.marketId, none, none⟩
  else if item.history < 288 then do
    let current ← barBack item.bars5m 0
    pure ⟨item.marketId, none,
      some (watch sha256 item.marketId current none .watchNewMarket none .history64To287)⟩
  else do
    let metrics ← metricsOf item (standing item.marketId).medians
    let candidate ← discover sha256 item metrics (standing item.marketId)
    pure ⟨item.marketId, some metrics, candidate⟩

end

/-- `return_maps[horizon]`. -/
def returnMap (returns : List (Text × (ℚ × ℚ × ℚ))) (horizon : ℚ × ℚ × ℚ → ℚ) : Dict Text ℚ :=
  Dict.ofPairs (returns.map fun e => (e.1, horizon e.2))

/-- The medians and the tails, read for one market. -/
def standingOf (returns : List (Text × (ℚ × ℚ × ℚ))) (marketId : Text) : Standing :=
  let maps := [returnMap returns Prod.fst, returnMap returns fun r => r.2.1,
    returnMap returns fun r => r.2.2]
  let mid (horizon : ℚ × ℚ × ℚ → ℚ) : ℚ :=
    let values := (returnMap returns horizon).values
    if values = [] then 0 else median values
  let upper (fraction : ℕ) := maps.any fun m => marketId ∈ (tailMembers m fraction).upper
  let lower (fraction : ℕ) := maps.any fun m => marketId ∈ (tailMembers m fraction).lower
  { medians := (mid Prod.fst, mid fun r => r.2.1, mid fun r => r.2.2)
    longRank := upper fraction015
    shortRank := lower fraction015
    longTail20 := upper fraction020
    shortTail20 := lower fraction020 }

def scanCrossSection (sha256 : Preimage δ → δ) (inputs : List ScannerMarketInput) :
    Except ScannerError (List (ScannerObservation δ)) := do
  let usable := inputs.filter fun item =>
    64 ≤ item.history ∧ item.liquidityHealthy = true ∧ 13 ≤ item.bars5m.length
  let returns ← usable.mapM fun item => do
    pure (item.marketId, ← closeReturns item.bars5m)
  (sortBy ScannerMarketInput.marketId inputs).mapM (observe sha256 (standingOf returns))

/-! ### Progression -/

namespace ScannerCandidate

/-- `replace(candidate, state=…, reason=…, transitions=(*…, …))`. -/
def closeAs (c : ScannerCandidate δ) (state : ScannerState) (reason : ScannerReason) :
    ScannerCandidate δ :=
  { c with state := state, reason := reason, transitions := c.transitions ++ [(some c.state, state)] }

/-- The bars since the breakout: from its place in the history, or from the
clock once it has left the history. -/
def elapsed (breakoutBar : ℕ) (bars : List Bar) (current : Bar) : Except ScannerError ℕ :=
  -- the last bar at that time, counted from the end
  match bars.reverse.findIdx? fun bar => bar.openTimeMs = breakoutBar with
  | some index => .ok index
  | none =>
    if current.openTimeMs ≤ breakoutBar + 12 * fiveMinutesMs
        ∨ (current.openTimeMs - breakoutBar) % fiveMinutesMs ≠ 0 then .error .breakoutBarAbsent
    else .ok ((current.openTimeMs - breakoutBar) / fiveMinutesMs)

/-- `close` is back inside the range by `fraction` of the ATR. -/
def backInside (side : Side) (close level fraction atr : ℚ) : Prop :=
  side.pick (close ≤ csub level (cmul fraction atr)) (cadd level (cmul fraction atr) ≤ close)

instance (side : Side) (close level fraction atr : ℚ) :
    Decidable (backInside side close level fraction atr) := by
  cases side <;> exact inferInstanceAs (Decidable (_ ≤ _))

/-- The state and the reason of a path that neither failed nor expired. -/
def pendingState (chase : ScannerChase) (touched afterTouch confirmed liquidityHealthy : Bool) :
    ScannerState × ScannerReason :=
  if afterTouch && confirmed && chase != .rejected && liquidityHealthy then
    (.breakoutRetestReady, if chase = .early then .retestConfirmed else .retestConfirmedDoNotChase)
  else match chase with
    | .rejected => (.rejectedChaseForAction, .chaseDistanceAbove150)
    | .late => (.lateWatch, .chaseDistanceAbove075)
    | .early => (.retestPending, if touched then .retestTouchPending else .retestNotTouched)

section

variable (c : ScannerCandidate δ)

/-- The end of `advance_scanner_candidate`. -/
def retest (side : Side) (current : Bar) (level atr spread : ℚ)
    (liquidityHealthy : Bool) : Except ScannerError (ScannerCandidate δ) := do
  let halfWidth := max (cmul (1 / 4) atr) (cmul 2 spread)
  let touched : Bool := current.low ≤ cadd level halfWidth ∧ csub level halfWidth ≤ current.high
  let touchTime := match c.retestTouchBarOpenTimeMs with
    | some time => some time
    | none => if touched then some current.openTimeMs else none
  let distance ← divideBy (cabs (csub current.close level)) atr
  let afterTouch : Bool := touchTime.any fun time => time < current.openTimeMs
  let confirmed : Bool := side.pick (decide (level < current.close)) (decide (current.close < level))
  let next := pendingState (chaseOf distance) touchTime.isSome afterTouch confirmed liquidityHealthy
  pure { c with
    state := next.1
    retestTouchBarOpenTimeMs := touchTime
    chase := some (chaseOf distance)
    chaseDistanceAtr := some distance
    reason := next.2
    transitions := if next.1 = c.state then c.transitions
      else c.transitions ++ [(some c.state, next.1)] }

/-- `advance_scanner_candidate`, past the returns of an unchanged candidate. -/
def progress (level : ℚ) (elapsed : ℕ) (bars : List Bar) (current : Bar)
    (spread : ℚ) (liquidityHealthy : Bool) (exactAtr : Option ℚ) :
    Except ScannerError (ScannerCandidate δ) := do
  let atr ← atrOr exactAtr bars
  match c.side with
  | none => throw .directionless
  | some side =>
    if elapsed ≤ 6 ∧ backInside side current.close level (1 / 10) atr
        ∧ liquidityHealthy = true then
      pure (c.closeAs .failedBreakoutSweepWatch .returnedInsideRange)
    else if backInside side current.close level (1 / 4) atr then
      pure (c.closeAs .failedInvalidatedInsideRange .invalidationInsideRange)
    else if 12 < elapsed then pure (c.closeAs .expiredNoRetest .retestWindowEnded)
    else c.retest side current level atr spread liquidityHealthy

/-- `advance_scanner_candidate`. -/
def advance (bars : List Bar) (spread : ℚ) (liquidityHealthy : Bool)
    (exactAtr : Option ℚ) : Except ScannerError (ScannerCandidate δ) :=
  match c.breakoutBarOpenTimeMs, c.breakoutLevel with
  | some breakoutBar, some level =>
    if c.state.classify = .terminal then .ok c
    else do
      let current ← barBack bars 0
      let elapsed ← elapsed breakoutBar bars current
      if elapsed = 0 then pure c
      else c.progress level.toRat elapsed bars current spread liquidityHealthy exactAtr
  | _, _ => .ok c

end

end ScannerCandidate

/-! ### What discovery and progression can produce -/

/-- A candidate of its own market that, if it is a breakout, is live. -/
def ScannerObservation.Discovered (o : ScannerObservation δ) : Prop :=
  ∀ c ∈ o.candidate, c.marketId = o.marketId ∧ (c.breakoutBarOpenTimeMs ≠ none → c.Live)

theorem classify_breakoutState (chase : ScannerChase) :
    (breakoutState chase).classify = .progressionEligible := by
  cases chase <;> rfl

/-- What a branch of the discovery returns for `item`. -/
def Finds (item : ScannerMarketInput) (found : Option (ScannerCandidate δ)) : Prop :=
  ∀ c ∈ found, c.marketId = item.marketId ∧ (c.breakoutBarOpenTimeMs ≠ none → c.Live)

variable {sha256 : Preimage δ → δ} {item : ScannerMarketInput}

theorem finds_watch {current : Bar} {side : Option Side} {state : ScannerState}
    {level : Option Decimal} {reason : ScannerReason} :
    Finds item (some (watch sha256 item.marketId current side state level reason)) := by
  intro c hc
  obtain rfl := Option.mem_some_iff.mp hc
  exact ⟨rfl, fun h => absurd rfl h⟩

theorem finds_none : Sat (pure none : Except ScannerError (Option (ScannerCandidate δ))) (Finds item)
      fun _ => True := by
  intro c hc
  cases hc

theorem breakout_finds (sha256 : Preimage δ → δ) (item : ScannerMarketInput)
    (metrics : ScannerMetrics) (side : Side) :
    Sat (breakout sha256 item metrics side) (Finds item) fun _ => True := by
  refine Sat.after fun current _ => ?_
  refine Sat.after fun atr _ => ?_
  dsimp only
  split
  · refine Sat.after fun distance _ => ?_
    intro c hc
    obtain rfl := Option.mem_some_iff.mp hc
    exact ⟨rfl, fun _ => ⟨by simp, classify_breakoutState _⟩⟩
  · exact finds_none

variable {P : Option (ScannerCandidate δ) → Prop}

/-- **The rule of discovery**: what holds of nothing, of every watch of the market and of every
breakout holds of what is discovered. -/
theorem discover_sat {E : ScannerError → Prop} (hnone : P none)
    (hwatch : ∀ current side state level reason, P (some (watch sha256 item.marketId current side state level reason)))
    (hlast : ∀ e, barBack item.bars5m 0 = .error e → E e) (hatr : ∀ e, item.exactAtr = .error e → E e)
    (hbrk : ∀ metrics side, Sat (breakout sha256 item metrics side) P E)
    (metrics : ScannerMetrics) (standing : Standing) : Sat (discover sha256 item metrics standing) P E := by
  have hif : ∀ ready side, Sat (breakoutIf ready sha256 item metrics side) P E := by
    intro ready side
    cases ready
    · exact hnone
    · exact hbrk metrics side
  refine (hif _ .long).bind fun long hlong => ?_
  refine (hif _ .short).bind fun short hsh => ?_
  split
  · rcases long with - | c
    · exact hsh
    · exact hlong
  split
  · refine (Sat.self hlast).bind fun current _ => ?_
    exact hwatch _ _ _ _ _
  · refine (Sat.self hlast).bind fun current _ => ?_
    refine (Sat.self hatr).bind fun atr _ => ?_
    dsimp only
    split
    · exact hwatch _ _ _ _ _
    · exact hnone

/-- The same of the candidate of an observation. -/
theorem observe_sat (hnone : P none)
    (hwatch : ∀ current side state level reason, P (some (watch sha256 item.marketId current side state level reason)))
    (hbrk : ∀ metrics side, Sat (breakout sha256 item metrics side) P fun _ => True)
    (standing : Text → Standing) :
    Sat (observe sha256 standing item) (fun o => o.marketId = item.marketId ∧ P o.candidate) fun _ => True := by
  unfold observe
  split_ifs
  · exact ⟨rfl, hnone⟩
  · refine Sat.after fun current _ => ?_
    exact ⟨rfl, hwatch _ _ _ _ _⟩
  · refine Sat.after fun metrics _ => ?_
    exact Sat.bind (discover_sat hnone hwatch (fun _ _ => trivial) (fun _ _ => trivial) hbrk metrics _)
      fun candidate hcand => ⟨rfl, hcand⟩

/-- **A discovered breakout is live**, whatever the cross section says. -/
theorem observe_discovered (sha256 : Preimage δ → δ) (standing : Text → Standing)
    (item : ScannerMarketInput) :
    Sat (observe sha256 standing item) ScannerObservation.Discovered fun _ => True := by
  refine Sat.mono (observe_sat (P := Finds item) (fun _ hc => by cases hc) (fun _ _ _ _ _ => finds_watch)
    (breakout_finds sha256 item) standing) (fun o ho c hc => ?_) fun _ h => h
  rw [ho.1]
  exact ho.2 c hc

theorem scanCrossSection_discovered {inputs : List ScannerMarketInput}
    {observations : List (ScannerObservation δ)} (h : scanCrossSection sha256 inputs = .ok observations) :
    ∀ o ∈ observations, o.Discovered := by
  obtain ⟨returns, -, h⟩ := of_bind h
  intro o ho
  obtain ⟨item, -, hitem⟩ := mem_of_mapM h o ho
  exact (observe_discovered sha256 _ item).of_ok hitem

/-- What progression keeps of a candidate. -/
structure ScannerCandidate.Advances (c c' : ScannerCandidate δ) : Prop where
  candidateId : c'.candidateId = c.candidateId
  marketId : c'.marketId = c.marketId
  breakoutBar : c'.breakoutBarOpenTimeMs = c.breakoutBarOpenTimeMs
  settled : c.state.classify ≠ .discoveryOnly → c'.state.classify ≠ .discoveryOnly

namespace ScannerCandidate

variable {c : ScannerCandidate δ}

theorem Advances.refl (c : ScannerCandidate δ) : Advances c c := ⟨rfl, rfl, rfl, id⟩

theorem advances_closeAs {state : ScannerState} (reason : ScannerReason)
    (hsta : state.classify = .terminal) : Advances c (c.closeAs state reason) := by
  refine ⟨rfl, rfl, rfl, fun _ h => ?_⟩
  have hterm : (c.closeAs state reason).state.classify = .terminal := hsta
  rw [hterm] at h
  cases h

theorem classify_pendingState (chase : ScannerChase) (touched afterTouch confirmed liquidityHealthy : Bool) :
    (pendingState chase touched afterTouch confirmed liquidityHealthy).1.classify ≠ .discoveryOnly := by
  unfold pendingState
  split
  · simp [ScannerState.classify]
  · cases chase <;> simp [ScannerState.classify]

theorem progress_advances (level : ℚ) (elapsed : ℕ) (bars : List Bar) (current : Bar) (spread : ℚ)
    (liquidityHealthy : Bool) (exactAtr : Option ℚ) :
    Sat (c.progress level elapsed bars current spread liquidityHealthy exactAtr) (Advances c)
      fun _ => True := by
  refine Sat.after fun atr _ => ?_
  rcases c.side with - | side
  · trivial
  · dsimp only
    split_ifs
    · exact advances_closeAs _ rfl
    · exact advances_closeAs _ rfl
    · exact advances_closeAs _ rfl
    · refine Sat.after fun distance _ => ?_
      exact ⟨rfl, rfl, rfl, fun _ => classify_pendingState _ _ _ _ _⟩

/-- **Progression keeps the path**: the identity, the market and the breakout
bar stay, and the state is never a watch again. -/
theorem advance_advances (bars : List Bar) (spread : ℚ) (liquidityHealthy : Bool) (exactAtr : Option ℚ) :
    Sat (c.advance bars spread liquidityHealthy exactAtr) (Advances c) fun _ => True := by
  unfold advance
  split
  · split_ifs
    · exact Advances.refl c
    · refine Sat.after fun current _ => ?_
      refine Sat.after fun elapsed _ => ?_
      split_ifs
      · exact Advances.refl c
      · exact progress_advances _ _ _ _ _ _ _
  · exact Advances.refl c

end ScannerCandidate

end TraderAssist
