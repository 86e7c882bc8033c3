/-
TraderAssist/Kernel/Setups.lean

The three formal setups of `strategy_kernel/engine.py`: the candidate tests, the
events they create, and how an ACTIVE event moves on with the next bar.

`0.05 * a5` and the like are `cmul (5 / 100) a5`: a product in the decimal
context.  Conditions that may raise (`clv_long` of a candle without range)
are evaluated in the order of the source, and only when the ones before hold.
-/
import TraderAssist.Kernel.Zones

namespace TraderAssist

open Py

variable {δ : Type} (sha256 : Preimage δ → δ)

def marketEventId (marketId : Text) (zoneId : δ) (side : Side) (firstAttack5mCandleId : δ) : δ :=
  sha256 (lit marketId ++ hex zoneId ++ lit side.value ++ hex firstAttack5mCandleId
    ++ lit strategyVersion ++ lit parameterVersion)

/-! ### Decisions -/

def decisionOf (event : MarketEvent δ) (kind : DecisionKind) (reason : Reason)
    (transition : Transition) : Except KernelError (StrategyDecision δ) :=
  let retest := if event.formalMode = some .standard then event.retestType else none
  match h : checkModes kind event.setupFamily event.formalMode retest with
  | .error e => .error e
  | .ok () => .ok
    { marketId := event.marketId
      setupFamily := event.setupFamily
      setupMode := event.formalMode
      retestType := retest
      side := event.side
      decision := kind
      reason := reason
      marketEventId := event.marketEventId
      zoneSnapshot := event.zone
      a5Event := event.a5Event
      m20Event := event.m20Event
      htfRelation := event.htfRelation
      breakoutLinkage := event.breakoutLinkage
      idealEntryLow := event.idealEntryLow
      idealEntryHigh := event.idealEntryHigh
      chaseLimit := event.chaseLimit
      structuralStop := event.structuralStop
      targetReference := event.targetReference
      transition := transition
      scannerLinkage := event.scannerLinkage
      modes := h }

/-- `evolve(status=..., transition=..., latest_bar=bar)`. -/
def MarketEvent.conclude (event : MarketEvent δ) (status : EventStatus) (transition : Transition)
    (bar : Bar) : MarketEvent δ :=
  { event with status := status, transition := transition, latestBar := bar }

/-- What a progress step returns: the evolved event and perhaps a decision. -/
abbrev Progress (δ : Type) := MarketEvent δ × Option (StrategyDecision δ)

/-- `updated, _decision(updated, ...)`. -/
def withDecision (updated : MarketEvent δ) (kind : DecisionKind) (reason : Reason) :
    Except KernelError (Progress δ) := do
  let decision ← decisionOf updated kind reason updated.transition
  pure (updated, some decision)

def eligible (zone : ZoneSnapshot δ) (zoneType : ZoneType) : Bool :=
  zone.zoneType = zoneType ∧ ZoneQuality.zq2.rank ≤ zone.quality.rank
    ∧ zone.activeForNewEvent ∧ !zone.suppressed

/-! ### Sweep and reclaim -/

def sweepCandidate (bar : Bar) (zone : ZoneSnapshot δ) (side : Side) (a5 : ℚ) : Bool :=
  match side with
  | .long =>
    let excursion := csub zone.low bar.low
    (cmul (10 / 100) a5 ≤ excursion ∧ excursion ≤ cmul (75 / 100) a5)
      ∧ cadd zone.low (cmul (5 / 100) a5) ≤ bar.close
  | .short =>
    let excursion := csub bar.high zone.high
    (cmul (10 / 100) a5 ≤ excursion ∧ excursion ≤ cmul (75 / 100) a5)
      ∧ bar.close ≤ csub zone.high (cmul (5 / 100) a5)

/-- Entry range, chase limit and stop of a setup. -/
structure Terms where
  idealLow : ℚ
  idealHigh : ℚ
  chase : ℚ
  stop : ℚ

def sweepTerms (bar : Bar) (zone : ZoneSnapshot δ) (side : Side) (a5 : ℚ) : Terms :=
  match side with
  | .long =>
    { idealLow := cadd zone.low (cmul (5 / 100) a5)
      idealHigh := min zone.center (cadd zone.low (cmul (25 / 100) a5))
      chase := cadd zone.low (cmul (35 / 100) a5)
      stop := csub bar.low (cmul (10 / 100) a5) }
  | .short =>
    { idealLow := max zone.center (csub zone.high (cmul (25 / 100) a5))
      idealHigh := csub zone.high (cmul (5 / 100) a5)
      chase := csub zone.high (cmul (35 / 100) a5)
      stop := cadd bar.high (cmul (10 / 100) a5) }

def newSweep (bar : Bar) (zone : ZoneSnapshot δ) (side : Side) (a5 m20 : ℚ)
    (relation : HtfRelation) (scannerLinkage : Option ScannerLinkage)
    (breakoutLinkage : Option (BreakoutLinkage δ)) : MarketEvent δ :=
  let terms := sweepTerms bar zone side a5
  { marketEventId := marketEventId sha256 bar.marketId zone.zoneId side (bar.candleId sha256)
    marketId := bar.marketId
    setupFamily := .sweepReclaim
    side := side
    status := .active
    transition := .sweepCandidateCreated
    zone := zone
    createdBar := bar
    latestBar := bar
    a5Event := a5
    m20Event := m20
    htfRelation := relation
    scannerLinkage := scannerLinkage
    breakoutLinkage := breakoutLinkage
    reclaimCandleHigh := some bar.high
    reclaimCandleLow := some bar.low
    sweepExtreme := some (side.pick bar.low bar.high)
    previousClose := some bar.close
    previousHigh := some bar.high
    previousLow := some bar.low
    idealEntryLow := some terms.idealLow
    idealEntryHigh := some terms.idealHigh
    chaseLimit := some terms.chase
    structuralStop := some terms.stop
    targetReference := some ⟨.sourceZoneCenter, some zone.center, some zone.zoneId, []⟩ }

def progressSweep (event : MarketEvent δ) (bar : Bar) : Except KernelError (Progress δ) :=
  match event.sweepExtreme, event.reclaimCandleHigh, event.reclaimCandleLow with
  | some sweepExtreme, some reclaimHigh, some reclaimLow =>
    let a5 := event.a5Event
    let isNewExtreme : Bool := event.side.pick
      (bar.low < sweepExtreme)
      (sweepExtreme < bar.high)
    let invalidated : Bool := event.side.pick
      (bar.close ≤ csub event.zone.low (cmul (5 / 100) a5))
      (cadd event.zone.high (cmul (5 / 100) a5) ≤ bar.close)
    let confirmed : Bool := event.side.pick
      (reclaimHigh < bar.close ∧ sweepExtreme < bar.low
        ∧ cadd event.zone.low (cmul (5 / 100) a5) ≤ bar.close)
      (bar.close < reclaimLow ∧ bar.high < sweepExtreme
        ∧ bar.close ≤ csub event.zone.high (cmul (5 / 100) a5))
    if isNewExtreme && sweepCandidate bar event.zone event.side a5 then
      withDecision (event.conclude .superseded .supersededByNewIndependentEvent bar)
        .superseded .supersededByNewIndependentEvent
    else if invalidated then
      withDecision (event.conclude .invalidated .invalidatedAcceptedOutside bar)
        .invalidated .invalidatedAcceptedOutside
    else if confirmed then
      withDecision (event.conclude .confirmed .formalSetupConfirmed bar)
        .formalSetupConfirmed .sweepReclaimConfirmed
    else .ok ({ event with latestBar := bar, transition := .sweepWaitConfirmation }, none)
  | _, _, _ => .error .sweepIncomplete

/-! ### Breakout and retest -/

def initialBreakout (bar : Bar) (zone : ZoneSnapshot δ) (side : Side) (a5 m20 : ℚ) :
    Except KernelError Bool :=
  let body := cabs (csub bar.close bar.open_)
  match side with
  | .long =>
    if cadd zone.high (cmul (15 / 100) a5) ≤ bar.close ∧ cmul (50 / 100) a5 ≤ body then do
      let clv ← clvLong bar
      pure (decide (70 / 100 ≤ clv ∧ cmul (120 / 100) m20 ≤ bar.volume))
    else .ok false
  | .short =>
    if bar.close ≤ csub zone.low (cmul (15 / 100) a5) ∧ cmul (50 / 100) a5 ≤ body then do
      let clv ← clvShort bar
      pure (decide (70 / 100 ≤ clv ∧ cmul (120 / 100) m20 ≤ bar.volume))
    else .ok false

section

variable (event : MarketEvent δ)

def acceptedReentry (bar : Bar) : Bool :=
  event.side.pick
    (bar.close ≤ csub event.zone.high (cmul (5 / 100) event.a5Event))
    (cadd event.zone.low (cmul (5 / 100) event.a5Event) ≤ bar.close)

def microConfirmation (bar : Bar) : Except KernelError Bool :=
  match event.initialBreakoutClose, event.initialBreakoutHigh, event.initialBreakoutLow with
  | some initialClose, some initialHigh, some initialLow =>
    let a5 := event.a5Event
    .ok (event.side.pick
      (decide (cadd event.zone.high (cmul (10 / 100) a5) ≤ bar.close
        ∧ csub event.zone.high (cmul (10 / 100) a5) ≤ bar.low
        ∧ (initialClose < bar.close ∨ (initialLow < bar.low ∧ bar.open_ < bar.close))))
      (decide (bar.close ≤ csub event.zone.low (cmul (10 / 100) a5)
        ∧ bar.high ≤ cadd event.zone.low (cmul (10 / 100) a5)
        ∧ (bar.close < initialClose ∨ (bar.high < initialHigh ∧ bar.close < bar.open_)))))
  | _, _, _ => .error .breakoutIncomplete

def microTerms : Except KernelError Terms :=
  match event.initialBreakoutHigh, event.initialBreakoutLow with
  | some initialHigh, some initialLow =>
    let a5 := event.a5Event
    .ok (event.side.pick
      { idealLow := cadd event.zone.high (cmul (10 / 100) a5)
        idealHigh := cadd event.zone.high (cmul (40 / 100) a5)
        chase := cadd event.zone.high (cmul (75 / 100) a5)
        stop := min initialLow (csub event.zone.high (cmul (25 / 100) a5)) }
      { idealLow := csub event.zone.low (cmul (40 / 100) a5)
        idealHigh := csub event.zone.low (cmul (10 / 100) a5)
        chase := csub event.zone.low (cmul (75 / 100) a5)
        stop := max initialHigh (cadd event.zone.low (cmul (25 / 100) a5)) })
  | _, _ => .error .breakoutIncomplete

def standardTerms (pullbackExtreme : ℚ) : Terms :=
  let a5 := event.a5Event
  match event.side with
  | .long =>
    { idealLow := csub event.zone.high (cmul (5 / 100) a5)
      idealHigh := cadd event.zone.high (cmul (20 / 100) a5)
      chase := cadd event.zone.high (cmul (35 / 100) a5)
      stop := min pullbackExtreme (csub event.zone.high (cmul (10 / 100) a5)) }
  | .short =>
    { idealLow := csub event.zone.low (cmul (20 / 100) a5)
      idealHigh := cadd event.zone.low (cmul (5 / 100) a5)
      chase := csub event.zone.low (cmul (35 / 100) a5)
      stop := max pullbackExtreme (cadd event.zone.low (cmul (10 / 100) a5)) }

def qualifyRetest (bar : Bar) (pullbackExtreme : ℚ) :
    Except KernelError (Option RetestType) :=
  match event.impulseExtreme with
  | none => .error .impulseMissing
  | some impulse =>
    let a5 := event.a5Event
    let (deep, shallow) : Bool × Bool := match event.side with
      | .long =>
        let denominator := csub impulse event.zone.high
        let ratio := if 0 < denominator then cdiv (csub impulse pullbackExtreme) denominator else -1
        (decide (bar.low ≤ cadd event.zone.high (cmul (25 / 100) a5)
            ∧ cadd event.zone.high (cmul (5 / 100) a5) ≤ bar.close),
          decide (cadd event.zone.high (cmul (25 / 100) a5) < pullbackExtreme
            ∧ 25 / 100 ≤ ratio ∧ ratio ≤ 60 / 100))
      | .short =>
        let denominator := csub event.zone.low impulse
        let ratio := if 0 < denominator then cdiv (csub pullbackExtreme impulse) denominator else -1
        (decide (csub event.zone.low (cmul (25 / 100) a5) ≤ bar.high
            ∧ bar.close ≤ csub event.zone.low (cmul (5 / 100) a5)),
          decide (pullbackExtreme < csub event.zone.low (cmul (25 / 100) a5)
            ∧ 25 / 100 ≤ ratio ∧ ratio ≤ 60 / 100))
    .ok (if deep then some .deep else if shallow then some .shallow else none)

/-- A breakout event whose pullback has not started. -/
def progressBeforePullback (bar : Bar) (previousClose : ℚ) :
    Except KernelError (Progress δ) :=
  let pullbackStart : Bool := event.side.pick (bar.close < previousClose) (previousClose < bar.close)
  if pullbackStart then do
    let pullbackExtreme := event.side.pick bar.low bar.high
    let retest ← qualifyRetest event bar pullbackExtreme
    pure ({ event with
      latestBar := bar
      transition := .pullbackStartedStandardOnly
      previousClose := some bar.close
      previousHigh := some bar.high
      previousLow := some bar.low
      pullbackStarted := true
      pullbackExtreme := some pullbackExtreme
      retestType := retest
      retestSeenBarTimeMs := retest.map fun _ => bar.openTimeMs }, none)
  else do
    if ← microConfirmation event bar then
      let terms ← microTerms event
      withDecision { event with
        status := .confirmed
        transition := .formalSetupConfirmed
        latestBar := bar
        formalMode := some .microFast
        idealEntryLow := some terms.idealLow
        idealEntryHigh := some terms.idealHigh
        chaseLimit := some terms.chase
        structuralStop := some terms.stop } .formalSetupConfirmed .breakoutMicroFastConfirmed
    else match event.impulseExtreme with
      | none => throw .impulseMissing
      | some impulse =>
        pure ({ event with
          latestBar := bar
          transition := .microFastWait
          previousClose := some bar.close
          previousHigh := some bar.high
          previousLow := some bar.low
          impulseExtreme := some (event.side.pick (max impulse bar.high) (min impulse bar.low)) },
          none)

/-- Retest type and time after one more bar: DEEP replaces SHALLOW and restarts
the time, SHALLOW only fills an empty type. -/
def retestAfter (bar : Bar) (qualified : Option RetestType) :
    Option RetestType × Option ℕ :=
  if qualified = some .deep then
    (some .deep,
      if event.retestType = some .deep then event.retestSeenBarTimeMs else some bar.openTimeMs)
  else if event.retestType = none ∧ qualified = some .shallow then
    (some .shallow, some bar.openTimeMs)
  else (event.retestType, event.retestSeenBarTimeMs)

/-- A breakout event in its pullback. -/
def progressInPullback (bar : Bar) (previousHigh previousLow : ℚ) :
    Except KernelError (Progress δ) :=
  match event.pullbackExtreme with
  | none => .error .pullbackMissing
  | some extreme => do
    let pullbackExtreme := event.side.pick (min extreme bar.low) (max extreme bar.high)
    let qualified ← qualifyRetest event bar pullbackExtreme
    let (retest, seenTime) := retestAfter event bar qualified
    let afterRetest := seenTime.any fun t => t < bar.openTimeMs
    let confirms : Bool := event.side.pick (previousHigh < bar.close) (bar.close < previousLow)
    if retest.isSome && afterRetest && confirms then
      let terms := standardTerms event pullbackExtreme
      withDecision { event with
        status := .confirmed
        transition := .formalSetupConfirmed
        latestBar := bar
        formalMode := some .standard
        pullbackExtreme := some pullbackExtreme
        retestType := retest
        retestSeenBarTimeMs := seenTime
        idealEntryLow := some terms.idealLow
        idealEntryHigh := some terms.idealHigh
        chaseLimit := some terms.chase
        structuralStop := some terms.stop } .formalSetupConfirmed
        (if retest = some .deep then .breakoutStandardConfirmedDeepRetest
          else .breakoutStandardConfirmedShallowRetest)
    else
      pure ({ event with
        latestBar := bar
        transition := .standardWaitNoEconomicTimeout
        previousClose := some bar.close
        previousHigh := some bar.high
        previousLow := some bar.low
        pullbackExtreme := some pullbackExtreme
        retestType := retest
        retestSeenBarTimeMs := seenTime }, none)

def progressBreakout (bar : Bar) : Except KernelError (Progress δ) :=
  match event.previousClose, event.previousHigh, event.previousLow with
  | some previousClose, some previousHigh, some previousLow =>
    if acceptedReentry event bar then
      withDecision (event.conclude .invalidated .invalidatedAcceptedReentry bar)
        .invalidated .invalidatedAcceptedReentry
    else if event.pullbackStarted then progressInPullback event bar previousHigh previousLow
    else progressBeforePullback event bar previousClose
  | _, _, _ => .error .previousBarMissing

end

/-- The zones a breakout may run to, nearest first. -/
def directionalZones [LinearOrder δ] (source : ZoneSnapshot δ) (side : Side)
    (zones : List (ZoneSnapshot δ)) : List (ZoneSnapshot δ) :=
  match side with
  | .long => sortBy (fun item : ZoneSnapshot δ => (toLex (item.low, item.zoneId) : ℚ ×ₗ δ))
      (zones.filter fun item => eligible item .high ∧ source.high < item.low)
  | .short => sortBy (fun item : ZoneSnapshot δ => (toLex (cneg item.high, item.zoneId) : ℚ ×ₗ δ))
      (zones.filter fun item => eligible item .low ∧ item.high < source.low)

def breakoutTarget [LinearOrder δ] (source : ZoneSnapshot δ) (side : Side)
    (zones : List (ZoneSnapshot δ)) : TargetReference δ :=
  let directional := directionalZones source side zones
  if directional = [] then ⟨.openSpaceReference, none, none, []⟩
  else ⟨.directionalZoneSetFrozen, none, none, directional⟩

def newBreakout [LinearOrder δ] (bar : Bar) (zone : ZoneSnapshot δ) (side : Side) (a5 m20 : ℚ)
    (relation : HtfRelation) (scannerLinkage : Option ScannerLinkage)
    (zones : List (ZoneSnapshot δ)) : MarketEvent δ :=
  let eventId := marketEventId sha256 bar.marketId zone.zoneId side (bar.candleId sha256)
  { marketEventId := eventId
    marketId := bar.marketId
    setupFamily := .breakoutRetest
    side := side
    status := .active
    transition := .initialBreakoutEventCreated
    zone := zone
    createdBar := bar
    latestBar := bar
    a5Event := a5
    m20Event := m20
    htfRelation := relation
    scannerLinkage := scannerLinkage
    breakoutLinkage := some ⟨eventId, bar.candleId sha256, none⟩
    initialBreakoutOpen := some bar.open_
    initialBreakoutHigh := some bar.high
    initialBreakoutLow := some bar.low
    initialBreakoutClose := some bar.close
    previousClose := some bar.close
    previousHigh := some bar.high
    previousLow := some bar.low
    impulseExtreme := some (side.pick bar.high bar.low)
    targetReference := some (breakoutTarget zone side zones) }

/-! ### Range edge rejection -/

/-- The two zones bound a range the last bars have stayed in. -/
def rangeValid (support resistance : Option (ZoneSnapshot δ)) (bars15m : List Bar)
    (a15Override : Option ℚ) : Except KernelError Bool :=
  match support, resistance with
  | some support, some resistance =>
    if bars15m.length < 15 then .ok false
    else if !eligible support .low || !eligible resistance .high then .ok false
    else do
      let a15 ← givenOr a15Override (wilderAtr14 bars15m)
      let width := csub resistance.center support.center
      if ¬ (cmul (15 / 10) a15 ≤ width ∧ width ≤ cmul 5 a15) then pure false
      else
        -- the source's test for nine bars is subsumed by the one for fifteen
        let er8 ← directionalEfficiency8 bars15m
        if 35 / 100 < er8 then pure false
        else if a15 < cabs (move8 bars15m) then pure false
        else pure ((lastN 8 bars15m).all fun item =>
          csub support.low (cmul (10 / 100) a15) ≤ item.close
            ∧ item.close ≤ cadd resistance.high (cmul (10 / 100) a15))
  | _, _ => .ok false

def rangeCandidate (bar : Bar) (previousClose : ℚ) (zone : ZoneSnapshot δ) (side : Side)
    (a5 m20 : ℚ) : Except KernelError Bool :=
  if bar.high = bar.low then .ok false
  else
    let tr := trueRange bar previousClose
    if tr ≤ 0 then .ok false
    else match side with
      | .long =>
        let lowerWick := csub (min bar.open_ bar.close) bar.low
        if bar.low ≤ cadd zone.high (cmul (10 / 100) a5)
            ∧ cadd zone.low (cmul (5 / 100) a5) ≤ bar.close then do
          let clv ← clvLong bar
          pure (decide (70 / 100 ≤ clv ∧ 35 / 100 ≤ cdiv lowerWick tr ∧ m20 ≤ bar.volume))
        else .ok false
      | .short =>
        let upperWick := csub bar.high (max bar.open_ bar.close)
        if csub zone.low (cmul (10 / 100) a5) ≤ bar.high
            ∧ bar.close ≤ csub zone.high (cmul (5 / 100) a5) then do
          let clv ← clvShort bar
          pure (decide (70 / 100 ≤ clv ∧ 35 / 100 ≤ cdiv upperWick tr ∧ m20 ≤ bar.volume))
        else .ok false

def rangeTerms (bar : Bar) (zone : ZoneSnapshot δ) (side : Side) (a5 : ℚ) : Terms :=
  match side with
  | .long =>
    { idealLow := zone.low
      idealHigh := cadd zone.high (cmul (10 / 100) a5)
      chase := cadd zone.high (cmul (35 / 100) a5)
      stop := csub bar.low (cmul (10 / 100) a5) }
  | .short =>
    { idealLow := csub zone.low (cmul (10 / 100) a5)
      idealHigh := zone.high
      chase := csub zone.low (cmul (35 / 100) a5)
      stop := cadd bar.high (cmul (10 / 100) a5) }

def newRange (bar : Bar) (zone otherZone : ZoneSnapshot δ) (side : Side) (a5 m20 : ℚ)
    (relation : HtfRelation) (scannerLinkage : Option ScannerLinkage) : MarketEvent δ :=
  let rangeCenter := cdiv (cadd zone.center otherZone.center) 2
  let terms := rangeTerms bar zone side a5
  { marketEventId := marketEventId sha256 bar.marketId zone.zoneId side (bar.candleId sha256)
    marketId := bar.marketId
    setupFamily := .rangeEdgeRejection
    side := side
    status := .confirmed
    transition := .formalSetupConfirmed
    zone := zone
    createdBar := bar
    latestBar := bar
    a5Event := a5
    m20Event := m20
    htfRelation := relation
    scannerLinkage := scannerLinkage
    idealEntryLow := some terms.idealLow
    idealEntryHigh := some terms.idealHigh
    chaseLimit := some terms.chase
    structuralStop := some terms.stop
    targetReference := some ⟨.rangeCenter, some rangeCenter, none, []⟩ }

end TraderAssist
