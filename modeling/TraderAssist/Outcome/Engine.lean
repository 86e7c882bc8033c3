/-
TraderAssist/Outcome/Engine.lean

`OutcomeEngine` of `outcome_engine/engine.py`: the one-minute evidence of the
attached plans and what it says about each of them at a time.

The bars of a market and its conflicts are shared by all plans of that market.
Left out: the subscriptions, the sink and the last saved outcomes, which only
decide what is announced, and the provider; the bars a recovery brings in are
admitted like any others.
-/
import TraderAssist.Outcome.Types
import Mathlib.Data.Char

namespace TraderAssist

open Py

variable {δ : Type}

inductive OutcomeError
  | notAttached
  | conflictingViews
  | transitionMarket
  | transitionPredates
  | transitionNotYet
  | cannotExtend
  | conflictingTransition
deriving DecidableEq, Repr

structure OutcomeState where
  view : FormalShadowView
  transitions : Dict Text OutcomeTransitionView := .empty
  forcedDetached : Bool := false
deriving DecidableEq

structure OutcomeEngine (δ : Type) where
  states : Dict Text OutcomeState := .empty
  bars : Dict Text (Dict ℕ OneMinuteBar) := .empty
  conflicts : Dict (Text × ℕ) (Finset δ) := .empty

/-! ### Times -/

def floorMinute (value : ℕ) : ℕ := value - value % oneMinuteMs

def elapsedEnd (startMs endMs asOfMs : ℕ) : ℕ :=
  if asOfMs ≤ startMs then startMs else min endMs (floorMinute asOfMs)

/-- `range(start_ms, end_ms, ONE_MINUTE_MS)`. -/
def expectedOpens (startMs endMs : ℕ) : List ℕ :=
  (List.range ((endMs - startMs + (oneMinuteMs - 1)) / oneMinuteMs)).map fun i =>
    startMs + i * oneMinuteMs

/-! ### Statistics of a path -/

/-- `max(bar.high for bar in bars)`, of at least one bar. -/
def highest (first : OneMinuteBar) (rest : List OneMinuteBar) : ℚ :=
  rest.foldl (fun best bar => max best bar.high) first.high

def lowest (first : OneMinuteBar) (rest : List OneMinuteBar) : ℚ :=
  rest.foldl (fun best bar => min best bar.low) first.low

def favorableAdverse (side : Side) (entry : ℚ) : List OneMinuteBar → Option ℚ × Option ℚ
  | [] => (none, none)
  | first :: rest =>
    let up := max 0 (csub (highest first rest) entry)
    let down := max 0 (csub entry (lowest first rest))
    side.pick (some up, some down) (some down, some up)

structure ProfitPath where
  priorPeakFavorable : ℚ := 0
  maxGiveback : ℚ := 0
  returnedToEntry : Bool := false

def ProfitPath.step (side : Side) (entry : ℚ) (p : ProfitPath) (bar : OneMinuteBar) : ProfitPath :=
  let openingFavorable :=
    side.pick (max 0 (csub bar.open_ entry)) (max 0 (csub entry bar.open_))
  let favorable := side.pick (max 0 (csub bar.high entry)) (max 0 (csub entry bar.low))
  let crossesEntry : Bool := side.pick (decide (bar.low ≤ entry)) (decide (entry ≤ bar.high))
  let establishedPeak := max p.priorPeakFavorable openingFavorable
  let prior := max establishedPeak favorable
  if 0 < establishedPeak then
    let retainedFavorable :=
      side.pick (max 0 (csub bar.low entry)) (max 0 (csub entry bar.high))
    let giveback := csub establishedPeak (min establishedPeak retainedFavorable)
    ⟨prior, max p.maxGiveback giveback, p.returnedToEntry || crossesEntry⟩
  else { p with priorPeakFavorable := prior }

/-- `_profit_path_statistics`. -/
def profitPathStatistics (side : Side) (entry : ℚ) (bars : List OneMinuteBar) : ℚ × Bool :=
  let p := bars.foldl (ProfitPath.step side entry) {}
  (p.maxGiveback, p.returnedToEntry)

/-- The accumulators of the loop of `_evaluate_path`. -/
structure PathLoop where
  primary : PathPrimaryResult := .noHit
  ambiguous : List ℕ := []
  stopTime : Option ℕ := none
  tp1Time : Option ℕ := none
  tp2Time : Option ℕ := none
  timeToOne : Option ℕ := none
  oneHalfHit : Bool := false
  twoHit : Bool := false
  maxBeforeStop : ℚ := 0

/-- `if primary is NO_HIT: primary = result`. -/
def PathPrimaryResult.orElse (primary result : PathPrimaryResult) : PathPrimaryResult :=
  if primary = .noHit then result else primary

/-- A bar that reaches `level` in favour of the plan. -/
def reaches (side : Side) (level : ℚ) (bar : OneMinuteBar) : Bool :=
  side.pick (decide (level ≤ bar.high)) (decide (bar.low ≤ level))

/-- The loop of `_evaluate_path`; a stop ends it.  The flags `stop_hit`,
`tp1_hit`, `tp2_hit` and `one_hit` are set together with their times. -/
def pathLoop (view : FormalShadowView) : PathLoop → List OneMinuteBar → PathLoop
  | acc, [] => acc
  | acc, bar :: bars =>
    let barStop : Bool := view.side.pick (decide (bar.low ≤ view.stop)) (decide (view.stop ≤ bar.high))
    let barTp1 := reaches view.side view.tp1 bar
    let barTp2 := view.tp2.any fun tp2 => reaches view.side tp2 bar
    if barStop then
      { acc with
        ambiguous := if barTp1 || barTp2 then acc.ambiguous ++ [bar.openTimeMs] else acc.ambiguous
        stopTime := some bar.closeTimeMs
        primary := acc.primary.orElse .stopFirst }
    else
      let favorable := view.side.pick (max 0 (csub bar.high view.plannedEntry))
        (max 0 (csub view.plannedEntry bar.low))
      let newTp1 := barTp1 && acc.tp1Time.isNone
      let newTp2 := barTp2 && acc.tp2Time.isNone
      pathLoop view
        { acc with
          tp1Time := if newTp1 then some bar.closeTimeMs else acc.tp1Time
          tp2Time := if newTp2 then some bar.closeTimeMs else acc.tp2Time
          primary := if newTp1 || newTp2 then acc.primary.orElse .tpFirst else acc.primary
          timeToOne :=
            if reaches view.side (view.rLevel 1) bar && acc.timeToOne.isNone then
              some (bar.closeTimeMs - view.outcomeStartMs)
            else acc.timeToOne
          oneHalfHit := acc.oneHalfHit || reaches view.side (view.rLevel (3 / 2)) bar
          twoHit := acc.twoHit || reaches view.side (view.rLevel 2) bar
          maxBeforeStop := max acc.maxBeforeStop favorable }
        bars

/-- `_evaluate_path`. -/
def evaluatePath (view : FormalShadowView) (bars : List OneMinuteBar) : PathEvaluation :=
  let (maxProfitGiveback, returnToEntryAfterProfit) :=
    profitPathStatistics view.side view.plannedEntry bars
  let acc := pathLoop view {} bars
  { primaryResult := acc.primary
    ambiguousPath := !acc.ambiguous.isEmpty
    ambiguousBarOpenTimes := acc.ambiguous
    stopHit := acc.stopTime.isSome
    stopHitTimeMs := acc.stopTime
    tp1Hit := acc.tp1Time.isSome
    tp1HitTimeMs := acc.tp1Time
    tp2Hit := acc.tp2Time.isSome
    tp2HitTimeMs := acc.tp2Time
    oneRHit := acc.timeToOne.isSome
    oneAndHalfRHit := acc.oneHalfHit
    twoRHit := acc.twoHit
    timeToOneRMs := acc.timeToOne
    maxMfeBeforeStop := acc.maxBeforeStop
    maxProfitGiveback := maxProfitGiveback
    returnToEntryAfterProfit := returnToEntryAfterProfit }

/-- `_time_to_retest`. -/
def timeToRetest (view : FormalShadowView) (bars : List OneMinuteBar) : Option ℕ :=
  match view.setupFamily, view.zoneLow, view.zoneHigh with
  | .breakoutRetest, some zoneLow, some zoneHigh =>
    (bars.find? fun bar =>
      view.side.pick (decide (bar.low ≤ zoneHigh)) (decide (zoneLow ≤ bar.high))).map
      fun bar => bar.closeTimeMs - view.outcomeStartMs
  | _, _, _ => none

/-! ### A state and its transitions -/

namespace OutcomeState

/-- `_required_end`. -/
def requiredEnd (s : OutcomeState) : ℕ :=
  if s.view.setupFamily = .breakoutRetest then
    s.transitions.values.foldl (fun endMs transition =>
      if transition.kind.extending then max endMs (transition.occurredAtMs + 120 * oneMinuteMs)
      else endMs) s.view.originalDeadlineMs
  else s.view.originalDeadlineMs

/-- The state requires the evidence slot of this bar. -/
def Requires (s : OutcomeState) (marketId : Text) (openTimeMs : ℕ) : Prop :=
  s.view.marketId = marketId ∧ s.view.outcomeStartMs ≤ openTimeMs ∧ openTimeMs < s.requiredEnd

instance (s : OutcomeState) (marketId : Text) (openTimeMs : ℕ) :
    Decidable (s.Requires marketId openTimeMs) :=
  inferInstanceAs (Decidable (_ ∧ _ ∧ _))

section

variable (s : OutcomeState)

/-- `_transitions`. -/
def transitionsOf (kinds : List TransitionKind) : List OutcomeTransitionView :=
  sortBy (fun item => toLex (item.occurredAtMs, item.transitionId))
    (s.transitions.values.filter fun item => item.kind ∈ kinds)

def hasExistingFailureTransition : Bool :=
  !(s.transitionsOf [.acceptedReentry, .failedBreakout]).isEmpty

/-- The transition the reverse trade is anchored at. -/
def anchor : Option OutcomeTransitionView :=
  (s.transitionsOf [.failedBreakout]).head?.or (s.transitionsOf [.acceptedReentry]).head?

def reclaimStatus (failed : Bool) : ReclaimStatus :=
  match (s.transitionsOf [.reclaimSucceeded]).head?, (s.transitionsOf [.reclaimFailed]).head? with
  | some succeeded, some failedReclaim =>
    if succeeded.occurredAtMs < failedReclaim.occurredAtMs then .succeeded else .failed
  | some _, none => .succeeded
  | none, some _ => .failed
  | none, none =>
    if !(s.transitionsOf [.failedBreakout]).isEmpty then .failed
    else if failed then .unresolved
    else .notApplicable

end

end OutcomeState

namespace OutcomeEngine

/-! ### Evidence -/

section

variable (e : OutcomeEngine δ)

/-- `self._bars.get(market_id, {})`. -/
def marketBars (marketId : Text) : Dict ℕ OneMinuteBar :=
  (e.bars.get? marketId).getD .empty

/-- `_state`. -/
def stateOf (shadowOrderId : Text) : Except OutcomeError OutcomeState :=
  match e.states.get? shadowOrderId with
  | none => .error .notAttached
  | some state => .ok state

/-- The minute lies in the required window of an attached plan of the market. -/
def needed (marketId : Text) (openTimeMs : ℕ) : Bool :=
  e.states.values.any fun state => state.Requires marketId openTimeMs

/-- `requires_bar`. -/
def requiresBar (bar : OneMinuteBar) : Bool :=
  e.needed bar.marketId bar.openTimeMs

/-- A conflict in the window. -/
def conflictIn (marketId : Text) (startMs endMs : ℕ) : Bool :=
  e.conflicts.keys.any fun key => key.1 = marketId ∧ startMs ≤ key.2 ∧ key.2 < endMs

/-- A minute of the window without a bar. -/
def missingIn (marketId : Text) (startMs endMs : ℕ) : Bool :=
  (expectedOpens startMs endMs).any fun point => !(e.marketBars marketId).has point

section

variable (state : OutcomeState)

/-- `_window_status`. -/
def windowStatus (startMs endMs asOfMs : ℕ) :
    MaturityStatus :=
  let elapsed := elapsedEnd startMs endMs asOfMs
  if e.conflictIn state.view.marketId startMs elapsed then .conflicted
  else if e.missingIn state.view.marketId startMs elapsed then .gapped
  else if asOfMs < endMs then .pending
  else if e.missingIn state.view.marketId startMs endMs then .gapped
  else .mature

/-- `_usable_bars`; a window that is neither gapped nor conflicted has a bar at
every elapsed minute. -/
def usableBars (startMs endMs asOfMs : ℕ) :
    List OneMinuteBar :=
  let status := e.windowStatus state startMs endMs asOfMs
  if status = .gapped ∨ status = .conflicted then []
  else (expectedOpens startMs (elapsedEnd startMs endMs asOfMs)).filterMap
    (e.marketBars state.view.marketId).get?

/-- `_horizon`. -/
def horizon (asOfMs minutes : ℕ) : HorizonMetrics :=
  let view := state.view
  let endMs := view.outcomeStartMs + minutes * oneMinuteMs
  let bars := e.usableBars state view.outcomeStartMs endMs asOfMs
  let (mfe, mae) := favorableAdverse view.side view.plannedEntry bars
  let path := evaluatePath view bars
  { horizonMinutes := minutes
    maturity := e.windowStatus state view.outcomeStartMs endMs asOfMs
    windowEndMs := endMs
    mfe := mfe
    mae := mae
    mfeAtr := mfe.map fun x => cdiv x view.atr
    maeAtr := mae.map fun x => cdiv x view.atr
    oneRHit := path.oneRHit
    oneAndHalfRHit := path.oneAndHalfRHit
    twoRHit := path.twoRHit
    stopHit := path.stopHit }

/-- `_transition_reference`: the given price, or the close of the latest bar of
the market closed by then. -/
def transitionReference
    (transition : OutcomeTransitionView) : Option ℚ :=
  match transition.referencePrice with
  | some price => some price
  | none =>
    (maxBy OneMinuteBar.closeTimeMs ((e.marketBars state.view.marketId).values.filter fun bar =>
      bar.closeTimeMs ≤ transition.occurredAtMs)).map OneMinuteBar.close

/-- `_reverse_horizons`. -/
def reverseHorizons (anchorTimeMs : ℕ) (entry : ℚ)
    (asOfMs : ℕ) : List ReverseHorizonMetrics :=
  outcomeHorizonsMinutes.map fun minutes =>
    let endMs := anchorTimeMs + minutes * oneMinuteMs
    let bars := e.usableBars state anchorTimeMs endMs asOfMs
    let (mfe, mae) := favorableAdverse state.view.side.opposite entry bars
    { horizonMinutes := minutes
      maturity := e.windowStatus state anchorTimeMs endMs asOfMs
      windowEndMs := endMs
      mfe := mfe
      mae := mae
      mfeAtr := mfe.map fun x => cdiv x state.view.atr
      maeAtr := mae.map fun x => cdiv x state.view.atr }

end

end

/-- How far a price is back inside the zone, in ATRs. -/
def depthInside (view : FormalShadowView) (zoneLow zoneHigh price : ℚ) : ℚ :=
  view.side.pick (cdiv (max 0 (csub zoneHigh price)) view.atr)
    (cdiv (max 0 (csub price zoneLow)) view.atr)

/-- The first return inside the range and its depth: of the first RETURN
transition if there is one, otherwise of the first bar that closes inside. -/
def firstReturn (state : OutcomeState) (bars : List OneMinuteBar) : Option ℕ × Option ℚ :=
  let view := state.view
  let transition := (state.transitionsOf [.returnInsideRange]).head?
  match view.zoneLow, view.zoneHigh with
  | some zoneLow, some zoneHigh =>
    match transition with
    | some first =>
      (some first.occurredAtMs, first.referencePrice.map (depthInside view zoneLow zoneHigh))
    | none =>
      match bars.find? fun bar =>
          view.side.pick (decide (bar.close ≤ zoneHigh)) (decide (zoneLow ≤ bar.close)) with
      | some bar => (some bar.closeTimeMs, some (depthInside view zoneLow zoneHigh bar.close))
      | none => (none, none)
  | _, _ => (transition.map OutcomeTransitionView.occurredAtMs, none)

/-- The bars that close outside the zone. -/
def outsideBars (view : FormalShadowView) (bars : List OneMinuteBar) : ℕ :=
  match view.zoneLow, view.zoneHigh with
  | some zoneLow, some zoneHigh =>
    bars.countP fun bar =>
      view.side.pick (decide (zoneHigh < bar.close)) (decide (bar.close < zoneLow))
  | _, _ => 0

/-- `_failed_breakout_research`. -/
def failedBreakoutResearch (e : OutcomeEngine δ) (state : OutcomeState) (asOfMs : ℕ) :
    Option FailedBreakoutResearch :=
  let view := state.view
  if view.setupFamily ≠ .breakoutRetest then none
  else
    let originalBars := e.usableBars state view.outcomeStartMs view.originalDeadlineMs asOfMs
    let (firstReturnTime, returnDepth) := firstReturn state originalBars
    let acceptedTime :=
      (state.transitionsOf [.acceptedReentry]).head?.map OutcomeTransitionView.occurredAtMs
    let failed := acceptedTime.isSome || !(state.transitionsOf [.failedBreakout]).isEmpty
    -- `first_return_time or accepted_time`: a first return at time 0 counts as none
    let cutoff := (firstReturnTime.filter fun t => t ≠ 0).or acceptedTime
    let preReentry := match cutoff with
      | some time => originalBars.filter fun bar => bar.closeTimeMs < time
      | none => originalBars
    let outside := outsideBars view preReentry
    let reverseEntry := state.anchor.bind (e.transitionReference state)
    let requiredBars := e.usableBars state view.outcomeStartMs state.requiredEnd asOfMs
    let afterReentry := match acceptedTime with
      | some time => requiredBars.filter fun bar => time ≤ bar.openTimeMs
      | none => []
    let reverse := match state.anchor, reverseEntry with
      | some anchor, some entry => e.reverseHorizons state anchor.occurredAtMs entry asOfMs
      | _, _ => []
    some
      { failedBreakout := failed
        firstReturnInsideRangeTimeMs := firstReturnTime
        returnInsideRangeDepthAtr := returnDepth
        acceptedReentryTimeMs := acceptedTime
        mfeBeforeFirstReentry := (favorableAdverse view.side view.plannedEntry preReentry).1
        barsOutsideZone := outside
        timeOutsideZoneMs := outside * oneMinuteMs
        reclaimAttemptCount := (state.transitionsOf [.reclaimAttempt]).length
        reclaimStatus := state.reclaimStatus failed
        maeAfterReentry := (favorableAdverse view.side view.plannedEntry afterReentry).2
        originalStop := view.stop
        originalR := view.riskDistance
        originalStopHit := (evaluatePath view originalBars).stopHit
        reverseAnchorTimeMs := state.anchor.map OutcomeTransitionView.occurredAtMs
        reverseEntry := reverseEntry
        hypotheticalReverse := reverse }

section

variable [LinearOrder δ] (sha256 : MinutePayload → δ)

/-- The conflicts of one minute: the least hash against each of the others. -/
def conflictsAt (marketId : Text) (openTimeMs : ℕ) (hashes : Finset δ) : List (BarConflict δ) :=
  match sortedSet hashes with
  | [] => []
  | retained :: others => others.map fun other => ⟨marketId, openTimeMs, retained, other⟩

section

variable (e : OutcomeEngine δ)

/-- `_state_conflicts`: over the whole required window. -/
def stateConflicts (state : OutcomeState) : List (BarConflict δ) :=
  sortBy (fun item => toLex (item.openTimeMs, toLex (item.retainedHash, item.conflictingHash)))
    ((e.conflicts.entries.filter fun entry => state.Requires entry.1.1 entry.1.2).flatMap
      fun entry => conflictsAt entry.1.1 entry.1.2 entry.2)

/-- The outcome of an attached plan. -/
def outcomeOf (state : OutcomeState) (asOfMs : ℕ) : FormalShadowOutcome δ :=
  let view := state.view
  let originalStatus :=
    e.windowStatus state view.outcomeStartMs view.originalDeadlineMs asOfMs
  let originalBars := e.usableBars state view.outcomeStartMs view.originalDeadlineMs asOfMs
  let windowed := e.windowStatus state view.outcomeStartMs state.requiredEnd asOfMs
  let overallStatus :=
    if state.forcedDetached ∧ windowed = .pending then MaturityStatus.detached else windowed
  let research := e.failedBreakoutResearch state asOfMs
  let returnInside := research.any fun r => r.firstReturnInsideRangeTimeMs.isSome
  -- a gapped or conflicted original path asserts nothing that was observed on it
  let broken : Bool := originalStatus = .gapped ∨ originalStatus = .conflicted
  { shadowOrderId := view.shadowOrderId
    marketId := view.marketId
    evaluatedAtMs := asOfMs
    requiredStartMs := view.outcomeStartMs
    originalDeadlineMs := view.originalDeadlineMs
    requiredEndMs := state.requiredEnd
    pathMaturityStatus := overallStatus
    unresolved := overallStatus ≠ .mature
    horizons := outcomeHorizonsMinutes.map (e.horizon state asOfMs)
    path := evaluatePath view (if broken then [] else originalBars)
    timeToRetestMs := if broken then none else timeToRetest view originalBars
    returnInsideRange := returnInside && (!broken || state.hasExistingFailureTransition)
    failedBreakout := research.any FailedBreakoutResearch.failedBreakout
    research := research
    conflicts := e.stateConflicts state }

/-- `evaluate`. -/
def evaluate (shadowOrderId : Text) (asOfMs : ℕ) :
    Except OutcomeError (FormalShadowOutcome δ) := do
  let state ← e.stateOf shadowOrderId
  pure (e.outcomeOf state asOfMs)

/-! ### Operations -/

/-- `attach`, without recovery. -/
def attach (view : FormalShadowView) :
    Except OutcomeError (Bool × OutcomeEngine δ) :=
  if view.state ≠ .formalShadowPlan ∨ view.active = false then .ok (false, e)
  else match e.states.get? view.shadowOrderId with
    | some existing =>
      if existing.view ≠ view then .error .conflictingViews else .ok (false, e)
    | none => .ok (true, { e with
        states := e.states.set view.shadowOrderId { view := view }
        bars := if e.bars.has view.marketId then e.bars else e.bars.set view.marketId .empty })

/-- `admit_transition`, without recovery. -/
def admitTransition (transition : OutcomeTransitionView) (nowMs : ℕ) :
    Except OutcomeError (Bool × OutcomeEngine δ) := do
  let state ← e.stateOf transition.shadowOrderId
  if transition.marketId ≠ state.view.marketId then throw .transitionMarket
  else if transition.occurredAtMs < state.view.outcomeStartMs then throw .transitionPredates
  else if nowMs < transition.occurredAtMs then throw .transitionNotYet
  else if transition.kind.extending ∧ state.view.setupFamily ≠ .breakoutRetest then
    throw .cannotExtend
  else match state.transitions.get? transition.transitionId with
    | some existing =>
      if existing ≠ transition then throw .conflictingTransition else pure (false, e)
    | none =>
      let updated : OutcomeState :=
        { state with transitions := state.transitions.set transition.transitionId transition }
      pure (true, { e with states := e.states.set transition.shadowOrderId updated })

def detach (shadowOrderId : Text) :
    Except OutcomeError (Bool × OutcomeEngine δ) := do
  let state ← e.stateOf shadowOrderId
  if state.forcedDetached then pure (false, e)
  else pure (true,
    { e with states := e.states.set shadowOrderId { state with forcedDetached := true } })

/-- `self._bars.setdefault(market_id, {})[open_time_ms] = bar`. -/
def putBar (marketId : Text) (openTimeMs : ℕ) (bar : OneMinuteBar) :
    OutcomeEngine δ :=
  { e with bars := e.bars.set marketId ((e.marketBars marketId).set openTimeMs bar) }

/-- `admit_bar`. -/
def admitBar (bar : OneMinuteBar) : AdmissionStatus × OutcomeEngine δ :=
  if e.requiresBar bar then
    match (e.marketBars bar.marketId).get? bar.openTimeMs with
    | none => (.admitted, e.putBar bar.marketId bar.openTimeMs bar)
    | some existing =>
      let old := existing.canonicalHash sha256
      let new := bar.canonicalHash sha256
      if old = new then (.duplicate, e)
      else
        let key := (bar.marketId, bar.openTimeMs)
        let hashes := (e.conflicts.get? key).getD ∅ ∪ {old, new}
        -- `min((existing, bar), key=...)` is the existing bar unless the new hash is less
        let kept := if new < old then bar else existing
        (.conflict, { e.putBar bar.marketId bar.openTimeMs kept with
          conflicts := e.conflicts.set key hashes })
  else (.outsideRequiredWindow, e)

/-- Admitting a list of bars, one by one. -/
def admitBars (bars : List OneMinuteBar) : OutcomeEngine δ :=
  bars.foldl (fun e bar => (e.admitBar sha256 bar).2) e

/-- `_prune_inactive_bars`. -/
def pruneInactiveBars : OutcomeEngine δ :=
  { e with
    bars := (e.bars.filter fun marketId _ =>
        e.states.values.any fun state => state.view.marketId = marketId).mapValues
      fun marketId bars => bars.filter fun openTimeMs _ => e.needed marketId openTimeMs
    conflicts := e.conflicts.filter fun key _ => e.needed key.1 key.2 }

/-- `tick`, without recovery: the outcomes of all plans; those that are complete
are dropped. -/
def tick (nowMs : ℕ) : List (FormalShadowOutcome δ) × OutcomeEngine δ :=
  let outcomes := (sortBy Prod.fst e.states.entries).map fun entry => e.outcomeOf entry.2 nowMs
  let completed := (outcomes.filter fun outcome =>
    !outcome.unresolved && decide (outcome.requiredEndMs ≤ nowMs)).map
      FormalShadowOutcome.shadowOrderId
  let remaining := { e with states := e.states.filter fun identity _ => identity ∉ completed }
  (outcomes, if completed = [] then remaining else remaining.pruneInactiveBars)

/-! ### Runs -/

end

/-- The calls that change an engine. -/
inductive Op
  | attach (view : FormalShadowView)
  | admitTransition (transition : OutcomeTransitionView) (nowMs : ℕ)
  | detach (shadowOrderId : Text)
  | admitBar (bar : OneMinuteBar)
  | tick (nowMs : ℕ)

/-- The engine after a call; one that raises changes nothing. -/
def apply (e : OutcomeEngine δ) : Op → OutcomeEngine δ
  | .attach view => ((e.attach view).toOption.map Prod.snd).getD e
  | .admitTransition transition nowMs =>
    ((e.admitTransition transition nowMs).toOption.map Prod.snd).getD e
  | .detach shadowOrderId => ((e.detach shadowOrderId).toOption.map Prod.snd).getD e
  | .admitBar bar => (e.admitBar sha256 bar).2
  | .tick nowMs => (e.tick nowMs).2

/-- The engine after a list of calls. -/
def run (e : OutcomeEngine δ) (ops : List Op) : OutcomeEngine δ := ops.foldl (apply sha256) e

/-! ### Recovery and reconstruction -/

/-- The elapsed minutes of a plan that have no bar. -/
def missingPoints (e : OutcomeEngine δ) (state : OutcomeState) (nowMs : ℕ) : List ℕ :=
  (expectedOpens state.view.outcomeStartMs
    (elapsedEnd state.view.outcomeStartMs state.requiredEnd nowMs)).filter fun point =>
      !(e.marketBars state.view.marketId).has point

/-- `groupby(enumerate(points), lambda item: item[1] - item[0] * ONE_MINUTE_MS)`. -/
def consecutiveBlocks (points : List ℕ) : List (List ℕ) :=
  (points.zipIdx.splitBy fun a b =>
    (a.1 : ℤ) - a.2 * oneMinuteMs == (b.1 : ℤ) - b.2 * oneMinuteMs).map (List.map Prod.fst)

/-- `recovery_requests`. -/
def recoveryRequests (e : OutcomeEngine δ) (nowMs : ℕ)
    (shadowOrderIds : Option (List Text) := none) : Except OutcomeError (List (Text × ℕ × ℕ)) := do
  let selected ← match shadowOrderIds with
    | none => pure e.states.values
    | some identities => identities.mapM e.stateOf
  let live := selected.filter fun state => !state.forcedDetached
  let markets := sortedSet (live.map fun state => state.view.marketId).toFinset
  pure (markets.flatMap fun marketId =>
    let missing := (live.filter fun state => state.view.marketId = marketId).flatMap fun state =>
      e.missingPoints state nowMs
    (consecutiveBlocks (sortedSet missing.toFinset)).filterMap fun block =>
      match block.head?, block.getLast? with
      | some first, some last => some (marketId, first, last + oneMinuteMs)
      | _, _ => none)

/-- `reconstruct`, without recovery. -/
def reconstruct (shadows : List FormalShadowView) (transitions : List OutcomeTransitionView)
    (bars : List OneMinuteBar) (nowMs : ℕ) : Except OutcomeError (OutcomeEngine δ) := do
  let attached ← (sortBy FormalShadowView.shadowOrderId shadows).foldlM
    (fun e view => Prod.snd <$> e.attach view) ({} : OutcomeEngine δ)
  let extended ← (sortBy (fun item => toLex (item.occurredAtMs, item.transitionId))
    transitions).foldlM (fun e transition => Prod.snd <$> e.admitTransition transition nowMs) attached
  pure (extended.admitBars sha256 (sortBy (fun bar =>
    toLex (bar.marketId, toLex (bar.openTimeMs, bar.canonicalHash sha256))) bars))

end

end OutcomeEngine

end TraderAssist
