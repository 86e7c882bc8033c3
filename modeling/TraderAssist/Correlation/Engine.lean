/-
TraderAssist/Correlation/Engine.lean

The correlation engine for Shadow research (`correlation_engine/engine.py`):
signals are grouped into fixed event windows, each pair of markets of a window
gets a Pearson correlation over the returns up to the window's start, and the
signals of a window are clustered by complete linkage in the order of a leader
key.

`build_correlation_report` sorts its signals first and reads the observations
only through the returns of each market, so its model is cut there: `reportOf`
takes the ordered signals and a lookup of returns, and inside it `assemble`
takes the finished table of pairs.

A signal's confirmation is kept as the UTC time the engine converts it to, and
times in milliseconds are computed from it as the source does, in doubles.
-/
import TraderAssist.Lib.Datetime
import TraderAssist.Lib.Dict
import TraderAssist.Lib.Seq

namespace TraderAssist

open Py

namespace Correlation

/-! ### Inputs -/

inductive CorrelationError
  | duplicateIds
  | duplicateTimes
  | mappingKey
  | missingMarket
  | overflow
  | keyError
  | indexError
  | pearsonInputs
  | divisionByZero
deriving DecidableEq, Repr

def fiveMinutesMs : ℕ := 300000

/-- A closed 5m candle; what the constructor checks are fields. -/
structure CloseObservation where
  marketId : Text
  closeTimeMs : ℕ
  close : ℚ
  isOpenMarket : Bool
  sourceCandleHash : Text
  marketId_ne : marketId ≠ []
  geometry : closeTimeMs % fiveMinutesMs = fiveMinutesMs - 1
  close_pos : 0 < close
  hash_length : sourceCandleHash.length = 64

/-- A research signal, with its checks as fields. -/
structure ShadowSignal where
  shadowOrderId : Text
  marketId : Text
  setupFamily : Text
  direction : Text
  confirmedAtUtc : Datetime
  strategyVersion : Text
  parameterVersion : Text
  p10WeakDepth10bps : ℚ
  p95SpreadBps : ℚ
  exchangeDayNotional : ℚ
  oiNotional : ℚ
  outcomeR : Option ℚ := none
  outcomeMfe : Option ℚ := none
  outcomeMae : Option ℚ := none
  identity : shadowOrderId ≠ [] ∧ marketId ≠ [] ∧ setupFamily ≠ [] ∧ direction ≠ []
    ∧ strategyVersion ≠ [] ∧ parameterVersion ≠ []
  nonneg : 0 ≤ p10WeakDepth10bps ∧ 0 ≤ p95SpreadBps ∧ 0 ≤ exchangeDayNotional ∧ 0 ≤ oiNotional
deriving DecidableEq

namespace ShadowSignal

/-- `_leader_key`; a Decimal is rounded when it is negated. -/
def leaderKey (s : ShadowSignal) : ℚ ×ₗ ℚ ×ₗ ℚ ×ₗ ℚ ×ₗ Text :=
  toLex (cneg s.p10WeakDepth10bps, toLex (s.p95SpreadBps, toLex (cneg s.exchangeDayNotional,
    toLex (cneg s.oiNotional, s.marketId))))

/-- `_signal_time_key`. -/
def timeKey (s : ShadowSignal) : Datetime ×ₗ Text := toLex (s.confirmedAtUtc, s.shadowOrderId)

/-- The scope of an event window. -/
def scope (s : ShadowSignal) : Text × Text × Text :=
  (s.strategyVersion, s.parameterVersion, s.direction)

end ShadowSignal

/-- `_validate_signals`. -/
def validateSignals (signals : List ShadowSignal) : Except CorrelationError (List ShadowSignal) := do
  require (signals.map ShadowSignal.shadowOrderId).Nodup .duplicateIds
  pure (sortBy ShadowSignal.timeKey signals)

/-! ### Returns -/

structure MarketReturn where
  closeTimeMs : ℕ
  value : ℚ
  previousCandleHash : Text
  currentCandleHash : Text
deriving DecidableEq

/-- The return between two neighbours, if they are five minutes apart and the
market was open at both. -/
def returnBetween (prior current : CloseObservation) : Option MarketReturn :=
  if prior.isOpenMarket = true ∧ current.isOpenMarket = true
      ∧ current.closeTimeMs = prior.closeTimeMs + fiveMinutesMs then
    some ⟨current.closeTimeMs, csub (cdiv current.close prior.close) 1, prior.sourceCandleHash,
      current.sourceCandleHash⟩
  else none

/-- `_market_returns`. -/
def marketReturns (observations : List CloseObservation) :
    Except CorrelationError (List MarketReturn) := do
  let ordered := sortBy CloseObservation.closeTimeMs observations
  require (ordered.map CloseObservation.closeTimeMs).Nodup .duplicateTimes
  pure ((ordered.zip ordered.tail).filterMap fun p => returnBetween p.1 p.2)

/-- One entry of the loop over the mapping. -/
def returnsEntry (entry : Text × List CloseObservation) :
    Except CorrelationError (Text × List MarketReturn) := do
  require (∀ item ∈ entry.2, item.marketId = entry.1) .mappingKey
  pure (entry.1, ← marketReturns entry.2)

/-- `returns_by_market`. -/
def returnsByMarket (observations : Dict Text (List CloseObservation)) :
    Except CorrelationError (Dict Text (List MarketReturn)) := do
  pure (Dict.ofPairs (← observations.entries.mapM returnsEntry))

/-! ### Pearson correlation -/

/-- `Decimal.sqrt` in the default context: the root rounded to 28 digits, ties to
even.  The argument is not negative here. -/
def csqrt (x : ℚ) : ℚ :=
  if x ≤ 0 then 0
  else
    let a := x.num.natAbs
    -- the leading digit of the root has position `magnitude / 2`, rounded down
    let q : ℤ := Int.fdiv (magnitude a x.den) 2 - (ctxPrec - 1 : ℕ)
    let target : ℚ := x / (pow10 q * pow10 q)
    let root := Nat.sqrt (target.num.natAbs / target.den)
    let half : ℚ := (root + 1 / 2) * (root + 1 / 2)
    let rounded := if target < half then root
      else if half < target then root + 1
      else if root % 2 = 0 then root else root + 1
    rounded * pow10 q

example : csqrt 2 = 1414213562373095048801688724 / 10 ^ 27 := by decide +kernel

/-- `sum(values, Decimal()) / Decimal(len(values))`, of a nonempty sequence. -/
def meanOf (values : List ℚ) : ℚ := cdiv (csum values) values.length

/-- `pearson_correlation`. -/
def pearsonCorrelation (left right : List ℚ) : Except CorrelationError (Option ℚ) := do
  require (left.length = right.length ∧ left ≠ []) .pearsonInputs
  let leftDeltas := left.map fun value => csub value (meanOf left)
  let rightDeltas := right.map fun value => csub value (meanOf right)
  let numerator := csum (List.zipWith cmul leftDeltas rightDeltas)
  let leftVariance := csum (leftDeltas.map fun value => cmul value value)
  let rightVariance := csum (rightDeltas.map fun value => cmul value value)
  let denominator := csqrt (cmul leftVariance rightVariance)
  pure (if denominator = 0 then none else some (cdiv numerator denominator))

inductive CorrelationStatus
  | computed
  | insufficientData
  | undefined
deriving DecidableEq, Repr

structure PairedReturnEvidence where
  leftPreviousCandleHash : Text
  leftCurrentCandleHash : Text
  rightPreviousCandleHash : Text
  rightCurrentCandleHash : Text
deriving DecidableEq

structure PairwiseCorrelation (δ : Type) where
  marketIds : Text × Text
  windowStart : Datetime
  windowEnd : Datetime
  pairedReturnCount : ℕ
  status : CorrelationStatus
  pearson : Option ℚ
  pairedReturnEvidence : List PairedReturnEvidence
  correlationDataHash : δ
deriving DecidableEq

/-- The days of `CORRELATION_LOOKBACK`. -/
def lookbackDays : ℕ := 14

/-- `event_start - CORRELATION_LOOKBACK`; nothing before the year 1. -/
def lookbackStart (start : Datetime) : Except CorrelationError Datetime :=
  let ordinal := Datetime.toOrdinal start.year start.month start.day
  let (year, month, day) := Datetime.fromOrdinal (ordinal - lookbackDays)
  if ordinal ≤ lookbackDays then .error .overflow
  else (Datetime.make? year month day start.hour start.minute start.second start.microsecond).elim
    (.error .overflow) .ok

def minPairedReturns : ℕ := 500

/-- `_market_pair_ids`. -/
def marketPairIds (first second : Text) : Text × Text :=
  if first ≤ second then (first, second) else (second, first)

/-- A return that falls into the window of a pair. -/
def inWindow (lower start : Datetime) (closeTimeMs : ℕ) : Prop :=
  lower.timestampMs ≤ closeTimeMs ∧ (closeTimeMs : ℤ) ≤ start.timestampMs

instance (lower start : Datetime) (t : ℕ) : Decidable (inWindow lower start t) :=
  inferInstanceAs (Decidable (_ ∧ _))

/-- The returns of both markets at the times they share, in order of time.  The
returns of a market have distinct times in order. -/
def pairReturns (left right : List MarketReturn) : List (MarketReturn × MarketReturn) :=
  left.filterMap fun l => (right.find? fun r => r.closeTimeMs = l.closeTimeMs).map (Prod.mk l)

/-- The paired returns of a window. -/
def pairsIn (lower start : Datetime) (left right : List MarketReturn) :
    List (MarketReturn × MarketReturn) :=
  pairReturns (left.filter fun r => inWindow lower start r.closeTimeMs)
    (right.filter fun r => inWindow lower start r.closeTimeMs)

variable {δ : Type}

/-- `_correlation_data_hash`. -/
def correlationDataHash (sha256 : Text → δ) (marketIds : Text × Text)
    (pairs : List (MarketReturn × MarketReturn)) : δ :=
  let row (p : MarketReturn × MarketReturn) : Text :=
    joinText '|' [natText p.1.closeTimeMs, p.1.previousCandleHash, p.1.currentCandleHash,
      p.2.previousCandleHash, p.2.currentCandleHash] ++ [';']
  sha256 (marketIds.1 ++ '|' :: (marketIds.2 ++ '|' :: pairs.flatMap row))

/-- The status and the value for the pairs of a window. -/
def correlate (pairs : List (MarketReturn × MarketReturn)) :
    Except CorrelationError (CorrelationStatus × Option ℚ) :=
  if pairs.length < minPairedReturns then .ok (.insufficientData, none)
  else do
    let value ← pearsonCorrelation (pairs.map fun p => p.1.value) (pairs.map fun p => p.2.value)
    pure (if value.isNone then .undefined else .computed, value)

/-- `_pairwise_correlation` from the returns of the two markets, in the order of
their ids. -/
def correlationOf (sha256 : Text → δ) (marketIds : Text × Text) (start : Datetime)
    (left right : List MarketReturn) : Except CorrelationError (PairwiseCorrelation δ) := do
  let lower ← lookbackStart start
  let pairs := pairsIn lower start left right
  let (status, value) ← correlate pairs
  pure
    { marketIds := marketIds
      windowStart := lower
      windowEnd := start
      pairedReturnCount := pairs.length
      status := status
      pearson := value
      pairedReturnEvidence := pairs.map fun p => ⟨p.1.previousCandleHash, p.1.currentCandleHash,
        p.2.previousCandleHash, p.2.currentCandleHash⟩
      correlationDataHash := correlationDataHash sha256 marketIds pairs }

/-- `_pairwise_correlation`. -/
def pairwiseCorrelation (sha256 : Text → δ) (returns : Text → Option (List MarketReturn))
    (start : Datetime) (marketIds : Text × Text) : Except CorrelationError (PairwiseCorrelation δ) :=
  match returns marketIds.1, returns marketIds.2 with
  | some left, some right => correlationOf sha256 marketIds start left right
  | _, _ => .error .missingMarket

/-! ### Event windows -/

/-- `CORRELATION_EVENT_WINDOW`. -/
def eventWindowSeconds : ℕ := 900

/-- A window that is being filled. -/
structure OpenWindow where
  start : Datetime
  stop : Datetime
  members : List ShadowSignal

def openWindow (s : ShadowSignal) : Except CorrelationError OpenWindow :=
  match s.confirmedAtUtc.addSeconds eventWindowSeconds with
  | none => .error .overflow
  | some stop => .ok ⟨s.confirmedAtUtc, stop, [s]⟩

/-- The two loops over the ordered signals of a scope. -/
def windowsFrom : OpenWindow → List ShadowSignal →
    Except CorrelationError (List (Datetime × List ShadowSignal))
  | w, [] => .ok [(w.start, w.members)]
  | w, s :: rest =>
    if s.confirmedAtUtc ≤ w.stop then windowsFrom { w with members := w.members ++ [s] } rest
    else do
      let next ← openWindow s
      pure ((w.start, w.members) :: (← windowsFrom next rest))

def scopeWindows (signals : List ShadowSignal) :
    Except CorrelationError (List (Datetime × List ShadowSignal)) :=
  match sortBy ShadowSignal.timeKey signals with
  | [] => .ok []
  | s :: rest => do windowsFrom (← openWindow s) rest

/-- `grouped[key(item)].append(item)`, for every item. -/
def groupBy {α κ : Type} [DecidableEq κ] (key : α → κ) (items : List α) : Dict κ (List α) :=
  items.foldl (fun d item => d.set (key item) ((d.get? (key item)).getD [] ++ [item])) Dict.empty

/-- `_event_windows`. -/
def eventWindows (signals : List ShadowSignal) :
    Except CorrelationError (List (Datetime × List ShadowSignal)) := do
  let windows ← (groupBy ShadowSignal.scope signals).values.mapM scopeWindows
  pure (sortBy Prod.fst windows.flatten)

/-! ### The table of pairs -/

/-- `combinations(l, 2)`. -/
def pairsOf {α : Type} : List α → List (α × α)
  | [] => []
  | a :: l => l.map (Prod.mk a) ++ pairsOf l

/-- The key of `pair_lookup`. -/
abbrev PairKey := Datetime × Text × Text

def pairKey (start : Datetime) (a b : ShadowSignal) : PairKey :=
  (start, marketPairIds a.marketId b.marketId)

/-- `pair_lookup` and `unknown_ids`. -/
structure PairTable (δ : Type) where
  lookup : Dict PairKey (PairwiseCorrelation δ)
  unknown : Finset Text

/-- The body of the loop over the pairs of a window. -/
def PairTable.add (correlation : PairKey → Except CorrelationError (PairwiseCorrelation δ))
    (start : Datetime) (table : PairTable δ) (pair : ShadowSignal × ShadowSignal) :
    Except CorrelationError (PairTable δ) := do
  let key := pairKey start pair.1 pair.2
  let (lookup, result) ← match table.lookup.get? key with
    | some known => pure (table.lookup, known)
    | none => do
      let fresh ← correlation key
      pure (table.lookup.set key fresh, fresh)
  pure ⟨lookup, if result.status = .computed then table.unknown
    else insert pair.1.shadowOrderId (insert pair.2.shadowOrderId table.unknown)⟩

/-- The pairs of all windows, in the order of the loops. -/
def windowPairs (windows : List (Datetime × List ShadowSignal)) :
    List (Datetime × ShadowSignal × ShadowSignal) :=
  windows.flatMap fun w => (pairsOf w.2).map (Prod.mk w.1)

def pairTable (correlation : PairKey → Except CorrelationError (PairwiseCorrelation δ))
    (windows : List (Datetime × List ShadowSignal)) : Except CorrelationError (PairTable δ) :=
  (windowPairs windows).foldlM (fun table p => table.add correlation p.1 p.2) ⟨Dict.empty, ∅⟩

/-! ### Clusters -/

inductive ClusterKind
  | setupResearch
  | exposure
deriving DecidableEq, Repr

structure WinLossDispersion where
  winCount : ℕ
  lossCount : ℕ
  breakevenCount : ℕ
  unavailableCount : ℕ
deriving DecidableEq

structure ClusterResearchMetrics where
  meanR : Option ℚ
  medianR : Option ℚ
  bestR : Option ℚ
  worstR : Option ℚ
  meanMfe : Option ℚ
  meanMae : Option ℚ
  memberCount : ℕ
  winLossDispersion : Option WinLossDispersion
deriving DecidableEq

structure Cluster (δ : Type) where
  clusterId : δ
  kind : ClusterKind
  threshold : ℚ
  strategyVersion : Text
  parameterVersion : Text
  setupFamily : Option Text
  direction : Text
  eventStart : Datetime
  members : List ShadowSignal
  leader : ShadowSignal
  correlationUnknown : Bool
  researchMetrics : ClusterResearchMetrics
deriving DecidableEq

/-- `event_start.astimezone(UTC).isoformat()`. -/
def isoUtc (d : Datetime) : Text := d.secondText ++ (d.fractionText ++ "+00:00".toList)

/-- `_cluster_id`; the setup family is there for a setup research cluster only. -/
def clusterId (sha256 : Text → δ) (leader : ShadowSignal) (setupFamily : Option Text)
    (start : Datetime) (members : List ShadowSignal) : δ :=
  sha256 (leader.strategyVersion ++ leader.parameterVersion ++ setupFamily.getD []
    ++ leader.direction ++ isoUtc start ++ (sortBy id (members.map ShadowSignal.shadowOrderId)).flatten)

/-- `_mean`. -/
def meanOf? (values : List ℚ) : Option ℚ := if values = [] then none else some (meanOf values)

/-- `_median`. -/
def median? (values : List ℚ) : Option ℚ := if values = [] then none else some (median values)

/-- `_cluster_research_metrics`. -/
def clusterResearchMetrics (members : List ShadowSignal) : ClusterResearchMetrics :=
  let rValues := members.filterMap ShadowSignal.outcomeR
  { meanR := meanOf? rValues
    medianR := median? rValues
    bestR := maxBy id rValues
    worstR := minBy id rValues
    meanMfe := meanOf? (members.filterMap ShadowSignal.outcomeMfe)
    meanMae := meanOf? (members.filterMap ShadowSignal.outcomeMae)
    memberCount := members.length
    winLossDispersion := if rValues = [] then none
      else some ⟨rValues.countP (0 < ·), rValues.countP (· < 0), rValues.countP (· = 0),
        members.length - rValues.length⟩ }

/-- `pair_lookup[key]`. -/
def PairTable.pair (table : PairTable δ) (start : Datetime) (a b : ShadowSignal) :
    Except CorrelationError (PairwiseCorrelation δ) :=
  (table.lookup.get? (pairKey start a b)).elim (.error .keyError) .ok

/-- The test of one member of a cluster. -/
def PairTable.correlated (table : PairTable δ) (start : Datetime) (threshold : ℚ)
    (candidate member : ShadowSignal) : Except CorrelationError Bool := do
  let result ← table.pair start candidate member
  pure (result.status = .computed && result.pearson.any fun pearson => threshold ≤ pearson)

/-- The candidate joins the first cluster it is correlated with throughout. -/
def PairTable.place (table : PairTable δ) (start : Datetime) (threshold : ℚ) :
    List (List ShadowSignal) → ShadowSignal → Except CorrelationError (List (List ShadowSignal))
  | [], candidate => .ok [[candidate]]
  | cluster :: rest, candidate => do
    if ← cluster.allM (table.correlated start threshold candidate) then
      pure ((cluster ++ [candidate]) :: rest)
    else pure (cluster :: (← table.place start threshold rest candidate))

/-- One finished cluster. -/
def PairTable.build (table : PairTable δ) (sha256 : Text → δ) (kind : ClusterKind) (start : Datetime)
    (threshold : ℚ) (members : List ShadowSignal) : Except CorrelationError (Cluster δ) :=
  match sortBy ShadowSignal.leaderKey members with
  | [] => .error .indexError
  | leader :: others => do
    let ordered := leader :: others
    let unknown ← if ordered.any fun s => s.shadowOrderId ∈ table.unknown then pure true
      else (pairsOf ordered).anyM fun p => do
        pure ((← table.pair start p.1 p.2).status ≠ .computed)
    let setup := if kind = .setupResearch then some leader.setupFamily else none
    pure
      { clusterId := clusterId sha256 leader setup start ordered
        kind := kind
        threshold := threshold
        strategyVersion := leader.strategyVersion
        parameterVersion := leader.parameterVersion
        setupFamily := setup
        direction := leader.direction
        eventStart := start
        members := ordered
        leader := leader
        correlationUnknown := unknown
        researchMetrics := clusterResearchMetrics ordered }

/-- `_cluster_window`. -/
def PairTable.clusterWindow (table : PairTable δ) (sha256 : Text → δ) (kind : ClusterKind)
    (start : Datetime) (threshold : ℚ) (candidates : List ShadowSignal) :
    Except CorrelationError (List (Cluster δ)) := do
  let clusters ← (sortBy ShadowSignal.leaderKey candidates).foldlM (table.place start threshold) []
  clusters.mapM (table.build sha256 kind start threshold)

/-- `_clusters_for_threshold`: the setup research clusters and the exposure
clusters. -/
def PairTable.clustersForThreshold (table : PairTable δ) (sha256 : Text → δ) (threshold : ℚ)
    (windows : List (Datetime × List ShadowSignal)) :
    Except CorrelationError (List (Cluster δ) × List (Cluster δ)) := do
  let built ← windows.mapM fun w => do
    let bySetup := sortBy Prod.fst (groupBy ShadowSignal.setupFamily w.2).entries
    let setup ← bySetup.mapM fun e => table.clusterWindow sha256 .setupResearch w.1 threshold e.2
    let exposure ← table.clusterWindow sha256 .exposure w.1 threshold w.2
    pure (setup.flatten, exposure)
  pure (built.flatMap Prod.fst, built.flatMap Prod.snd)

/-! ### The report -/

structure PerformanceSeries where
  orderedRObservations : List ℚ
  cumulativeREquityCurve : List ℚ
  rSpaceDrawdown : List ℚ
deriving DecidableEq

/-- The loop of `_performance_series`: equity and drawdown from the cumulative
value and the peak on. -/
def equityFrom (cumulative peak : ℚ) : List ℚ → List (ℚ × ℚ)
  | [] => []
  | value :: rest =>
    let next := cadd cumulative value
    let top := max peak next
    (next, csub top next) :: equityFrom next top rest

/-- `_performance_series`. -/
def performanceSeries (observations : List (Option ℚ)) : PerformanceSeries :=
  let ordered := observations.filterMap id
  let series := equityFrom 0 0 ordered
  ⟨ordered, series.map Prod.fst, series.map Prod.snd⟩

structure RawMarketLevelReport where
  signals : List ShadowSignal
  series : PerformanceSeries
deriving DecidableEq

structure ClusterNormalizedMember (δ : Type) where
  clusterId : δ
  shadowOrderId : Text
  memberWeight : ℚ
  weightedOutcomeR : Option ℚ
  rawMarketEvidence : ShadowSignal
deriving DecidableEq

structure ClusterNormalizedReport (δ : Type) where
  members : List (ClusterNormalizedMember δ)
  clusterCount : ℕ
  series : PerformanceSeries
deriving DecidableEq

structure LeaderOnlyReport where
  leaders : List ShadowSignal
  series : PerformanceSeries
deriving DecidableEq

structure SensitivityReport (δ : Type) where
  threshold : ℚ
  setupResearchClusters : List (Cluster δ)
  exposureClusters : List (Cluster δ)
deriving DecidableEq

structure CorrelationReport (δ : Type) where
  rawMarketLevel : RawMarketLevelReport
  setupResearchClusters : List (Cluster δ)
  exposureClusters : List (Cluster δ)
  clusterNormalized : ClusterNormalizedReport δ
  leaderOnly : LeaderOnlyReport
  pairwiseCorrelations : List (PairwiseCorrelation δ)
  sensitivity : List (SensitivityReport δ)
  correlationUnknownCount : ℕ
deriving DecidableEq

/-- `_raw_report`. -/
def rawReport (signals : List ShadowSignal) : RawMarketLevelReport :=
  let chronological := sortBy ShadowSignal.timeKey signals
  ⟨chronological, performanceSeries (chronological.map ShadowSignal.outcomeR)⟩

/-- `_normalized_report`. -/
def normalizedReport (clusters : List (Cluster δ)) : ClusterNormalizedReport δ :=
  let members := clusters.flatMap fun cluster => cluster.members.map fun s =>
    ({ clusterId := cluster.clusterId
       shadowOrderId := s.shadowOrderId
       memberWeight := 1 / cluster.members.length
       weightedOutcomeR := s.outcomeR.map fun r => cdiv r cluster.members.length
       rawMarketEvidence := s } : ClusterNormalizedMember δ)
  let ordered := sortBy (fun m : ClusterNormalizedMember δ =>
    toLex (m.rawMarketEvidence.confirmedAtUtc, m.shadowOrderId)) members
  ⟨ordered, clusters.length, performanceSeries (ordered.map ClusterNormalizedMember.weightedOutcomeR)⟩

/-- `_leader_report`. -/
def leaderReport (clusters : List (Cluster δ)) : LeaderOnlyReport :=
  let leaders := sortBy ShadowSignal.timeKey (clusters.map Cluster.leader)
  ⟨leaders, performanceSeries (leaders.map ShadowSignal.outcomeR)⟩

/-- `PRIMARY_THRESHOLD`. -/
def primaryThreshold : ℚ := 8 / 10

/-- `SENSITIVITY_THRESHOLDS`. -/
def sensitivityThresholds : List ℚ := [7 / 10, primaryThreshold, 9 / 10]

/-- The sort key of the table of pairs. -/
def PairwiseCorrelation.key (p : PairwiseCorrelation δ) : Datetime ×ₗ Text ×ₗ Text :=
  toLex (p.windowEnd, toLex p.marketIds)

/-- The end of `build_correlation_report`, from the finished table of pairs. -/
def assemble (sha256 : Text → δ) (ordered : List ShadowSignal)
    (windows : List (Datetime × List ShadowSignal)) (table : PairTable δ) :
    Except CorrelationError (CorrelationReport δ) := do
  let sensitivity ← sensitivityThresholds.mapM fun threshold => do
    let (setup, exposure) ← table.clustersForThreshold sha256 threshold windows
    pure (⟨threshold, setup, exposure⟩ : SensitivityReport δ)
  let primary := (sensitivity.filter fun view => view.threshold = primaryThreshold).getLast?
  let setup := (primary.map SensitivityReport.setupResearchClusters).getD []
  let exposure := (primary.map SensitivityReport.exposureClusters).getD []
  pure
    { rawMarketLevel := rawReport ordered
      setupResearchClusters := setup
      exposureClusters := exposure
      clusterNormalized := normalizedReport exposure
      leaderOnly := leaderReport exposure
      pairwiseCorrelations := sortBy PairwiseCorrelation.key table.lookup.values
      sensitivity := sensitivity
      correlationUnknownCount := table.unknown.card }

/-- `build_correlation_report` after its two inputs have been put in order. -/
def reportOf (sha256 : Text → δ) (ordered : List ShadowSignal)
    (returns : Text → Option (List MarketReturn)) : Except CorrelationError (CorrelationReport δ) := do
  require (∀ s ∈ ordered, returns s.marketId ≠ none) .missingMarket
  let windows ← eventWindows ordered
  let table ← pairTable (fun key => pairwiseCorrelation sha256 returns key.1 key.2) windows
  assemble sha256 ordered windows table

def buildCorrelationReport (sha256 : Text → δ) (signals : List ShadowSignal)
    (observations : Dict Text (List CloseObservation)) :
    Except CorrelationError (CorrelationReport δ) := do
  let ordered ← validateSignals signals
  let returns ← returnsByMarket observations
  reportOf sha256 ordered returns.get?

end Correlation

end TraderAssist
