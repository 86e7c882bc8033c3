/-
TraderAssist/Kernel/Engine.lean

`evaluate_strategy`: the market event state machine of
`strategy_kernel/engine.py`.  A call consumes the newest closed 5m bar and a
ledger, and returns a new ledger with the decisions taken.

The call is cut at the joints of the source: `prepare` validates the inputs and
derives what is not given, the progress loop moves the ACTIVE events of the
market on, the sweep and the breakout pass create events (one loop body,
`createStep`, with what differs in a `CreationSpec`), the range pass creates
confirmed events, and `invalidateOppositeActive` closes what a confirmation
contradicts.

`_replace` searches for the event object; a position in the ledger stands for
it here, so the loops that replace while they iterate are `eachReplace`.
-/
import TraderAssist.Kernel.Setups

namespace TraderAssist

open Py

variable {δ : Type}

structure StrategyEvaluationInput (δ : Type) where
  bars5m : List Bar
  minimumTick : ℚ
  bars15m : Option (List Bar) := none
  bars1h : Option (List Bar) := none
  zoneBook : Option (ZoneBook δ) := none
  scannerLinkage : Option ScannerLinkage := none
  mandatoryDataValid : Bool := true
  a5Override : Option ℚ := none
  m20Override : Option ℚ := none
  a15Override : Option ℚ := none
  htfContextOverride : Option HtfContext := none

/-- What a call collects besides the ledger. -/
structure Findings (δ : Type) where
  decisions : List (StrategyDecision δ) := []
  acceptedReentries : List ((δ × Side × Text) × BreakoutLinkage δ) := []
  confirmedEvents : List (MarketEvent δ) := []
  creationBlocked : List (SetupFamily × Side) := []

/-- The state of a call between two of its passes. -/
abbrev Pass (δ : Type) := EventLedger δ × Findings δ

/-! ### Progress -/

/-- The body of the progress loop: only ACTIVE events of this market that have
not seen the bar. -/
def progressEvent (bar : Bar) (event : MarketEvent δ) :
    Except KernelError (Option (MarketEvent δ × Progress δ)) :=
  if event.status ≠ .active ∨ event.marketId ≠ bar.marketId then .ok none
  else if bar.openTimeMs ≤ event.latestBar.openTimeMs then .ok none
  else match event.setupFamily with
    | .sweepReclaim => (fun p => some (p.1, p)) <$> progressSweep event bar
    | .breakoutRetest => (fun p => some (p.1, p)) <$> progressBreakout event bar
    | .rangeEdgeRejection => .ok none

/-- `updated.status.terminal and updated.status is not SUPERSEDED`. -/
def blocksCreation (status : EventStatus) : Bool := status.terminal ∧ status ≠ .superseded

/-- The linkage an accepted re-entry leaves for an opposite sweep. -/
def reentryOf (updated : MarketEvent δ) (decision : StrategyDecision δ) :
    List ((δ × Side × Text) × BreakoutLinkage δ) :=
  match updated.breakoutLinkage with
  | none => []
  | some linkage =>
    if decision.reason = .invalidatedAcceptedReentry then
      [((updated.zone.zoneId, updated.side.opposite, updated.marketId),
        ⟨linkage.underlyingBreakoutEventId, linkage.initialBreakoutCandleId,
          some updated.marketEventId⟩)]
    else []

/-- Blocked slots, decisions, confirmations and re-entries of one progressed
event.  The newest entry of `acceptedReentries` comes first, so that a lookup
finds it. -/
def absorbProgress (found : Findings δ) (progress : Progress δ) : Findings δ :=
  let updated := progress.1
  let blocked :=
    if blocksCreation updated.status then [(updated.setupFamily, updated.side)] else []
  match progress.2 with
  | none => { found with creationBlocked := found.creationBlocked ++ blocked }
  | some decision =>
    { decisions := found.decisions ++ [decision]
      acceptedReentries := reentryOf updated decision ++ found.acceptedReentries
      confirmedEvents := found.confirmedEvents
        ++ (if decision.decision = .formalSetupConfirmed then [updated] else [])
      creationBlocked := found.creationBlocked ++ blocked }

/-! ### Replacing one event -/

section

variable (ledger : EventLedger δ)

/-- `_replace`, at a position. -/
def replaceAt [DecidableEq δ] (index : ℕ) (updated : MarketEvent δ) :
    Except KernelError (EventLedger δ) :=
  let events := ledger.set index updated
  if events = ledger then .error .replacementFailed else .ok events

def supersedeForNewZone [DecidableEq δ] (index : ℕ)
    (active : MarketEvent δ) (bar : Bar) :
    Except KernelError (EventLedger δ × StrategyDecision δ) := do
  let updated := active.conclude .superseded .supersededByNewIndependentEvent bar
  let replaced ← replaceAt ledger index updated
  let decision ← decisionOf updated .superseded .supersededByNewIndependentEvent
    updated.transition
  pure (replaced, decision)

def containsEventId [DecidableEq δ] (eventId : δ)
    (family : SetupFamily) : Bool :=
  ledger.any fun item => item.marketEventId = eventId ∧ item.setupFamily = family

/-! ### Candidate creation -/

end

/-- What distinguishes the rounds of the sweep and the breakout pass. -/
structure CreationSpec (δ : Type) where
  family : SetupFamily
  side : Side
  zone : Option (ZoneSnapshot δ)
  requiredType : ZoneType
  candidate : ZoneSnapshot δ → Except KernelError Bool
  newEvent : ZoneSnapshot δ → Option (BreakoutLinkage δ) → MarketEvent δ
  reason : Reason

/-- Appends the event with its decision unless its id is already there; a formal
event is also noted as confirmed. -/
def appendEvent [DecidableEq δ] (kind : DecisionKind) (reason : Reason) (pass : Pass δ)
    (event : MarketEvent δ) : Except KernelError (Pass δ) :=
  if containsEventId pass.1 event.marketEventId event.setupFamily then .ok pass
  else do
    let decision ← decisionOf event kind reason event.transition
    let confirmed := if kind = .formalSetupConfirmed then [event] else []
    pure (pass.1 ++ [event],
      { pass.2 with
        confirmedEvents := pass.2.confirmedEvents ++ confirmed
        decisions := pass.2.decisions ++ [decision] })

/-- One round of a creation pass. -/
def createStep [DecidableEq δ] (bar : Bar) (pass : Pass δ) (spec : CreationSpec δ) :
    Except KernelError (Pass δ) :=
  match spec.zone with
  | none => .ok pass
  | some zone =>
    if !eligible zone spec.requiredType then .ok pass
    else if (spec.family, spec.side) ∈ pass.2.creationBlocked then .ok pass
    else do
      let candidateMatches ← spec.candidate zone
      let linkage := pass.2.acceptedReentries.lookup (zone.zoneId, spec.side, bar.marketId)
      let event := spec.newEvent zone linkage
      match pass.1.active bar.marketId spec.family spec.side with
      | some (active, index) =>
        if active.zone.zoneId = zone.zoneId ∨ !candidateMatches then pure pass
        else
          let cleared ← supersedeForNewZone pass.1 index active bar
          let found := { pass.2 with decisions := pass.2.decisions ++ [cleared.2] }
          appendEvent .wait spec.reason (cleared.1, found) event
      | none => if candidateMatches then appendEvent .wait spec.reason pass event else pure pass

section

variable [LinearOrder δ] (sha256 : Preimage δ → δ)

/-- `_active_zones`. -/
def activeZones (book : ZoneBook δ) : List (ZoneSnapshot δ) := book.zones.filter ZoneSnapshot.usable

/-- What the passes read of the prepared inputs. -/
structure Readings (δ : Type) where
  bar : Bar
  book : ZoneBook δ
  context : HtfContext
  a5 : ℚ
  m20 : ℚ
  scannerLinkage : Option ScannerLinkage

def sweepSpec (r : Readings δ) (side : Side) (zone : Option (ZoneSnapshot δ))
    (requiredType : ZoneType) : CreationSpec δ :=
  { family := .sweepReclaim
    side := side
    zone := zone
    requiredType := requiredType
    candidate := fun zone => .ok (sweepCandidate r.bar zone side r.a5)
    newEvent := fun zone linkage => newSweep sha256 r.bar zone side r.a5 r.m20
      (htfRelation r.context side) r.scannerLinkage linkage
    reason := .sweepCandidateCreated }

def breakoutSpec (r : Readings δ) (side : Side) (zone : Option (ZoneSnapshot δ))
    (requiredType : ZoneType) : CreationSpec δ :=
  { family := .breakoutRetest
    side := side
    zone := zone
    requiredType := requiredType
    candidate := fun zone => initialBreakout r.bar zone side r.a5 r.m20
    newEvent := fun zone _ => newBreakout sha256 r.bar zone side r.a5 r.m20
      (htfRelation r.context side) r.scannerLinkage (activeZones r.book)
    reason := .initialBreakoutEventCreated }

/-- The sweep rounds, then the breakout rounds. -/
def creationSpecs (r : Readings δ) : List (CreationSpec δ) :=
  [sweepSpec sha256 r .long r.book.activeSupport .low,
    sweepSpec sha256 r .short r.book.activeResistance .high,
    breakoutSpec sha256 r .long r.book.activeResistance .high,
    breakoutSpec sha256 r .short r.book.activeSupport .low]

/-! ### Range events -/

def rangeReason : Side → Reason
  | .long => .rangeLongConfirmed
  | .short => .rangeShortConfirmed

/-- One round of the range pass. -/
def rangeStep (r : Readings δ) (previousClose : ℚ) (pass : Pass δ)
    (spec : Side × Option (ZoneSnapshot δ) × Option (ZoneSnapshot δ)) :
    Except KernelError (Pass δ) :=
  match spec.2.1, spec.2.2 with
  | some zone, some other => do
    let fires ← rangeCandidate r.bar previousClose zone spec.1 r.a5 r.m20
    if fires then
      appendEvent .formalSetupConfirmed (rangeReason spec.1) pass
        (newRange sha256 r.bar zone other spec.1 r.a5 r.m20 (htfRelation r.context spec.1)
          r.scannerLinkage)
    else pure pass
  | _, _ => .ok pass

def rangePass (r : Readings δ) (bars5m bars15m : List Bar) (a15Override : Option ℚ)
    (pass : Pass δ) : Except KernelError (Pass δ) := do
  let valid ← rangeValid r.book.activeSupport r.book.activeResistance bars15m a15Override
  match valid, bars5m.dropLast.getLast? with
  | true, some previous =>
    [(Side.long, r.book.activeSupport, r.book.activeResistance),
      (Side.short, r.book.activeResistance, r.book.activeSupport)].foldlM
        (rangeStep sha256 r previous.close) pass
  | _, _ => pure pass

end

/-! ### Invalidation and shutdown -/

/-- The event is ACTIVE, on the other side of a formal event of its market, and
older than the bar that confirmed it. -/
def opposedBy (formal event : MarketEvent δ) : Bool :=
  event.marketId = formal.marketId ∧ event.side = formal.side.opposite
    ∧ event.status = .active ∧ event.createdBar.openTimeMs < formal.latestBar.openTimeMs

def opposeEvent (formal event : MarketEvent δ) :
    Except KernelError (Option (MarketEvent δ × StrategyDecision δ)) :=
  if opposedBy formal event then do
    let updated := event.conclude .invalidated .invalidatedByOppositeFormalEvent formal.latestBar
    let decision ← decisionOf updated .invalidated .oppositeFormalEvent updated.transition
    pure (some (updated, decision))
  else .ok none

def invalidateOppositeActive [DecidableEq δ] (ledger : EventLedger δ)
    (confirmed : List (MarketEvent δ)) :
    Except KernelError (EventLedger δ × List (StrategyDecision δ)) :=
  confirmed.foldlM (fun acc formal =>
    eachReplace .replacementFailed (opposeEvent formal) (fun ds d => ds ++ [d]) acc.1 acc.2)
    (ledger, [])

def dataInvalidEvent (bar : Bar) (event : MarketEvent δ) :
    Except KernelError (Option (MarketEvent δ × StrategyDecision δ)) :=
  if event.status = .active then do
    let updated := event.conclude .dataInvalid .coreDataInvalid bar
    let decision ← decisionOf updated .dataInvalid .multitimeframeDataInvalid updated.transition
    pure (some (updated, decision))
  else .ok none

def markUnresolvedAtShutdown (ledger : EventLedger δ) : EventLedger δ :=
  ledger.map fun event =>
    if event.status = .active then
      { event with status := .unresolvedAtShutdown, transition := .unresolvedAtShutdown }
    else event

/-! ### The call -/

section

variable [LinearOrder δ] (sha256 : Preimage δ → δ)

structure Prepared (δ : Type) where
  currentBar : Bar
  bars15m : List Bar
  context : HtfContext
  book : ZoneBook δ

section

variable (inputs : StrategyEvaluationInput δ)

/-- The 15m bars of a call: given and validated, or aggregated. -/
def bars15mOf : Except KernelError (List Bar) :=
  match inputs.bars15m with
  | none => aggregateClosed5mCausally inputs.bars5m 15
  | some bars => do
    validateSeries bars (some .m15)
    pure bars

/-- The 1h bars of a call: given and, unless empty, validated, or aggregated. -/
def bars1hOf : Except KernelError (List Bar) :=
  match inputs.bars1h with
  | none => aggregateClosed5mCausally inputs.bars5m 60
  | some [] => .ok []
  | some bars => do
    validateSeries bars (some .h1)
    pure bars

def bookOf (bars15m : List Bar) :
    Except KernelError (ZoneBook δ) :=
  givenOr inputs.zoneBook
    (if bars15m = [] then .error .needs15m else buildZoneBook sha256 bars15m inputs.minimumTick)

/-- Validation of the inputs, and what is derived from them where it is not
given. -/
def prepare : Except KernelError (Prepared δ) := do
  validateSeries inputs.bars5m (some .m5)
  let bars15m ← bars15mOf inputs
  let bars1h ← bars1hOf inputs
  let context ← givenOr inputs.htfContextOverride (htfContext bars1h)
  let book ← bookOf sha256 inputs bars15m
  match inputs.bars5m.getLast? with
  | none => throw .historyEmpty  -- not reached: the validation rejects an empty history
  | some currentBar => pure ⟨currentBar, bars15m, context, book⟩

end

/-- The passes of a call whose data is valid. -/
def runPasses (r : Readings δ) (bars5m bars15m : List Bar) (a15Override : Option ℚ)
    (ledger : EventLedger δ) : Except KernelError (Pass δ) := do
  let progressed ← eachReplace .replacementFailed (progressEvent r.bar) absorbProgress ledger {}
  let created ← (creationSpecs sha256 r).foldlM (createStep r.bar) progressed
  let ranged ← rangePass sha256 r bars5m bars15m a15Override created
  let final ← invalidateOppositeActive ranged.1 ranged.2.confirmedEvents
  pure (final.1, { ranged.2 with decisions := ranged.2.decisions ++ final.2 })

/-- The result of a call, from its final ledger and decisions. -/
def resultOf (p : Prepared δ) (ledger : EventLedger δ) (decisions : List (StrategyDecision δ)) :
    KernelResult δ :=
  ⟨ledger, decisions, p.book.zones, p.book.activeSupport, p.book.activeResistance, p.context⟩

/-- A call whose mandatory data is not valid closes every ACTIVE event. -/
def evaluateInvalid (p : Prepared δ) (ledger : EventLedger δ) :
    Except KernelError (KernelResult δ) := do
  let final ← eachReplace .replacementFailed (dataInvalidEvent p.currentBar)
    (fun ds d => ds ++ [d]) ledger []
  pure (resultOf p final.1 final.2)

def evaluateValid (inputs : StrategyEvaluationInput δ) (p : Prepared δ) (ledger : EventLedger δ) :
    Except KernelError (KernelResult δ) := do
  let a5 ← givenOr inputs.a5Override (wilderAtr14 inputs.bars5m)
  let m20 ← givenOr inputs.m20Override (medianPrevious20Volume inputs.bars5m)
  let r : Readings δ := ⟨p.currentBar, p.book, p.context, a5, m20, inputs.scannerLinkage⟩
  let final ← runPasses sha256 r inputs.bars5m p.bars15m inputs.a15Override ledger
  pure (resultOf p final.1 final.2.decisions)

def evaluateStrategy (inputs : StrategyEvaluationInput δ) (ledger : EventLedger δ) :
    Except KernelError (KernelResult δ) := do
  let p ← prepare sha256 inputs
  if !inputs.mandatoryDataValid then evaluateInvalid p ledger
  else evaluateValid sha256 inputs p ledger

end

end TraderAssist
