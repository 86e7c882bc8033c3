/-
TraderAssist/Kernel/Types.lean

The immutable contracts of the strategy kernel (`strategy_kernel/types.py`).

Prices and times a decision is computed from are values: `ℚ` for decimals, `ℕ`
for milliseconds.  A `Bar` keeps the representation of its five decimals as
well, because `candle_id` hashes their printed form; `open_`, `high`, `low`,
`close` and `volume` are the values.  What a constructor of the source checks is
a field here, so that a bar with a broken range, a zone with a broken geometry
or a decision with an impossible mode cannot be built; the `make` functions are
the checking constructors, with the source's errors.
-/
import TraderAssist.Lib.Digest
import TraderAssist.Lib.Raises

namespace TraderAssist

open Py

/-! ### Versions and enumerations -/

/-- `FL-MA-PRICE-ACTION-v0.1`. -/
def strategyVersion : Text :=
  ['F', 'L', '-', 'M', 'A', '-', 'P', 'R', 'I', 'C', 'E', '-', 'A', 'C', 'T', 'I', 'O', 'N', '-',
    'v', '0', '.', '1']

/-- `2026-08-03-r1`. -/
def parameterVersion : Text :=
  ['2', '0', '2', '6', '-', '0', '8', '-', '0', '3', '-', 'r', '1']

inductive Side
  | long
  | short
deriving DecidableEq, Repr

namespace Side

def value : Side → Text
  | long => ['L', 'O', 'N', 'G']
  | short => ['S', 'H', 'O', 'R', 'T']

def opposite : Side → Side
  | long => short
  | short => long

/-- `long if side is Side.LONG else short`. -/
def pick {α : Type} (s : Side) (ifLong ifShort : α) : α :=
  match s with
  | long => ifLong
  | short => ifShort

@[simp] theorem opposite_opposite (s : Side) : s.opposite.opposite = s := by
  cases s <;> rfl

end Side

inductive SetupFamily
  | sweepReclaim
  | breakoutRetest
  | rangeEdgeRejection
deriving DecidableEq, Repr

inductive SetupMode
  | microFast
  | standard
deriving DecidableEq, Repr

inductive RetestType
  | deep
  | shallow
deriving DecidableEq, Repr

inductive DecisionKind
  | wait
  | formalSetupConfirmed
  | invalidated
  | superseded
  | dataInvalid
deriving DecidableEq, Repr

inductive EventStatus
  | active
  | confirmed
  | invalidated
  | superseded
  | dataInvalid
  | unresolvedAtShutdown
deriving DecidableEq, Repr

def EventStatus.terminal (s : EventStatus) : Bool := s ≠ .active

inductive ZoneType
  | high
  | low
deriving DecidableEq, Repr

def ZoneType.value : ZoneType → Text
  | high => ['H', 'I', 'G', 'H']
  | low => ['L', 'O', 'W']

/-- The order of the values `"HIGH" < "LOW"`, as sorting keys use it. -/
def ZoneType.key : ZoneType → ℕ
  | high => 0
  | low => 1

inductive ZoneQuality
  | zq1
  | zq2
  | zq3
deriving DecidableEq, Repr

def ZoneQuality.rank : ZoneQuality → ℕ
  | zq1 => 1
  | zq2 => 2
  | zq3 => 3

inductive HtfMomentum
  | up
  | down
  | neutral
  | unavailable
deriving DecidableEq, Repr

inductive HtfStructure
  | up
  | down
  | range
  | transition
  | insufficient
  | unavailable
deriving DecidableEq, Repr

inductive HtfRelation
  | alignedStrong
  | alignedPartial
  | countertrendStrong
  | countertrendPartial
  | conflicted
  | neutral
  | contextIncomplete
deriving DecidableEq, Repr

inductive ScannerState
  | watchMomentum
  | watchNearLevel
  | watchNewMarket
  | breakoutDetected
  | retestPending
  | breakoutRetestReady
  | failedBreakoutSweepWatch
  | failedInvalidatedInsideRange
  | lateWatch
  | rejectedChaseForAction
  | expiredNoRetest
deriving DecidableEq, Repr

inductive TargetKind
  | zone
  | rangeCenter
  | sourceZoneCenter
  | directionalZoneSetFrozen
  | openSpaceReference
deriving DecidableEq, Repr

/-- The labels the engine writes into `MarketEvent.transition`. -/
inductive Transition
  | sweepCandidateCreated
  | sweepWaitConfirmation
  | supersededByNewIndependentEvent
  | invalidatedAcceptedOutside
  | formalSetupConfirmed
  | initialBreakoutEventCreated
  | invalidatedAcceptedReentry
  | pullbackStartedStandardOnly
  | microFastWait
  | standardWaitNoEconomicTimeout
  | invalidatedByOppositeFormalEvent
  | coreDataInvalid
  | unresolvedAtShutdown
deriving DecidableEq, Repr

/-- The reasons the engine gives in a decision. -/
inductive Reason
  | supersededByNewIndependentEvent
  | invalidatedAcceptedOutside
  | sweepReclaimConfirmed
  | invalidatedAcceptedReentry
  | breakoutMicroFastConfirmed
  | breakoutStandardConfirmedDeepRetest
  | breakoutStandardConfirmedShallowRetest
  | oppositeFormalEvent
  | multitimeframeDataInvalid
  | sweepCandidateCreated
  | initialBreakoutEventCreated
  | rangeLongConfirmed
  | rangeShortConfirmed
deriving DecidableEq, Repr

inductive Interval
  | m5
  | m15
  | h1
deriving DecidableEq, Repr

namespace Interval

def value : Interval → Text
  | m5 => ['5', 'm']
  | m15 => ['1', '5', 'm']
  | h1 => ['1', 'h']

def ms : Interval → ℕ
  | m5 => 300000
  | m15 => 900000
  | h1 => 3600000

theorem ms_pos (i : Interval) : 0 < i.ms := by
  cases i <;> decide

end Interval

/-! ### Errors -/

/-- `KernelInputError`, one constructor for each message. -/
inductive KernelError
  | barIdentity
  | barTimeGeometry
  | ohlcNotPositive
  | volumeNegative
  | ohlcRange
  | zoneGeometry
  | zoneMembership
  | nonFormalMode
  | nonBreakoutMode
  | microFastRetest
  | breakoutModeRequired
  | historyEmpty
  | historyIdentity
  | historyAlignment
  | historyGap
  | aggregationFrozen
  | fiveMinuteGap
  | atrTooShort
  | m20TooShort
  | m20Invalid
  | clvRange
  | er8TooShort
  | d8Invalid
  | zoneContinuation
  | minimumTick
  | zoneNeedsA15
  | needs15m
  | sweepIncomplete
  | breakoutIncomplete
  | previousBarMissing
  | impulseMissing
  | pullbackMissing
  | replacementFailed
deriving DecidableEq, Repr

namespace KernelError

/-- The errors that report a broken event, a broken ledger or an impossible
decision mode, and not a bad input. -/
def internal : KernelError → Bool
  | nonFormalMode | nonBreakoutMode | microFastRetest | breakoutModeRequired => true
  | sweepIncomplete | breakoutIncomplete | previousBarMissing => true
  | impulseMissing | pullbackMissing | replacementFailed => true
  | _ => false

end KernelError

/-! ### Bars -/

/-- A received, closed candle. -/
structure Bar where
  marketId : Text
  interval : Interval
  openTimeMs : ℕ
  closeTimeMs : ℕ
  openRepr : Decimal
  highRepr : Decimal
  lowRepr : Decimal
  closeRepr : Decimal
  volumeRepr : Decimal
  sourceIdentity : Text
  marketId_ne : marketId ≠ []
  times : openTimeMs < closeTimeMs
  open_pos : 0 < openRepr.toRat
  high_pos : 0 < highRepr.toRat
  low_pos : 0 < lowRepr.toRat
  close_pos : 0 < closeRepr.toRat
  volume_nonneg : 0 ≤ volumeRepr.toRat
  open_le_high : openRepr.toRat ≤ highRepr.toRat
  close_le_high : closeRepr.toRat ≤ highRepr.toRat
  low_le_open : lowRepr.toRat ≤ openRepr.toRat
  low_le_close : lowRepr.toRat ≤ closeRepr.toRat
deriving DecidableEq

/-- The market of the samples has a name. -/
theorem marketM_ne : (['M'] : Text) ≠ [] := List.cons_ne_nil _ _

namespace Bar

/-- The checking constructor of the source, check by check. -/
def make (marketId : Text) (interval : Interval) (openTimeMs closeTimeMs : ℕ)
    (openRepr highRepr lowRepr closeRepr volumeRepr : Decimal) (sourceIdentity : Text) :
    Except KernelError Bar :=
  if hm : marketId ≠ [] then
    if ht : openTimeMs < closeTimeMs then
      if hp : 0 < openRepr.toRat ∧ 0 < highRepr.toRat ∧ 0 < lowRepr.toRat
          ∧ 0 < closeRepr.toRat then
        if hv : 0 ≤ volumeRepr.toRat then
          if hr : (openRepr.toRat ≤ highRepr.toRat ∧ closeRepr.toRat ≤ highRepr.toRat)
              ∧ lowRepr.toRat ≤ openRepr.toRat ∧ lowRepr.toRat ≤ closeRepr.toRat then
            .ok ⟨marketId, interval, openTimeMs, closeTimeMs, openRepr, highRepr, lowRepr,
              closeRepr, volumeRepr, sourceIdentity, hm, ht, hp.1, hp.2.1, hp.2.2.1, hp.2.2.2,
              hv, hr.1.1, hr.1.2, hr.2.1, hr.2.2⟩
          else .error .ohlcRange
        else .error .volumeNegative
      else .error .ohlcNotPositive
    else .error .barTimeGeometry
  else .error .barIdentity

def open_ (b : Bar) : ℚ := b.openRepr.toRat
def high (b : Bar) : ℚ := b.highRepr.toRat
def low (b : Bar) : ℚ := b.lowRepr.toRat
def close (b : Bar) : ℚ := b.closeRepr.toRat
def volume (b : Bar) : ℚ := b.volumeRepr.toRat

theorem low_le_high (b : Bar) : b.low ≤ b.high := b.low_le_open.trans b.open_le_high

/-- The text `candle_id` hashes. -/
def candleText (b : Bar) : Text :=
  joinText '|' [b.marketId, b.interval.value, natText b.openTimeMs, natText b.closeTimeMs,
    b.openRepr.str, b.highRepr.str, b.lowRepr.str, b.closeRepr.str, b.volumeRepr.str,
    b.sourceIdentity]

def candleId {δ : Type} (sha256 : Preimage δ → δ) (b : Bar) : δ := sha256 (lit b.candleText)

/-- Market, interval and open time can be read off the text, given the first
two: the open time is digits up to a bar. -/
theorem openTimeMs_eq_of_candleText {a b : Bar} (hm : a.marketId = b.marketId)
    (hi : a.interval = b.interval) (h : a.candleText = b.candleText) : a.openTimeMs = b.openTimeMs := by
  simp only [candleText, joinText, hm, hi, List.append_cancel_left_eq, List.cons.injEq, true_and] at h
  exact natText_injective ((allDigits_natText _).append_cons_inj (allDigits_natText _) (by decide) h).1

theorem openTimeMs_eq_of_candleId {δ : Type} {sha256 : Preimage δ → δ}
    (hsha : Function.Injective sha256) {a b : Bar} (hm : a.marketId = b.marketId)
    (hi : a.interval = b.interval) (h : a.candleId sha256 = b.candleId sha256) :
    a.openTimeMs = b.openTimeMs :=
  openTimeMs_eq_of_candleText hm hi (lit_injective (hsha h))

end Bar

/-! ### Reactions and zones -/

structure Reaction (δ : Type) where
  reactionId : δ
  marketId : Text
  zoneType : ZoneType
  pivotBarIndex : ℕ
  confirmedBarIndex : ℕ
  price : ℚ
  a15Reaction : ℚ
deriving DecidableEq

structure ZoneSnapshot (δ : Type) where
  zoneId : δ
  marketId : Text
  zoneType : ZoneType
  center : ℚ
  low : ℚ
  high : ℚ
  halfWidth : ℚ
  quality : ZoneQuality
  reactionCount : ℕ
  latestReactionBarIndex : ℕ
  memberReactionIds : List δ
  activeForNewEvent : Bool
  suppressed : Bool
  low_le_center : low ≤ center
  center_le_high : center ≤ high
  halfWidth_pos : 0 < halfWidth
  count_eq : reactionCount = memberReactionIds.length
deriving DecidableEq

namespace ZoneSnapshot

variable {δ : Type}

/-- The checking constructor; a digest is never the empty string. -/
def make (zoneId : δ) (marketId : Text) (zoneType : ZoneType) (center low high halfWidth : ℚ)
    (quality : ZoneQuality) (reactionCount latestReactionBarIndex : ℕ)
    (memberReactionIds : List δ) (activeForNewEvent : Bool) :
    Except KernelError (ZoneSnapshot δ) :=
  if hg : low ≤ center ∧ center ≤ high then
    if hm : 0 < halfWidth ∧ reactionCount = memberReactionIds.length then
      .ok ⟨zoneId, marketId, zoneType, center, low, high, halfWidth, quality, reactionCount,
        latestReactionBarIndex, memberReactionIds, activeForNewEvent, false, hg.1, hg.2, hm.1,
        hm.2⟩
    else .error .zoneMembership
  else .error .zoneGeometry

def width (z : ZoneSnapshot δ) : ℚ := csub z.high z.low

def contains (z : ZoneSnapshot δ) (value : ℚ) : Bool := z.low ≤ value ∧ value ≤ z.high

end ZoneSnapshot

/-! ### Context, linkage and decisions -/

structure HtfContext where
  momentum : HtfMomentum
  htfStructure : HtfStructure
  er8 : Option ℚ
  d8 : Option ℚ
deriving DecidableEq, Repr

structure ScannerLinkage where
  candidateId : Text
  state : ScannerState
  scannerVersion : Text
deriving DecidableEq, Repr

structure TargetReference (δ : Type) where
  kind : TargetKind
  price : Option ℚ
  zoneId : Option δ := none
  frozenDirectionalZones : List (ZoneSnapshot δ) := []
deriving DecidableEq

structure BreakoutLinkage (δ : Type) where
  underlyingBreakoutEventId : δ
  initialBreakoutCandleId : δ
  acceptedReentrySourceEventId : Option δ := none
deriving DecidableEq, Repr

/-- What `StrategyDecision.__post_init__` accepts. -/
def checkModes (decision : DecisionKind) (family : SetupFamily) (mode : Option SetupMode)
    (retest : Option RetestType) : Except KernelError Unit :=
  if decision ≠ .formalSetupConfirmed then
    if mode ≠ none ∨ retest ≠ none then .error .nonFormalMode else .ok ()
  else if family ≠ .breakoutRetest then
    if mode ≠ none ∨ retest ≠ none then .error .nonBreakoutMode else .ok ()
  else if mode = some .microFast then
    if retest ≠ none then .error .microFastRetest else .ok ()
  else if mode = some .standard ∧ retest ≠ none then .ok ()
  else .error .breakoutModeRequired

structure StrategyDecision (δ : Type) where
  marketId : Text
  setupFamily : SetupFamily
  setupMode : Option SetupMode
  retestType : Option RetestType
  side : Side
  decision : DecisionKind
  reason : Reason
  marketEventId : δ
  zoneSnapshot : ZoneSnapshot δ
  a5Event : ℚ
  m20Event : ℚ
  htfRelation : HtfRelation
  breakoutLinkage : Option (BreakoutLinkage δ)
  idealEntryLow : Option ℚ
  idealEntryHigh : Option ℚ
  chaseLimit : Option ℚ
  structuralStop : Option ℚ
  targetReference : Option (TargetReference δ)
  transition : Transition
  scannerLinkage : Option ScannerLinkage
  modes : checkModes decision setupFamily setupMode retestType = .ok ()
deriving DecidableEq

/-! ### Events and results -/

structure MarketEvent (δ : Type) where
  marketEventId : δ
  marketId : Text
  setupFamily : SetupFamily
  side : Side
  status : EventStatus
  transition : Transition
  zone : ZoneSnapshot δ
  createdBar : Bar
  latestBar : Bar
  a5Event : ℚ
  m20Event : ℚ
  htfRelation : HtfRelation
  scannerLinkage : Option ScannerLinkage := none
  breakoutLinkage : Option (BreakoutLinkage δ) := none
  reclaimCandleHigh : Option ℚ := none
  reclaimCandleLow : Option ℚ := none
  sweepExtreme : Option ℚ := none
  initialBreakoutOpen : Option ℚ := none
  initialBreakoutHigh : Option ℚ := none
  initialBreakoutLow : Option ℚ := none
  initialBreakoutClose : Option ℚ := none
  previousClose : Option ℚ := none
  previousHigh : Option ℚ := none
  previousLow : Option ℚ := none
  pullbackStarted : Bool := false
  impulseExtreme : Option ℚ := none
  pullbackExtreme : Option ℚ := none
  retestType : Option RetestType := none
  retestSeenBarTimeMs : Option ℕ := none
  formalMode : Option SetupMode := none
  idealEntryLow : Option ℚ := none
  idealEntryHigh : Option ℚ := none
  chaseLimit : Option ℚ := none
  structuralStop : Option ℚ := none
  targetReference : Option (TargetReference δ) := none
deriving DecidableEq

/-- `EventLedger.events`; the position in the list stands for the identity of
the event object. -/
abbrev EventLedger (δ : Type) := List (MarketEvent δ)

/-- An ACTIVE event of the given market, family and side. -/
def MarketEvent.activeIn {δ : Type} (marketId : Text) (family : SetupFamily) (side : Side)
    (e : MarketEvent δ) : Bool :=
  e.marketId = marketId ∧ e.setupFamily = family ∧ e.side = side ∧ e.status = .active

/-- `EventLedger.active`: the newest match, with its position. -/
def EventLedger.active {δ : Type} (ledger : EventLedger δ) (marketId : Text)
    (family : SetupFamily) (side : Side) : Option (MarketEvent δ × ℕ) :=
  ledger.zipIdx.reverse.find? fun p => p.1.activeIn marketId family side

structure KernelResult (δ : Type) where
  ledger : EventLedger δ
  decisions : List (StrategyDecision δ)
  zones : List (ZoneSnapshot δ)
  activeSupport : Option (ZoneSnapshot δ)
  activeResistance : Option (ZoneSnapshot δ)
  htfContext : HtfContext
deriving DecidableEq

end TraderAssist
