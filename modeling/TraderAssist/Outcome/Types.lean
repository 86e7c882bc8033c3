/-
TraderAssist/Outcome/Types.lean

The contracts of the one-minute outcome path (`outcome_engine/models.py`).

Prices are values: every reader of a `OneMinuteBar` and the text its hash is
taken of (`_decimal_text` strips trailing zeros) depend on the values only.  What
the constructors check of times and prices is a field.  Left out: the form of
identifiers, and `source_id`, which nothing reads.
-/
import TraderAssist.Kernel.Types
import TraderAssist.Lib.Dict
import TraderAssist.Lib.Seq

namespace TraderAssist

open Py

def oneMinuteMs : ℕ := 60000

def outcomeHorizonsMinutes : List ℕ := [30, 60, 120]

inductive ShadowState
  | formalShadowPlan
  | watch
deriving DecidableEq, Repr

inductive TransitionKind
  | returnInsideRange
  | acceptedReentry
  | failedBreakout
  | reclaimAttempt
  | reclaimSucceeded
  | reclaimFailed
deriving DecidableEq, Repr

/-- `_EXTENDING_TRANSITIONS`. -/
def TransitionKind.extending : TransitionKind → Bool
  | acceptedReentry | failedBreakout => true
  | _ => false

inductive AdmissionStatus
  | admitted
  | duplicate
  | conflict
  | outsideRequiredWindow
deriving DecidableEq, Repr

inductive MaturityStatus
  | pending
  | mature
  | gapped
  | conflicted
  | detached
deriving DecidableEq, Repr

inductive PathPrimaryResult
  | stopFirst
  | tpFirst
  | noHit
deriving DecidableEq, Repr

inductive ReclaimStatus
  | notApplicable
  | unresolved
  | succeeded
  | failed
deriving DecidableEq, Repr

/-! ### Plans, bars and transitions -/

structure FormalShadowView where
  shadowOrderId : Text
  marketId : Text
  side : Side
  setupFamily : SetupFamily
  outcomeStartMs : ℕ
  plannedEntry : ℚ
  stop : ℚ
  tp1 : ℚ
  atr : ℚ
  tp2 : Option ℚ := none
  zoneLow : Option ℚ := none
  zoneHigh : Option ℚ := none
  state : ShadowState := .formalShadowPlan
  active : Bool := true
  start_aligned : outcomeStartMs % oneMinuteMs = 0
  prices_pos : 0 < plannedEntry ∧ 0 < stop ∧ 0 < tp1 ∧ 0 < atr
  tp2_valid : ∀ target ∈ tp2, 0 < target ∧ side.pick (tp1 ≤ target) (target ≤ tp1)
  zone_together : zoneLow.isSome = zoneHigh.isSome
  zone_valid : ∀ low ∈ zoneLow, ∀ high ∈ zoneHigh, 0 < low ∧ low < high
  side_valid : side.pick (stop < plannedEntry ∧ plannedEntry < tp1)
    (tp1 < plannedEntry ∧ plannedEntry < stop)
deriving DecidableEq

namespace FormalShadowView

def riskDistance (v : FormalShadowView) : ℚ := cabs (csub v.plannedEntry v.stop)

def originalDeadlineMs (v : FormalShadowView) : ℕ := v.outcomeStartMs + 120 * oneMinuteMs

def rLevel (v : FormalShadowView) (multiple : ℚ) : ℚ :=
  let distance := cmul v.riskDistance multiple
  v.side.pick (cadd v.plannedEntry distance) (csub v.plannedEntry distance)

end FormalShadowView

/-- What the hash of a one-minute bar is taken of. -/
structure MinutePayload where
  marketId : Text
  openTimeMs : ℕ
  closeTimeMs : ℕ
  open_ : ℚ
  high : ℚ
  low : ℚ
  close : ℚ
deriving DecidableEq

structure OneMinuteBar where
  marketId : Text
  openTimeMs : ℕ
  open_ : ℚ
  high : ℚ
  low : ℚ
  close : ℚ
  open_aligned : openTimeMs % oneMinuteMs = 0
  low_pos : 0 < low
  range_valid : low ≤ open_ ∧ low ≤ close ∧ open_ ≤ high ∧ close ≤ high

namespace OneMinuteBar

def closeTimeMs (b : OneMinuteBar) : ℕ := b.openTimeMs + oneMinuteMs

def payload (b : OneMinuteBar) : MinutePayload :=
  ⟨b.marketId, b.openTimeMs, b.closeTimeMs, b.open_, b.high, b.low, b.close⟩

/-- `hash_payload`, which the constructor compares `canonical_hash` with. -/
def canonicalHash {δ : Type} (sha256 : MinutePayload → δ) (b : OneMinuteBar) : δ := sha256 b.payload

theorem payload_injective : Function.Injective payload := by
  rintro ⟨⟩ ⟨⟩ h
  obtain ⟨rfl, rfl, -, rfl, rfl, rfl, rfl⟩ := h
  rfl

theorem canonicalHash_injective {δ : Type} {sha256 : MinutePayload → δ}
    (hsha : Function.Injective sha256) : Function.Injective (canonicalHash sha256) :=
  hsha.comp payload_injective

end OneMinuteBar

structure OutcomeTransitionView where
  transitionId : Text
  shadowOrderId : Text
  marketId : Text
  kind : TransitionKind
  occurredAtMs : ℕ
  referencePrice : Option ℚ := none
  occurred_aligned : occurredAtMs % oneMinuteMs = 0
deriving DecidableEq

/-! ### Outcomes -/

structure BarConflict (δ : Type) where
  marketId : Text
  openTimeMs : ℕ
  retainedHash : δ
  conflictingHash : δ
deriving DecidableEq

structure HorizonMetrics where
  horizonMinutes : ℕ
  maturity : MaturityStatus
  windowEndMs : ℕ
  mfe : Option ℚ
  mae : Option ℚ
  mfeAtr : Option ℚ
  maeAtr : Option ℚ
  oneRHit : Bool
  oneAndHalfRHit : Bool
  twoRHit : Bool
  stopHit : Bool
deriving DecidableEq

structure ReverseHorizonMetrics where
  horizonMinutes : ℕ
  maturity : MaturityStatus
  windowEndMs : ℕ
  mfe : Option ℚ
  mae : Option ℚ
  mfeAtr : Option ℚ
  maeAtr : Option ℚ
deriving DecidableEq

structure PathEvaluation where
  primaryResult : PathPrimaryResult
  ambiguousPath : Bool
  ambiguousBarOpenTimes : List ℕ
  stopHit : Bool
  stopHitTimeMs : Option ℕ
  tp1Hit : Bool
  tp1HitTimeMs : Option ℕ
  tp2Hit : Bool
  tp2HitTimeMs : Option ℕ
  oneRHit : Bool
  oneAndHalfRHit : Bool
  twoRHit : Bool
  timeToOneRMs : Option ℕ
  maxMfeBeforeStop : ℚ
  maxProfitGiveback : ℚ
  returnToEntryAfterProfit : Bool
deriving DecidableEq

structure FailedBreakoutResearch where
  failedBreakout : Bool
  firstReturnInsideRangeTimeMs : Option ℕ
  returnInsideRangeDepthAtr : Option ℚ
  acceptedReentryTimeMs : Option ℕ
  mfeBeforeFirstReentry : Option ℚ
  barsOutsideZone : ℕ
  timeOutsideZoneMs : ℕ
  reclaimAttemptCount : ℕ
  reclaimStatus : ReclaimStatus
  maeAfterReentry : Option ℚ
  originalStop : ℚ
  originalR : ℚ
  originalStopHit : Bool
  reverseAnchorTimeMs : Option ℕ
  reverseEntry : Option ℚ
  hypotheticalReverse : List ReverseHorizonMetrics
deriving DecidableEq

structure FormalShadowOutcome (δ : Type) where
  shadowOrderId : Text
  marketId : Text
  evaluatedAtMs : ℕ
  requiredStartMs : ℕ
  originalDeadlineMs : ℕ
  requiredEndMs : ℕ
  pathMaturityStatus : MaturityStatus
  unresolved : Bool
  horizons : List HorizonMetrics
  path : PathEvaluation
  timeToRetestMs : Option ℕ
  returnInsideRange : Bool
  failedBreakout : Bool
  research : Option FailedBreakoutResearch
  conflicts : List (BarConflict δ)
deriving DecidableEq

end TraderAssist
