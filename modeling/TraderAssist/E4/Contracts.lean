/-
TraderAssist/E4/Contracts.lean

The facts of a capture run (`nautilus_e4/contracts.py`) and its admission ledger
(`nautilus_e4/causal.py`).

A replay identity is the digest of the fields that tell one source event from another;
`replayHash` stands for the digest.  Left out: the formats of identifiers, the counters of
the ledger and the fields of a bid/offer state that nothing reads (`health`,
`state_identity`, `reason`).
-/
import TraderAssist.Lib.Dict
import TraderAssist.Lib.Raises
import TraderAssist.Lib.DecimalText

namespace TraderAssist.E4

open Py

variable {δ : Type} [DecidableEq δ]

/-! ### Enumerations -/

inductive CaptureTier
  | discovery
  | watch
  | actionable
deriving DecidableEq, Repr

inductive DataKind
  | bbo
  | depth10
  | trade
  | bar
  | context
deriving DecidableEq, Repr

namespace DataKind

/-- `data_kind in {DataKind.BBO, DataKind.TRADE}`. -/
def isMicro (k : DataKind) : Bool := k = bbo || k = trade

/-- `data_kind in {DataKind.BAR, DataKind.CONTEXT}`. -/
def isLowRate (k : DataKind) : Bool := k = bar || k = context

end DataKind

inductive EvidenceState
  | complete
  | incomplete
  | gapped
  | stale
  | conflicted
  | notEvaluable
  | preDecisionWindowIncomplete
  | interrupted
  | executionModelLimited
deriving DecidableEq, Repr

inductive StreamHealth
  | healthy
  | disconnected
  | reestablishing
deriving DecidableEq, Repr

inductive DecisionState
  | blocked
  | take
  | wait
  | pass
  | nonactivation
  | noSubmit
  | nonfill
  | notEvaluable
deriving DecidableEq, Repr

/-- `decision_state.value`. -/
def DecisionState.value : DecisionState → Text
  | blocked => "BLOCKED".toList
  | take => "TAKE".toList
  | wait => "WAIT".toList
  | pass => "PASS".toList
  | nonactivation => "NONACTIVATION".toList
  | noSubmit => "NO_SUBMIT".toList
  | nonfill => "NONFILL".toList
  | notEvaluable => "NOT_EVALUABLE".toList

inductive LifecycleKind
  | opportunity
  | eligibility
  | armed
  | activation
  | thesis
  | attempt
  | winner
  | exit
deriving DecidableEq, Repr

inductive LifecycleStatus
  | active
  | terminal
  | expired
  | superseded
deriving DecidableEq, Repr

inductive TailPhase
  | notStarted
  | active
  | complete
  | incomplete
deriving DecidableEq, Repr

def preDecisionRetentionNs : ℤ := 60000000000

def postTerminalMicroNs : ℤ := 1800000000000

def postTerminalContextNs : ℤ := 21600000000000

/-! ### Source events -/

/-- A value of a payload that is not a list; floating-point values are left out. -/
inductive Scalar
  | null
  | bool (b : Bool)
  | int (z : ℤ)
  | text (t : Text)
deriving DecidableEq

inductive PayloadValue
  | scalar (v : Scalar)
  | rows (levels : List (List Scalar))
deriving DecidableEq

/-- A payload: a dictionary, written with its names in order so that equal dictionaries are
equal values. -/
structure Payload where
  entries : List (Text × PayloadValue)
  sorted : (entries.map Prod.fst).Pairwise (· < ·)
deriving DecidableEq

/-- `payload.get(name)`. -/
def Payload.get? (p : Payload) (name : Text) : Option PayloadValue := Assoc.lookup name p.entries

def Payload.empty : Payload := ⟨[], List.Pairwise.nil⟩

/-- `SourceEvent`; the identity of a trade is there for trades only. -/
structure SourceEvent where
  marketId : Text
  expressionId : Text
  providerId : Text
  instrumentId : Text
  dataKind : DataKind
  sourceEventId : Text
  tradeIdentity : Option (Text × Text)
  eventContext : Text
  tsEvent : ℤ
  tsInit : ℤ
  payload : Payload
  trade_iff : tradeIdentity.isSome = decide (dataKind = .trade)
  event_pos : 1 ≤ tsEvent
  init_pos : 1 ≤ tsInit
deriving DecidableEq

/-- What `replay_identity` takes the digest of. -/
inductive ReplayIdentity
  | trade (marketId expressionId instrumentId nativeTradeId aggressorSide eventContext : Text)
  | other (marketId expressionId instrumentId : Text) (dataKind : DataKind)
      (sourceEventId eventContext : Text)
deriving DecidableEq

/-- The fields of `replay_identity`. -/
def SourceEvent.replayIdentity (s : SourceEvent) : ReplayIdentity :=
  match s.tradeIdentity with
  | some (nativeTradeId, aggressorSide) =>
    .trade s.marketId s.expressionId s.instrumentId nativeTradeId aggressorSide s.eventContext
  | none => .other s.marketId s.expressionId s.instrumentId s.dataKind s.sourceEventId s.eventContext

/-! ### Admitted events, lifecycle facts and tails -/

structure AdmittedEvent (δ : Type) where
  processEpoch : Text
  continuityEpoch : Text
  admissionEpoch : Text
  admissionOrdinal : ℕ
  admissionTs : ℤ
  sourceIdentity : δ
  outOfOrder : Bool
  continuityState : EvidenceState
  source : SourceEvent
deriving DecidableEq

inductive ApprovalTimingMode
  | postActivation
  | preauthorizedArmed
deriving DecidableEq

inductive ApprovalProvenance
  | simulated
  | notApplicable
  | observed
deriving DecidableEq

/-- `LifecycleRecord`.  Its hash binds the whole of it, so records are compared. -/
structure LifecycleRecord where
  runId : Text
  objectId : Text
  parentId : Option Text
  packageId : Text
  marketId : Text
  expressionId : Text
  kind : LifecycleKind
  status : LifecycleStatus
  stateTs : ℤ
  reasonCodes : List Text
  decisionState : Option DecisionState
  approvalTimingMode : Option ApprovalTimingMode := none
  approvalProvenance : ApprovalProvenance := .notApplicable
  expiryTs : Option ℤ := none
  supersedesId : Option Text := none
  lastAdmissionOrdinal : ℕ
  evidenceState : EvidenceState
deriving DecidableEq

/-- `OpaqueId`. -/
def opaqueId (t : Text) : Bool :=
  decide (3 ≤ t.length ∧ t.length ≤ 160) && t.head?.all Char.isAlphanum
    && t.all fun c => c.isAlphanum || c ∈ ['.', '_', ':', '-']

/-- `Sha256Hex`. -/
def sha256Hex (t : Text) : Bool :=
  decide (t.length = 64) && t.all fun c => c.isDigit || decide ('a' ≤ c ∧ c ≤ 'f')

/-- The constraints of the fields of a record, and `validate_record`. -/
def LifecycleRecord.valid (r : LifecycleRecord) : Bool :=
  ([r.runId, r.objectId, r.packageId, r.expressionId] ++ r.parentId.toList ++ r.supersedesId.toList).all
      opaqueId
    && sha256Hex r.marketId && decide (1 ≤ r.stateTs) && r.expiryTs.all (1 ≤ ·)
    && r.approvalProvenance ≠ .observed && (r.kind ≠ .armed || r.approvalTimingMode.isSome)

structure TailStatus where
  terminalTs : Option ℤ := none
  microDeadlineTs : Option ℤ := none
  contextDeadlineTs : Option ℤ := none
  microPhase : TailPhase := .notStarted
  contextPhase : TailPhase := .notStarted
  evidenceState : EvidenceState := .incomplete
  reasonCodes : List Text := []
deriving DecidableEq

/-- The identity of a run that its sessions read. -/
structure RunManifest where
  runId : Text
  manifestHash : Text
  processEpoch : Text
  continuityEpoch : Text
  admissionEpoch : Text
deriving DecidableEq

/-! ### The admission ledger -/

/-- `_stream_key`: bars of different intervals are different streams. -/
structure StreamKey where
  providerId : Text
  marketId : Text
  expressionId : Text
  instrumentId : Text
  dataKind : DataKind
  eventContext : Text
deriving DecidableEq

def streamKey (s : SourceEvent) : StreamKey where
  providerId := s.providerId
  marketId := s.marketId
  expressionId := s.expressionId
  instrumentId := s.instrumentId
  dataKind := s.dataKind
  eventContext := if s.dataKind = .bar then s.eventContext else []

structure BboValidity where
  valid : Bool
  continuityEpoch : Text
deriving DecidableEq

/-- `CausalAdmissionLedger`. -/
structure CausalAdmissionLedger (δ : Type) where
  processEpoch : Text
  continuityEpoch : Text
  admissionEpoch : Text
  continuityRoot : Text
  continuityIndex : ℕ := 0
  ordinal : ℕ := 0
  largestTsEventByStream : Dict StreamKey ℤ := Dict.empty
  seen : List δ := []
  health : StreamHealth := .healthy
  bbo : Dict (Text × Text) BboValidity := Dict.empty

/-- What `admit` answers; `refused` is the error of a fact whose admission precedes its
arrival. -/
inductive Admission (δ : Type)
  | duplicate
  | refused
  | admitted (event : AdmittedEvent δ)

namespace CausalAdmissionLedger

variable (l : CausalAdmissionLedger δ)

/-- The event that `admit` creates from a fact with a new identity. -/
def nextEvent (identity : δ) (source : SourceEvent) (admissionTs : ℤ) : AdmittedEvent δ where
  processEpoch := l.processEpoch
  continuityEpoch := l.continuityEpoch
  admissionEpoch := l.admissionEpoch
  admissionOrdinal := l.ordinal + 1
  admissionTs := admissionTs
  sourceIdentity := identity
  outOfOrder := source.tsEvent < (l.largestTsEventByStream.get? (streamKey source)).getD 0
  continuityState := if l.health = .healthy then .complete else .gapped
  source := source

/-- The fact counts as seen, and has its ordinal, before the event is validated. -/
def count (identity : δ) (source : SourceEvent) : CausalAdmissionLedger δ :=
  let streamMax := (l.largestTsEventByStream.get? (streamKey source)).getD 0
  { l with
    seen := identity :: l.seen
    ordinal := l.ordinal + 1
    largestTsEventByStream :=
      l.largestTsEventByStream.set (streamKey source) (max streamMax source.tsEvent) }

def observeBbo (source : SourceEvent) : CausalAdmissionLedger δ :=
  if source.dataKind = .bbo then
    { l with
      bbo := l.bbo.set (source.marketId, source.expressionId)
        ⟨l.health = .healthy, l.continuityEpoch⟩ }
  else l

/-- `admit`. -/
def admitEvent (replayHash : ReplayIdentity → δ) (source : SourceEvent) (admissionTs : ℤ) :
    Admission δ × CausalAdmissionLedger δ :=
  let identity := replayHash source.replayIdentity
  if identity ∈ l.seen then (.duplicate, l)
  else if admissionTs < source.tsInit then (.refused, l.count identity source)
  else
    (.admitted (l.nextEvent identity source admissionTs), (l.count identity source).observeBbo source)

/-- `_invalidate_bbo`. -/
def invalidateBbo : CausalAdmissionLedger δ :=
  { l with bbo := l.bbo.mapValues fun _ _ => ⟨false, l.continuityEpoch⟩ }

/-- `disconnect`. -/
def disconnect : CausalAdmissionLedger δ := { l with health := .disconnected }.invalidateBbo

/-- `reconnect`. -/
def reconnect : CausalAdmissionLedger δ :=
  { l with
    continuityIndex := l.continuityIndex + 1
    continuityEpoch := l.continuityRoot ++ ".r".toList ++ Nat.toDigits 10 (l.continuityIndex + 1)
    health := .reestablishing }.invalidateBbo

/-- `establish_continuity`. -/
def establishContinuity : CausalAdmissionLedger δ := { l with health := .healthy }

/-- `bbo_validity`. -/
def bboValidity (marketId expressionId : Text) : BboValidity :=
  (l.bbo.get? (marketId, expressionId)).getD ⟨false, l.continuityEpoch⟩

end CausalAdmissionLedger

end TraderAssist.E4
