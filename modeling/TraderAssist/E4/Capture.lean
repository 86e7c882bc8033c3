/-
TraderAssist/E4/Capture.lean

One capture session and its durable evidence (`nautilus_e4/capture.py` and
`nautilus_e4/storage.py`).

A session changes its state and, through `write`, the files of its evidence store: the
batches of admissions, the lifecycle facts, the process segments and the runtime checkpoint.
Each file operation is one durable step.  A process stops right after the step named by
`stop`, if it takes it; `stopped` is that end, and all that is left of it is the store.

Left out: the raw catalogue sink, the counters, the warm-up state, the decision commitments
and the observed streams, which no function below reads; the hashes that bind a checkpoint
and a segment to their run, since every process here belongs to one run.
`_market_packages` is read off `packages`.
-/
import TraderAssist.E4.Contracts
import TraderAssist.Lib.Seq
import TraderAssist.Lib.Stateful

namespace TraderAssist.E4

open Py

variable {δ : Type} [DecidableEq δ]

inductive CaptureError
  | stopped
  | onlyBarsAreHistorical
  | outsideUniverse
  | discoveryOnly
  | admissionPrecedesArrival
  | requiresActionable
  | requiresWatch
  | duplicateAuthority
  | activeValidMustFollow
  | notActivated
  | activationChanged
  | activationReadback
  | activationAuthority
  | horizonMustFollow
  | intentAndPackage
  | intentConflictsWithReplay
  | packageConflictsWithReplay
  | lacksOpeningIntent
  | segmentAmbiguous
  | conflictsWithIntent
  | orderNotDeterministic
  | timeNotPositive
  | recordInvalid
  | duplicateFact
  | latestUnavailable
  | authorityContradicts
  | factOrder
  | followsTerminal
  | unsupportedTransition
  | parentUnknown
  | runIdentity
  | checkpointContradicts
  | latestInvalid
  | segmentOrder
  | unknownPackage
  | terminalImmutable
deriving DecidableEq, Repr

/-! ### Policies -/

/-- `SubscriptionPolicy`. -/
structure SubscriptionPolicy where
  discovery : List Text
  watch : List Text
  actionable : List Text
  watch_sub : ∀ m ∈ watch, m ∈ discovery
  actionable_sub : ∀ m ∈ actionable, m ∈ discovery

namespace SubscriptionPolicy

def tier (p : SubscriptionPolicy) (marketId : Text) : Except CaptureError CaptureTier :=
  if marketId ∈ p.actionable then .ok .actionable
  else if marketId ∈ p.watch then .ok .watch
  else if marketId ∈ p.discovery then .ok .discovery
  else .error .outsideUniverse

def permits (p : SubscriptionPolicy) (marketId : Text) (kind : DataKind) :
    Except CaptureError Bool := do
  let tier ← p.tier marketId
  pure (kind.isLowRate || tier = .watch || tier = .actionable)

end SubscriptionPolicy

/-- What a session is constructed with. -/
structure Config (δ : Type) where
  replayHash : ReplayIdentity → δ
  manifest : RunManifest
  policy : SubscriptionPolicy
  batchSize : ℕ
  batchSize_pos : 1 ≤ batchSize

/-! ### Lifecycle facts -/

/-- `_lifecycle_authority`. -/
def lifecycleAuthority (r : LifecycleRecord) :
    Text × LifecycleKind × Option Text × Text × Text × Text :=
  (r.runId, r.kind, r.parentId, r.packageId, r.marketId, r.expressionId)

def LifecycleStatus.isTerminal (s : LifecycleStatus) : Bool :=
  s = terminal || s = expired || s = superseded

/-- `record_order <= previous_order`. -/
def notAfter (record previous : LifecycleRecord) : Bool :=
  record.stateTs < previous.stateTs
    || (record.stateTs = previous.stateTs
        && record.lastAdmissionOrdinal ≤ previous.lastAdmissionOrdinal)

/-- `_validate_lifecycle_successor`. -/
def validateLifecycleSuccessor (previous record : LifecycleRecord) : Except CaptureError Unit := do
  require (record ≠ previous) .duplicateFact
  require (lifecycleAuthority record = lifecycleAuthority previous) .authorityContradicts
  require (notAfter record previous = false) .factOrder
  require (previous.status.isTerminal = false) .followsTerminal
  require (previous.status = .active ∧ (record.status = .active ∨ record.status.isTerminal = true))
    .unsupportedTransition

/-- The facts read so far, and the latest one of each object. -/
structure LifecycleFold where
  latest : Dict Text LifecycleRecord := Dict.empty
  records : List LifecycleRecord := []

/-- A fact must follow the latest one of its object; the identities read so far are the keys of
`latest`. -/
def LifecycleFold.checkLatest (f : LifecycleFold) (record : LifecycleRecord) : Except CaptureError Unit :=
  match f.latest.get? record.objectId with
  | none => require (record.parentId.all f.latest.has = true) .parentUnknown
  | some previous => validateLifecycleSuccessor previous record

/-- One turn of the loop of `_fold_lifecycle_records`. -/
def LifecycleFold.add (runId : Text) (f : LifecycleFold) (record : LifecycleRecord) :
    Except CaptureError LifecycleFold := do
  require (record.runId = runId) .runIdentity
  require (record ∉ f.records) .duplicateFact
  f.checkLatest record
  pure ⟨f.latest.set record.objectId record, f.records ++ [record]⟩

/-- `_fold_lifecycle_records`. -/
def foldLifecycleRecords (runId : Text) (records : List LifecycleRecord) :
    Except CaptureError LifecycleFold :=
  records.foldlM (LifecycleFold.add runId) {}

/-! ### Sessions -/

/-- The identity of a source-bound opening. -/
structure BoundIdentity where
  packageId : Text
  opportunityId : Text
  thesisId : Text
  marketId : Text
  expressionId : Text
  createdTs : ℤ
  horizonNs : ℤ
  releaseSha : Text
  contractId : Text
  runId : Text
deriving DecidableEq

/-- An entry of `_opening_intents`. -/
structure OpeningIntent (δ : Type) where
  identity : BoundIdentity
  predecisionState : EvidenceState
  prebufferSourceIds : List δ
  openingSegmentIndex : ℕ

structure PackageBinding where
  identity : BoundIdentity
  blocked : Bool

/-- `_PackageState`. -/
structure PackageState where
  marketId : Text
  expressionId : Text
  opportunityId : Text
  thesisId : Text
  predecisionState : EvidenceState
  tail : TailStatus := {}
  binding : Option PackageBinding := none

/-- A binding activation: the entries that openings read, and the text of the others. -/
structure BindingActivation where
  bindingContractId : Option Text
  releaseSha : Option Text
  runId : Option Text
  manifestHash : Option Text
  rest : Text
deriving DecidableEq

/-- `CaptureSession`. -/
structure CaptureSession (δ : Type) where
  ledger : CausalAdmissionLedger δ
  prebuffers : Dict Text (List (AdmittedEvent δ)) := Dict.empty
  watchStarted : Dict Text (ℤ × Text) := Dict.empty
  pending : List (AdmittedEvent δ) := []
  durableSourceIds : List δ := []
  packages : Dict Text PackageState := Dict.empty
  bindingActivation : Option BindingActivation := none
  openingIntents : Dict Text (OpeningIntent δ) := Dict.empty
  lifecycleIds : List Text := []
  latestLifecycleRecords : Dict Text LifecycleRecord := Dict.empty
  lifecycleRecords : List LifecycleRecord := []
  continuityRequirements : List (Text × DataKind) := []
  runtimeSegmentIndex : ℕ := 0

/-- `RuntimeCheckpoint`: its segment and what `checkpoint` writes of a session. -/
structure RuntimeCheckpoint (δ : Type) where
  segmentIndex : ℕ
  bindingActivation : Option BindingActivation
  openingIntents : Dict Text (OpeningIntent δ)
  ordinal : ℕ
  seen : List δ
  largestTsEventByStream : Dict StreamKey ℤ
  lifecycleIds : List Text
  latestLifecycleRecords : Dict Text LifecycleRecord
  packages : Dict Text PackageState
  durableSourceIds : List δ
  pending : List (AdmittedEvent δ)

/-- The files of a run. -/
structure EvidenceStore (δ : Type) where
  admissions : List (AdmittedEvent δ) := []
  lifecycle : List LifecycleRecord := []
  segments : List ℕ := []
  checkpoint : Option (RuntimeCheckpoint δ) := none

/-- `load_admissions`: the batches in the order they were written. -/
def EvidenceStore.loadAdmissions (st : EvidenceStore δ) :
    Except CaptureError (List (AdmittedEvent δ)) :=
  let ordinals := st.admissions.map AdmittedEvent.admissionOrdinal
  if ordinals = sortBy id ordinals then .ok st.admissions else .error .orderNotDeterministic

/-- The durable steps. -/
inductive Step
  | batch
  | lifecycle (reasonCodes : List Text)
  | segment
  | checkpoint (reason : Text)
deriving DecidableEq

/-- A running process. -/
structure World (δ : Type) where
  session : CaptureSession δ
  store : EvidenceStore δ
  stop : Option Step := none

abbrev Capture (δ : Type) := EStateM CaptureError (World δ)

/-- One durable step. -/
def write (step : Step) (f : EvidenceStore δ → EvidenceStore δ) : Capture δ Unit := fun w =>
  if w.stop = some step then .error .stopped { w with store := f w.store }
  else .ok () { w with store := f w.store }

def modifySession (f : CaptureSession δ → CaptureSession δ) : Capture δ Unit :=
  modify fun w => { w with session := f w.session }

namespace CaptureSession

variable (s : CaptureSession δ)

def prebuffer (marketId : Text) : List (AdmittedEvent δ) := (s.prebuffers.get? marketId).getD []

/-- `checkpoint`. -/
def checkpoint : RuntimeCheckpoint δ where
  segmentIndex := s.runtimeSegmentIndex
  bindingActivation := s.bindingActivation
  openingIntents := s.openingIntents
  ordinal := s.ledger.ordinal
  seen := s.ledger.seen
  largestTsEventByStream := s.ledger.largestTsEventByStream
  lifecycleIds := s.lifecycleIds
  latestLifecycleRecords := s.latestLifecycleRecords
  packages := s.packages
  durableSourceIds := s.durableSourceIds
  pending := s.pending

section

variable (event : AdmittedEvent δ)

/-- `_append_prebuffer`. -/
def appendPrebuffer : CaptureSession δ :=
  let cutoff := event.admissionTs - preDecisionRetentionNs
  let buffer := (s.prebuffer event.source.marketId ++ [event]).dropWhile fun item =>
    decide (item.admissionTs < cutoff)
  { s with prebuffers := s.prebuffers.set event.source.marketId buffer }

/-- The watch of a market starts anew with the first quote or trade of a continuity epoch. -/
def observeWatch : CaptureSession δ :=
  match s.watchStarted.get? event.source.marketId with
  | some (_, epoch) =>
    if epoch = event.continuityEpoch then s
    else
      { s with
        watchStarted := s.watchStarted.set event.source.marketId
          (event.admissionTs, event.continuityEpoch) }
  | none =>
    { s with
      watchStarted := s.watchStarted.set event.source.marketId
        (event.admissionTs, event.continuityEpoch) }

/-- Quotes and trades wait in the pre-buffer of their market. -/
def buffer : CaptureSession δ :=
  if event.source.dataKind.isMicro then (s.observeWatch event).appendPrebuffer event else s

end

def awaiting (historical : Bool) : Bool :=
  !historical && s.ledger.health = .reestablishing

/-- A fresh fact of a stream meets its requirement. -/
def meetRequirement (source : SourceEvent) (historical : Bool) : CaptureSession δ :=
  if s.awaiting historical then
    let remaining := s.continuityRequirements.filter (· ≠ (source.marketId, source.dataKind))
    { s with
      continuityRequirements := remaining
      ledger := if remaining = [] then s.ledger.establishContinuity else s.ledger }
  else s

/-- `continuity_restored`. -/
def restores (source : SourceEvent) (historical : Bool) : Bool :=
  s.awaiting historical
    && (s.continuityRequirements.filter (· ≠ (source.marketId, source.dataKind))).isEmpty

section

variable (event : AdmittedEvent δ)

/-- The body of the loop of `_must_retain`. -/
def packageRetains (package : PackageState) : Bool :=
  let micro := event.source.dataKind.isMicro
  match package.binding with
  | some binding =>
    !binding.blocked
      && decide (event.admissionTs
        ≤ binding.identity.horizonNs + if micro then postTerminalMicroNs else postTerminalContextNs)
  | none =>
    let tail := package.tail
    let phase := if micro then tail.microPhase else tail.contextPhase
    let deadline := if micro then tail.microDeadlineTs else tail.contextDeadlineTs
    tail.terminalTs.isNone
      || ((phase = .active || phase = .incomplete) && deadline.any (event.admissionTs ≤ ·))

/-- `_must_retain`. -/
def mustRetain : Bool :=
  event.source.dataKind.isLowRate
    || s.packages.values.any fun package =>
      package.marketId = event.source.marketId && packageRetains event package

/-- One turn of the loop of `_queue_durable`. -/
def queueOne : CaptureSession δ :=
  if event.sourceIdentity ∈ s.durableSourceIds then s
  else
    { s with
      durableSourceIds := event.sourceIdentity :: s.durableSourceIds
      pending := s.pending ++ [event] }

end

/-- `_queue_durable`. -/
def queueDurable (events : List (AdmittedEvent δ)) : CaptureSession δ := events.foldl queueOne s

/-- The buffered events of the pre-decision window that ends at `ts`. -/
def available (marketId : Text) (ts : ℤ) : List (AdmittedEvent δ) :=
  (s.prebuffer marketId).filter fun item =>
    decide (ts - preDecisionRetentionNs ≤ item.admissionTs ∧ item.admissionTs ≤ ts)

/-- `complete`: the market was watched, without a gap, over the whole window. -/
def windowComplete (marketId expressionId : Text) (ts : ℤ) : Bool :=
  let bbo := s.ledger.bboValidity marketId expressionId
  (s.watchStarted.get? marketId).any (fun started =>
      started.1 ≤ ts - preDecisionRetentionNs && started.2 = s.ledger.continuityEpoch)
    && bbo.valid && bbo.continuityEpoch = s.ledger.continuityEpoch
    && (s.available marketId ts).all fun item => item.continuityState = .complete

def predecision (marketId expressionId : Text) (ts : ℤ) : EvidenceState :=
  if s.windowComplete marketId expressionId ts then .complete else .preDecisionWindowIncomplete

def setTail (packageId : Text) (package : PackageState) (tail : TailStatus) : CaptureSession δ :=
  { s with packages := s.packages.set packageId { package with tail := tail } }

end CaptureSession

/-- `_persist_if_configured`. -/
def persist (reason : String) : Capture δ Unit := do
  let w ← get
  write (.checkpoint reason.toList) fun st => { st with checkpoint := some w.session.checkpoint }

/-- The part of `_flush_if_full` that writes: the pending events are taken off the queue, then
written, then the checkpoint is. -/
def flush (reason : String) : Capture δ Unit := do
  let w ← get
  modifySession fun s => { s with pending := [] }
  write .batch fun st => { st with admissions := st.admissions ++ w.session.pending }
  persist reason

section Operations

variable (k : Config δ)

/-- `_flush_if_full`. -/
def flushIfFull (force : Bool) (reason : String := "ADMISSION_BATCH_FLUSHED") : Capture δ Unit := do
  let w ← get
  if w.session.pending = [] ∨ (force = false ∧ w.session.pending.length < k.batchSize) then pure ()
  else flush reason

/-! ### Operations -/

def retain (event : AdmittedEvent δ) : Capture δ Unit := do
  let w ← get
  if w.session.mustRetain event then do
    modifySession fun s => s.queueDurable [event]
    flushIfFull k false
  else pure ()

/-- What `ingest` does with an admitted event. -/
def receive (event : AdmittedEvent δ) (historical : Bool) : Capture δ (Option (AdmittedEvent δ)) := do
  modifySession fun s => s.buffer event
  let w ← get
  modifySession fun s => s.meetRequirement event.source historical
  retain k event
  if w.session.restores event.source historical then persist "FRESH_STREAM_CONTINUITY_RESTORED"
  else pure ()
  pure (some event)

/-- `ingest`: the admitted event, or nothing for a duplicate. -/
def ingest (source : SourceEvent) (admissionTs : ℤ) (historical : Bool) :
    Capture δ (Option (AdmittedEvent δ)) := do
  check (historical = true → source.dataKind = .bar) .onlyBarsAreHistorical
  let permitted ← attempt (k.policy.permits source.marketId source.dataKind)
  check (permitted = true) .discoveryOnly
  let w ← get
  let admission := w.session.ledger.admitEvent k.replayHash source admissionTs
  modifySession fun s => { s with ledger := admission.2 }
  match admission.1 with
  | .duplicate => pure none
  | .refused => throw .admissionPrecedesArrival
  | .admitted event => receive k event historical

/-- A fact must follow the latest one of its object, or have a parent that is known. -/
def CaptureSession.checkFact (s : CaptureSession δ) (record : LifecycleRecord) :
    Except CaptureError Unit :=
  if record.objectId ∈ s.lifecycleIds then
    match s.latestLifecycleRecords.get? record.objectId with
    | none => .error .latestUnavailable
    | some previous => validateLifecycleSuccessor previous record
  else require (record.parentId.all (· ∈ s.lifecycleIds) = true) .parentUnknown

def CaptureSession.addFact (s : CaptureSession δ) (record : LifecycleRecord) : CaptureSession δ :=
  { s with
    lifecycleIds := record.objectId :: s.lifecycleIds
    lifecycleRecords := record :: s.lifecycleRecords
    latestLifecycleRecords := s.latestLifecycleRecords.set record.objectId record }

/-- `record_lifecycle` without its checkpoint. -/
def recordLifecycle (record : LifecycleRecord) : Capture δ Unit := do
  check (1 ≤ record.stateTs) .timeNotPositive
  let w ← get
  check (record ∉ w.session.lifecycleRecords) .duplicateFact
  attempt (w.session.checkFact record)
  modifySession fun s => s.addFact record
  write (.lifecycle record.reasonCodes) fun st => { st with lifecycle := st.lifecycle ++ [record] }

/-- A fact as a session records it: the run and the ordinal are the session's. -/
def LifecycleRecord.inSession (fact : LifecycleRecord) (s : CaptureSession δ) : LifecycleRecord :=
  { fact with runId := k.manifest.runId, lastAdmissionOrdinal := s.ledger.ordinal }

/-- `record_lifecycle`. -/
def recordLifecycleFact (fact : LifecycleRecord) (persistCheckpoint : Bool) : Capture δ Unit := do
  let w ← get
  check ((fact.inSession k w.session).valid = true) .recordInvalid
  recordLifecycle (fact.inSession k w.session)
  if persistCheckpoint then persist "LIFECYCLE_RECORDED"

/-- The identities of a package that an opening is called with. -/
structure PackageOpening where
  packageId : Text
  opportunityId : Text
  thesisId : Text
  marketId : Text
  expressionId : Text
deriving DecidableEq

/-- The object that a fact of this kind is about, and its parent. -/
def PackageOpening.objectId (o : PackageOpening) (kind : LifecycleKind) : Text :=
  if kind = .opportunity then o.opportunityId else o.thesisId

def PackageOpening.parentId (o : PackageOpening) (kind : LifecycleKind) : Option Text :=
  if kind = .opportunity then none else some o.opportunityId

/-- A fact about the opportunity or the thesis of a package. -/
def PackageOpening.fact (o : PackageOpening) (w : World δ) (kind : LifecycleKind) (stateTs : ℤ)
    (reason : String) (decision : Option DecisionState) (state : EvidenceState) : LifecycleRecord where
  runId := k.manifest.runId
  objectId := o.objectId kind
  parentId := o.parentId kind
  packageId := o.packageId
  marketId := o.marketId
  expressionId := o.expressionId
  kind := kind
  status := .active
  stateTs := stateTs
  reasonCodes := [reason.toList]
  decisionState := decision
  lastAdmissionOrdinal := w.session.ledger.ordinal
  evidenceState := state

def recordFact (o : PackageOpening) (kind : LifecycleKind) (stateTs : ℤ) (reason : String)
    (decision : Option DecisionState) (state : EvidenceState) : Capture δ Unit := do
  let w ← get
  recordLifecycle (o.fact k w kind stateTs reason decision state)

def PackageOpening.package (o : PackageOpening) (state : EvidenceState) : PackageState where
  marketId := o.marketId
  expressionId := o.expressionId
  opportunityId := o.opportunityId
  thesisId := o.thesisId
  predecisionState := state

/-- What the unbound openings share: the window is written, then the package is there. -/
def openPackage (o : PackageOpening) (ts : ℤ) : Capture δ EvidenceState := do
  let w ← get
  check (¬ w.session.packages.has o.packageId ∧ o.opportunityId ∉ w.session.lifecycleIds)
    .duplicateAuthority
  let state := w.session.predecision o.marketId o.expressionId ts
  modifySession fun s => s.queueDurable (w.session.available o.marketId ts)
  flushIfFull k true
  modifySession fun s => { s with packages := s.packages.set o.packageId (o.package state) }
  pure state

/-- `open_actionable`. -/
def openActionable (o : PackageOpening) (decisionTs : ℤ) (decision : DecisionState) :
    Capture δ EvidenceState := do
  let tier ← attempt (k.policy.tier o.marketId)
  check (tier = .actionable) .requiresActionable
  let state ← openPackage k o decisionTs
  recordFact k o .opportunity decisionTs "ACTIONABLE" (some decision) state
  recordFact k o .thesis decisionTs "THESIS_CREATED" (some decision) state
  persist "ACTIONABLE_LIFECYCLE_OPENED"
  pure state

def recordActiveValid (o : PackageOpening) (activeValidTs : ℤ) (state : EvidenceState) :
    Capture δ Unit :=
  if state = .complete then recordFact k o .thesis activeValidTs "ACTIVE_VALID" none state
  else pure ()

/-- `open_structural_package`. -/
def openStructuralPackage (o : PackageOpening) (createdTs activeValidTs : ℤ) :
    Capture δ EvidenceState := do
  check (createdTs < activeValidTs) .activeValidMustFollow
  let tier ← attempt (k.policy.tier o.marketId)
  check (tier = .watch ∨ tier = .actionable) .requiresWatch
  let state ← openPackage k o createdTs
  recordFact k o .opportunity createdTs "FORMAL_SETUP_ADMITTED" none state
  recordFact k o .thesis createdTs "THESIS_CREATED" none state
  recordActiveValid k o activeValidTs state
  persist "STRUCTURAL_LIFECYCLE_OPENED"
  pure state

/-- `activate_binding`. -/
def activateBinding (activation : BindingActivation) : Capture δ Unit := do
  let w ← get
  match w.session.bindingActivation with
  | some current => check (current = activation) .activationChanged
  | none => do
    modifySession fun s => { s with bindingActivation := some activation }
    persist "STRUCTURAL_BINDING_ACTIVATED"
    let loaded ← get
    check ((loaded.store.checkpoint.bind RuntimeCheckpoint.bindingActivation) = some activation)
      .activationReadback

/-- The arguments of `open_bound_structural_package`. -/
structure BoundOpening extends PackageOpening where
  createdTs : ℤ
  horizonNs : ℤ
  releaseSha : Text
  contractId : Text
deriving DecidableEq

def BoundOpening.identity (o : BoundOpening) : BoundIdentity where
  packageId := o.packageId
  opportunityId := o.opportunityId
  thesisId := o.thesisId
  marketId := o.marketId
  expressionId := o.expressionId
  createdTs := o.createdTs
  horizonNs := o.horizonNs
  releaseSha := o.releaseSha
  contractId := o.contractId
  runId := k.manifest.runId

/-- The activation that an opening needs. -/
def BoundOpening.authorized (o : BoundOpening) (a : BindingActivation) : Prop :=
  a.bindingContractId = some o.contractId ∧ a.releaseSha = some o.releaseSha
    ∧ a.runId = some k.manifest.runId ∧ a.manifestHash = some k.manifest.manifestHash

instance (o : BoundOpening) (a : BindingActivation) : Decidable (o.authorized k a) :=
  inferInstanceAs (Decidable (_ ∧ _ ∧ _ ∧ _))

/-- The checks that come before anything is looked up. -/
def checkOpening (o : BoundOpening) (activation : Option BindingActivation) :
    Except CaptureError Unit := do
  match activation with
  | none => throw .notActivated
  | some activation => require (o.authorized k activation) .activationAuthority
  require (0 < o.createdTs ∧ o.createdTs < o.horizonNs ∧ o.horizonNs < 2 ^ 63) .horizonMustFollow
  let tier ← k.policy.tier o.marketId
  require (tier = .watch ∨ tier = .actionable) .requiresWatch

/-- A package that was opened by the same call. -/
def samePackage (o : BoundOpening) (package : PackageState) : Prop :=
  package.opportunityId = o.opportunityId ∧ package.thesisId = o.thesisId
    ∧ package.marketId = o.marketId ∧ package.expressionId = o.expressionId
    ∧ package.binding.map PackageBinding.identity = some (o.identity k)

instance (o : BoundOpening) (package : PackageState) : Decidable (samePackage k o package) :=
  inferInstanceAs (Decidable (_ ∧ _ ∧ _ ∧ _ ∧ _))

def CaptureSession.newIntent (s : CaptureSession δ) (o : BoundOpening) : OpeningIntent δ where
  identity := o.identity k
  predecisionState := s.predecision o.marketId o.expressionId o.createdTs
  prebufferSourceIds := (s.available o.marketId o.createdTs).map AdmittedEvent.sourceIdentity
  openingSegmentIndex := s.runtimeSegmentIndex

/-- The first attempt: its intent is durable before the window is written. -/
def declareIntent (o : BoundOpening) : Capture δ (OpeningIntent δ) := do
  let w ← get
  check (o.opportunityId ∉ w.session.lifecycleIds ∧ o.thesisId ∉ w.session.lifecycleIds)
    .lacksOpeningIntent
  let intent := w.session.newIntent k o
  modifySession fun s => { s with openingIntents := s.openingIntents.set o.packageId intent }
  persist "STRUCTURAL_OPEN_INTENT"
  modifySession fun s => s.queueDurable (w.session.available o.marketId o.createdTs)
  flushIfFull k true
  pure intent

/-- The window of the intent that is still buffered is written too. -/
def writeSelected (o : BoundOpening) (intent : OpeningIntent δ) : Capture δ Unit := do
  modifySession fun s => s.queueDurable ((s.prebuffer o.marketId).filter fun item =>
    decide (item.sourceIdentity ∈ intent.prebufferSourceIds))
  flushIfFull k true

/-- The state of the evidence: that of the intent, if its whole window is durable and the
process is still the one that declared it. -/
def openingState (intent : OpeningIntent δ) (durable : List (AdmittedEvent δ)) (segmentIndex : ℕ) :
    EvidenceState :=
  if (∀ id ∈ intent.prebufferSourceIds, id ∈ durable.map AdmittedEvent.sourceIdentity)
      ∧ intent.openingSegmentIndex = segmentIndex then intent.predecisionState
  else .preDecisionWindowIncomplete

/-- What is left out if an earlier attempt has recorded the fact: the durable record that
opened the object must be the one of the intent. -/
def matchesIntent (o : BoundOpening) (intent : OpeningIntent δ) (kind : LifecycleKind) (reason : String)
    (prior : LifecycleRecord) (durable : List LifecycleRecord) : Prop :=
  (∃ opening ∈ (durable.filter fun item => item.objectId = o.objectId kind).head?,
      opening.kind = kind ∧ opening.status = .active ∧ opening.stateTs = o.createdTs
        ∧ opening.reasonCodes = [reason.toList] ∧ opening.evidenceState = intent.predecisionState)
    ∧ prior.kind = kind ∧ prior.parentId = o.parentId kind
    ∧ prior.packageId = o.packageId ∧ prior.marketId = o.marketId
    ∧ prior.expressionId = o.expressionId ∧ prior.runId = k.manifest.runId
    ∧ o.createdTs ≤ prior.stateTs

instance (o : BoundOpening) (intent : OpeningIntent δ) (kind : LifecycleKind) (reason : String)
    (prior : LifecycleRecord) (durable : List LifecycleRecord) :
    Decidable (matchesIntent k o intent kind reason prior durable) :=
  inferInstanceAs (Decidable (_ ∧ _ ∧ _ ∧ _ ∧ _ ∧ _ ∧ _ ∧ _))

/-- One turn of the loop over the opportunity and the thesis. -/
def recordOpening (o : BoundOpening) (intent : OpeningIntent δ) (durable : List LifecycleRecord)
    (kind : LifecycleKind) (reason : String) (state : EvidenceState) : Capture δ Unit := do
  let w ← get
  match w.session.latestLifecycleRecords.get? (o.objectId kind) with
  | some prior => check (matchesIntent k o intent kind reason prior durable) .conflictsWithIntent
  | none => recordFact k o.toPackageOpening kind o.createdTs reason none state

/-- An opening with its intent at hand. -/
def resumeOpening (o : BoundOpening) (intent : OpeningIntent δ) : Capture δ EvidenceState := do
  writeSelected k o intent
  let w ← get
  let durable ← attempt w.store.loadAdmissions
  check (intent.openingSegmentIndex ≤ w.session.runtimeSegmentIndex) .segmentAmbiguous
  let state := openingState intent durable w.session.runtimeSegmentIndex
  recordOpening k o intent w.store.lifecycle .opportunity "FORMAL_SETUP_ADMITTED" state
  recordOpening k o intent w.store.lifecycle .thesis "THESIS_CREATED" state
  modifySession fun s =>
    { s with
      packages := s.packages.set o.packageId
        { o.package state with binding := some ⟨o.identity k, false⟩ }
      openingIntents := s.openingIntents.erase o.packageId }
  persist "STRUCTURAL_BOUND_OPENED"
  pure state

/-- `open_bound_structural_package`. -/
def openBoundStructuralPackage (o : BoundOpening) : Capture δ EvidenceState := do
  let w ← get
  attempt (checkOpening k o w.session.bindingActivation)
  match w.session.openingIntents.get? o.packageId, w.session.packages.get? o.packageId with
  | some _, some _ => throw .intentAndPackage
  | some intent, none => do
    check (intent.identity = o.identity k) .intentConflictsWithReplay
    resumeOpening k o intent
  | none, some package => do
    check (samePackage k o package) .packageConflictsWithReplay
    pure package.predecisionState
  | none, none => do
    let intent ← declareIntent k o
    resumeOpening k o intent

/-- `terminal`. -/
def terminal (packageId : Text) (terminalTs : ℤ) (decision : DecisionState) : Capture δ TailStatus := do
  let w ← get
  match w.session.packages.get? packageId with
  | none => throw .unknownPackage
  | some package => do
    check (package.tail.terminalTs = none) .terminalImmutable
    check (1 ≤ terminalTs) .timeNotPositive
    let tail : TailStatus :=
      { terminalTs := some terminalTs
        microDeadlineTs := some (terminalTs + postTerminalMicroNs)
        contextDeadlineTs := some (terminalTs + postTerminalContextNs)
        microPhase := .active
        contextPhase := .active
        evidenceState := package.predecisionState
        reasonCodes := ["TERMINAL_REACHED".toList, decision.value] }
    modifySession fun s => s.setTail packageId package tail
    persist "TERMINAL_TAIL_STARTED"
    pure tail

/-- A phase whose deadline has passed is complete. -/
def advancePhase (phase : TailPhase) (deadline : Option ℤ) (now : ℤ) : TailPhase :=
  if deadline.any (· ≤ now) && phase = .active then .complete else phase

def advanceTail (now : ℤ) (tail : TailStatus) : TailStatus :=
  if tail.terminalTs.isNone then tail
  else
    { tail with
      microPhase := advancePhase tail.microPhase tail.microDeadlineTs now
      contextPhase := advancePhase tail.contextPhase tail.contextDeadlineTs now }

/-- `advance`. -/
def advance (now : ℤ) : Capture δ Unit := do
  let w ← get
  modifySession fun s =>
    { s with packages := s.packages.mapValues fun _ p => { p with tail := advanceTail now p.tail } }
  flushIfFull k true
  if w.session.packages.values.any fun p => decide (advanceTail now p.tail ≠ p.tail) then
    persist "TAIL_PHASE_ADVANCED"
  else pure ()

def cutPhase (phase : TailPhase) : TailPhase := if phase = .active then .incomplete else phase

/-- A window that is still open is cut short, for the reason given. -/
def cutTail (state : EvidenceState) (reason : Text) (tail : TailStatus) : TailStatus :=
  if tail.terminalTs.isNone || tail.microPhase = .active || tail.contextPhase = .active then
    { tail with
      microPhase := cutPhase tail.microPhase
      contextPhase := cutPhase tail.contextPhase
      evidenceState := state
      reasonCodes := tail.reasonCodes ++ [reason] }
  else tail

/-- `disconnect`. -/
def disconnect (reason : Text) : Capture δ Unit := do
  modifySession fun s =>
    { s with
      ledger := s.ledger.disconnect
      packages := s.packages.mapValues fun _ p => { p with tail := cutTail .gapped reason p.tail } }
  persist "PUBLIC_DATA_DISCONNECTED"

/-- `reconnect`. -/
def reconnect (requiredStreams : List (Text × DataKind)) : Capture δ Unit := do
  modifySession fun s =>
    { s with continuityRequirements := requiredStreams, ledger := s.ledger.reconnect }
  persist "PUBLIC_DATA_RECONNECTED_AWAITING_EVIDENCE"

/-- `persist_durable_evidence`. -/
def persistDurableEvidence (reason : String) : Capture δ Unit := flushIfFull k true reason

end Operations

/-! ### Recovery -/

section Recovery

variable (k : Config δ)

/-- The session of a first process. -/
def CaptureSession.fresh : CaptureSession δ where
  ledger :=
    { processEpoch := k.manifest.processEpoch
      continuityEpoch := k.manifest.continuityEpoch
      admissionEpoch := k.manifest.admissionEpoch
      continuityRoot := k.manifest.continuityEpoch }

/-- `append_process_segment`. -/
def appendProcessSegment (index : ℕ) : Capture δ Unit := do
  let w ← get
  check (w.store.segments.getLast?.all (· < index) = true) .segmentOrder
  write .segment fun st => { st with segments := st.segments ++ [index] }

/-- The checks of the latest facts when a session is constructed. -/
def latestValid (ids : List Text) (latest : Dict Text LifecycleRecord) : Prop :=
  (∀ e ∈ latest.entries, e.1 ∈ ids ∧ e.2.objectId = e.1 ∧ e.2.runId = k.manifest.runId
      ∧ e.2.parentId.all (· ∈ ids) = true)
    ∧ latest.values.Nodup

instance (ids : List Text) (latest : Dict Text LifecycleRecord) :
    Decidable (latestValid k ids latest) := inferInstanceAs (Decidable (_ ∧ _))

/-- The latest facts of a checkpoint are among the durable ones. -/
def checkpointAgrees (c : RuntimeCheckpoint δ) (durable : List LifecycleRecord) : Prop :=
  ∀ e ∈ c.latestLifecycleRecords.entries,
    e.1 ∈ c.lifecycleIds ∧ e.2.objectId = e.1 ∧ e.2 ∈ durable

instance (c : RuntimeCheckpoint δ) (durable : List LifecycleRecord) :
    Decidable (checkpointAgrees c durable) := inferInstanceAs (Decidable (∀ _ ∈ _, _ ∧ _ ∧ _))

def segmentEpoch (root : Text) (index : ℕ) : Text := root ++ ".p".toList ++ Nat.toDigits 10 index

section

variable (c : RuntimeCheckpoint δ)

/-- `CausalAdmissionLedger.restart_from`: the counter is the checkpoint's. -/
def RuntimeCheckpoint.ledger (seen : List δ) (index : ℕ) :
    CausalAdmissionLedger δ where
  processEpoch := segmentEpoch k.manifest.processEpoch index
  continuityEpoch := segmentEpoch k.manifest.continuityEpoch index
  admissionEpoch := segmentEpoch k.manifest.admissionEpoch index
  continuityRoot := segmentEpoch k.manifest.continuityEpoch index
  ordinal := c.ordinal
  largestTsEventByStream := c.largestTsEventByStream
  seen := seen
  health := .reestablishing

/-- `CaptureSession.restart_from`, with what `recover_capture_session` has read back. -/
def RuntimeCheckpoint.session (persisted : List (AdmittedEvent δ))
    (latest : Dict Text LifecycleRecord) (index : ℕ) : CaptureSession δ :=
  let ids := persisted.map AdmittedEvent.sourceIdentity
  { ledger := c.ledger k (c.seen ++ ids) index
    pending := c.pending.filter fun item => decide (item.sourceIdentity ∉ ids)
    durableSourceIds := c.durableSourceIds ++ ids
    packages := c.packages.mapValues fun _ p =>
      { p with tail := cutTail .interrupted "PROCESS_RESTART".toList p.tail }
    bindingActivation := c.bindingActivation
    openingIntents := c.openingIntents
    lifecycleIds := c.lifecycleIds ++ latest.keys
    latestLifecycleRecords := latest
    lifecycleRecords := latest.values
    runtimeSegmentIndex := index }

/-- The segment after a checkpoint's and after the last one written. -/
def nextSegment (segments : List ℕ) : ℕ :=
  match segments.getLast? with
  | none => c.segmentIndex + 1
  | some last => max c.segmentIndex last + 1

/-- What `recover_capture_session` does with a checkpoint. -/
def recoverFrom : Capture δ Unit := do
  let w ← get
  let persisted ← attempt w.store.loadAdmissions
  let facts ← attempt (foldLifecycleRecords k.manifest.runId w.store.lifecycle)
  check (checkpointAgrees c facts.records) .checkpointContradicts
  let index := nextSegment c w.store.segments
  let session := c.session k persisted facts.latest index
  check (latestValid k session.lifecycleIds session.latestLifecycleRecords) .latestInvalid
  modifySession fun _ => session
  appendProcessSegment index
  persist "PROCESS_RESTART_RECOVERY"

end

/-- `recover_capture_session`. -/
def recoverCaptureSession : Capture δ Unit := do
  let w ← get
  match w.store.checkpoint with
  | none => do
    modifySession fun _ => CaptureSession.fresh k
    appendProcessSegment 0
    persist "INITIAL_RUNTIME_START"
  | some c => recoverFrom k c

end Recovery

end TraderAssist.E4
