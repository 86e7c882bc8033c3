/-
TraderAssist/Registry/Manager.lean

`MarketRegistryManager` of `registry.py`, over a disk.

A file holds a version document or a binding of a version name to a content hash.  Both
are read through the same two fields by `active` and `pending_version`, as the source does;
`_decode` takes documents only.  Version names are used as file names as they are, so a
name with a `/` leads elsewhere (`RegistryRoot.versionPath`).

An operation reads, and then makes some durable steps: `RegistryRoot.plan` is the list of
these, and the process may stop after any of them (`Manager.call`).  The witnesses of a
process that stopped are worthless afterwards: their issuer is gone.

Left out: the encodings of the documents (a document is read back as it was written), and
the initial activation by an E4 witness.
-/
import TraderAssist.Lib.Files
import TraderAssist.Registry.Types

namespace TraderAssist

open Py

variable {δ : Type}

inductive RegistryError
  | os (err : OSError)
  | versionMissing
  | schemaInvalid
  | pointerInvalid
  | pointerMismatch
  | pendingInvalid
  | pendingMismatch
  | identityUnresolved
  | validationUnavailable
  | noValidation
  | validationMismatch
  | versionExists
  | witnessBoundary
  | witnessField
  | witnessCohort
  | notIssuedHere
  | alreadyConsumed
  | foreignAuthority
  | emptyCohort
  | noActive
  | noPending
  | baseMismatch
  | successorMismatch
  | proofFailed
  | notProven
  | timeOverflow
  | historyConflict
  | lifecycle (err : LifecycleError)
  | candidateInvalid
  | activeChanged
  | membershipChanged
  | identityChanged
  | metadataChanged
  | targetConflict
  | versionKey
  | createdAtChanged
deriving DecidableEq, Repr

/-- What a file of the Registry holds. -/
inductive RegistryFile (δ : Type)
  | version (v : RegistryVersion)
  | binding (version : Text) (contentHash : δ)
deriving DecidableEq

abbrev RegistryDisk (δ : Type) := Disk (RegistryFile δ)

abbrev RegistryStep (δ : Type) := Disk.Step (RegistryFile δ)

/-- Where a Registry lives, and its hash functions: `content` is `hash_payload` of a
version, `transition` the text of the hash of a lifecycle transition. -/
structure RegistryRoot (δ : Type) where
  path : Path
  path_plain : Plain path
  content : RegistryVersion → δ
  transition : δ → List RegistryMarket → Text
  transition_hex : ∀ base markets,
    (transition base markets).length = 64 ∧ '/' ∉ transition base markets

/-- A Registry with this hash of a version. -/
def sampleRegistry (content : RegistryVersion → δ) : RegistryRoot δ where
  path := [['r']]
  path_plain := by decide
  content := content
  transition := fun _ _ => List.replicate 64 'a'
  transition_hex := fun _ _ => ⟨rfl, by decide⟩

namespace RegistryRoot

variable (R : RegistryRoot δ)

/-! ### Paths -/

def jsonName (name : Text) : Text := name ++ ".json".toList

def versionPath (version : Text) : List Text :=
  joinPath (R.path ++ ["versions".toList]) (jsonName version)

def validationPath (version : Text) : List Text :=
  joinPath (R.path ++ ["validations".toList]) (jsonName version)

def pointer : List Text := R.path ++ ["current.json".toList]

def pending : List Text := R.path ++ ["pending.json".toList]

def history : List Text := R.path ++ ["history".toList]

def historyPath (stamp version : Text) : List Text :=
  joinPath R.history (jsonName (stamp ++ '-' :: version))

/-! ### Reading -/

/-- The fields `version` and `content_hash` of a file. -/
def bindingOf : RegistryFile δ → Text × δ
  | .version v => (v.version, R.content v)
  | .binding version contentHash => (version, contentHash)

def bindingFile (v : RegistryVersion) : RegistryFile δ := .binding v.version (R.content v)

/-- `load_version`. -/
def loadVersion (d : RegistryDisk δ) (version : Text) : Except RegistryError RegistryVersion :=
  match d.read (R.versionPath version) with
  | .error .missing => .error .versionMissing
  | .error err => .error (.os err)
  | .ok (.version v) => .ok v
  | .ok (.binding _ _) => .error .schemaInvalid

section Decidable

variable [DecidableEq δ]

/-- `active`. -/
def active (d : RegistryDisk δ) : Except RegistryError (Option RegistryVersion) :=
  if d.exists_ R.pointer then
    match d.read R.pointer with
    | .error _ => .error .pointerInvalid
    | .ok file => do
      let active ← R.loadVersion d (R.bindingOf file).1
      if (R.bindingOf file).2 = R.content active then .ok (some active) else .error .pointerMismatch
  else .ok none

/-- `validate`: the answers of the metadata validator are an input, `none` where it raises. -/
def validate (validator : RegistryMarket → Option Bool) (candidate : RegistryVersion) :
    Except RegistryError Unit :=
  candidate.markets.forM fun market =>
    match validator market with
    | none => .error .validationUnavailable
    | some false => .error .identityUnresolved
    | some true => .ok ()

/-- `_assert_prior_validation`. -/
def assertPriorValidation (d : RegistryDisk δ) (candidate : RegistryVersion) :
    Except RegistryError Unit :=
  match d.read (R.validationPath candidate.version) with
  | .error _ => .error .noValidation
  | .ok file => if file = R.bindingFile candidate then .ok () else .error .validationMismatch

/-- `pending_version`. -/
def pendingVersion (d : RegistryDisk δ) : Except RegistryError (Option RegistryVersion) :=
  if d.exists_ R.pending then
    match d.read R.pending with
    | .error _ => .error .pendingInvalid
    | .ok file => do
      let candidate ← R.loadVersion d (R.bindingOf file).1
      if (R.bindingOf file).2 = R.content candidate then
        let _ ← R.assertPriorValidation d candidate
        .ok (some candidate)
      else .error .pendingMismatch
  else .ok none

/-- A name of the form `{stamp}-{version}.json`. -/
def isRecordOf (version name : Text) : Bool :=
  ".json".toList.isSuffixOf name && decide (17 < name.length)
    && decide (name.drop 16 = '-' :: jsonName version)

section

variable (d : RegistryDisk δ)

/-- `_prior_history_record`. -/
def priorHistoryRecord (version : Text) : Option (List Text) :=
  if d.exists_ R.history then
    ((d.entries R.history).find? (isRecordOf version)).map fun name => R.history ++ [name]
  else none

/-- `prior_active`. -/
def priorActive (version : Text) : Except RegistryError (Option RegistryVersion) :=
  match R.priorHistoryRecord d version with
  | none => .ok none
  | some _ => (R.loadVersion d version).map some

/-! ### Staging -/

/-- `_stage_validated_candidate`. -/
def stageValidatedCandidate (candidate : RegistryVersion) :
    Except RegistryError (List (RegistryStep δ)) :=
  let target := R.versionPath candidate.version
  let evidence := .write (R.validationPath candidate.version) (R.bindingFile candidate)
  if d.exists_ target then
    match d.read target with
    | .error err => .error (.os err)
    | .ok file => if file = .version candidate then .ok [evidence] else .error .versionExists
  else .ok [.write target (.version candidate), evidence]

/-- `stage`. -/
def stage (validator : RegistryMarket → Option Bool)
    (candidate : RegistryVersion) : Except RegistryError (List (RegistryStep δ)) := do
  validate validator candidate
  R.stageValidatedCandidate d candidate

/-- `request_apply`. -/
def requestApply (version : Text) :
    Except RegistryError (List (RegistryStep δ)) := do
  let candidate ← R.loadVersion d version
  R.assertPriorValidation d candidate
  .ok [.write R.pending (R.bindingFile candidate)]

/-- `reconcile_pending`. -/
def reconcilePending : Except RegistryError (List (RegistryStep δ)) := do
  match ← R.pendingVersion d with
  | none => .ok []
  | some candidate =>
    match ← R.active d with
    | none => .ok []
    | some active =>
      if active.version = candidate.version ∧ R.content active = R.content candidate then
        .ok [.unlink R.pending]
      else .ok []

/-! ### Lifecycle successors -/

end

/-- `_automatic_lifecycle_version`. -/
def automaticLifecycleVersion (active : RegistryVersion) (markets : List RegistryMarket) : Text :=
  "lifecycle-".toList ++ R.transition (R.content active) markets

/-- The loop of `_stage_parent_derived_lifecycle_successor` over the markets. -/
def checkSuccessorMarket (updates : Dict Text MarketLifecycle) (pair : RegistryMarket × RegistryMarket) :
    Except RegistryError Unit :=
  let (parent, candidate) := pair
  let requested := updates.get? parent.marketId
  if candidate.identity ≠ parent.identity then .error .identityChanged
  else if { candidate with lifecycle := parent.lifecycle } ≠ parent then .error .metadataChanged
  else if candidate.lifecycle ≠ requested.getD parent.lifecycle then .error .targetConflict
  else match requested with
    | none => .ok ()
    | some target =>
      if target ∈ parent.lifecycle.next then .ok ()
      else .error (.lifecycle (.illegalTransition parent.lifecycle target))

/-- `_stage_parent_derived_lifecycle_successor`. -/
def stageParentDerived (d : RegistryDisk δ) (active candidate : RegistryVersion)
    (updates : Dict Text MarketLifecycle) (targetMarkets : List RegistryMarket) :
    Except RegistryError (List (RegistryStep δ)) := do
  let current ← R.active d
  require (current = some active) .activeChanged
  R.assertPriorValidation d active
  let activeIds := active.markets.map RegistryMarket.marketId
  require (candidate.markets.map RegistryMarket.marketId = activeIds) .membershipChanged
  require (∀ id ∈ updates.keys, id ∈ activeIds) (.lifecycle .marketNotInActive)
  (active.markets.zip candidate.markets).forM (checkSuccessorMarket updates)
  require (candidate.markets = targetMarkets) .targetConflict
  require (candidate.version = R.automaticLifecycleVersion active targetMarkets) .versionKey
  require (candidate.createdAt = active.createdAt) .createdAtChanged
  R.stageValidatedCandidate d candidate

/-- The successor of `ensure_lifecycle_successor`: the one stored, or a new one. -/
def lifecycleCandidate (d : RegistryDisk δ) (version : Text) (createdAt : Datetime)
    (markets : List RegistryMarket) : Except RegistryError RegistryVersion :=
  if d.exists_ (R.versionPath version) then R.loadVersion d version
  else match RegistryVersion.create? version createdAt markets with
    | none => .error .candidateInvalid
    | some candidate => .ok candidate

/-- `ensure_lifecycle_successor`. -/
def ensureLifecycleSuccessor (d : RegistryDisk δ) (updates : Dict Text MarketLifecycle) :
    Except RegistryError (List (RegistryStep δ)) := do
  let some active ← R.active d | .error .noActive
  let markets ← (lifecycleTargetMarkets active.markets updates).mapError RegistryError.lifecycle
  let version := R.automaticLifecycleVersion active markets
  let candidate ← R.lifecycleCandidate d version active.createdAt markets
  R.stageParentDerived d active candidate updates markets

end Decidable

end RegistryRoot

/-! ### Witnesses -/

/-- A `CohortWitness`; `issuer` and `serial` are the identities of the issuing manager and
of the witness object. -/
structure CohortWitness (δ : Type) where
  boundaryOpenTimeMs : ℕ
  baseVersion : Text
  baseHash : δ
  successorVersion : Text
  successorHash : δ
  requiredMarketIds : List Text
  issuer : ℕ
  serial : ℕ

abbrev CohortWitness.identity (w : CohortWitness δ) : ℕ × ℕ := (w.issuer, w.serial)

/-- The checks of `_issue_cohort_witness`. -/
def CohortWitness.check (w : CohortWitness δ) : Except RegistryError Unit :=
  if w.boundaryOpenTimeMs % 300000 ≠ 0 then .error .witnessBoundary
  else if w.baseVersion = [] ∨ w.successorVersion = [] then .error .witnessField
  else if [] ∈ w.requiredMarketIds then .error .witnessCohort
  else .ok ()

/-- The evidence authority of a call: the Data authority with the Registry columns of its 5m
rows, the bound E4 projection, or anything else. -/
inductive EvidenceAuthority (δ : Type)
  | data (row : Text → ℕ → Option (Text × δ))
  | boundE4 (prove : ℕ → List Text → Text → δ → Option Bool)
  | other

/-- The authorities `apply_witness` takes. -/
def EvidenceAuthority.accepted : EvidenceAuthority δ → Bool
  | .other => false
  | _ => true

/-- `prove_boundary_evidence`: nothing where it raises. -/
def EvidenceAuthority.proveBoundaryEvidence [DecidableEq δ] (boundaryOpenTimeMs : ℕ)
    (marketIds : List Text) (baseVersion : Text) (baseHash : δ) : EvidenceAuthority δ → Option Bool
  | .data row => some (marketIds.all fun id => row id boundaryOpenTimeMs = some (baseVersion, baseHash))
  | .boundE4 prove => prove boundaryOpenTimeMs marketIds baseVersion baseHash
  | .other => none

namespace RegistryRoot

variable (R : RegistryRoot δ) [DecidableEq δ]

section

variable (d : RegistryDisk δ)

/-- The durable steps of a switch, once its checks are passed: the record of the prior
pointer if there is none, the pointer, the end of the proposal. -/
def switchSteps (stamp : Text) (active pending : RegistryVersion)
    (priorPointer : RegistryFile δ) : Except RegistryError (List (RegistryStep δ)) :=
  let switch := [.write R.pointer (R.bindingFile pending), .unlink R.pending]
  match R.priorHistoryRecord d active.version with
  | none => .ok (.write (R.historyPath stamp active.version) priorPointer :: switch)
  | some record =>
    match d.read record with
    | .error err => .error (.os err)
    | .ok existing => if existing = priorPointer then .ok switch else .error .historyConflict

/-- `apply_witness`, after the witness was consumed. -/
def applyWitness (w : CohortWitness δ) (authority : EvidenceAuthority δ) :
    Except RegistryError (List (RegistryStep δ)) := do
  require (authority.accepted = true) .foreignAuthority
  require (w.requiredMarketIds ≠ []) .emptyCohort
  let some active ← R.active d | .error .noActive
  let some pending ← R.pendingVersion d | .error .noPending
  require (active.version = w.baseVersion ∧ R.content active = w.baseHash) .baseMismatch
  require (pending.version = w.successorVersion ∧ R.content pending = w.successorHash)
    .successorMismatch
  let some proven := authority.proveBoundaryEvidence w.boundaryOpenTimeMs w.requiredMarketIds
    w.baseVersion w.baseHash | .error .proofFailed
  require (proven = true) .notProven
  let priorPointer ← (d.read R.pointer).mapError RegistryError.os
  let some time := Datetime.ofEpochSeconds (w.boundaryOpenTimeMs / 1000) | .error .timeOverflow
  R.switchSteps d time.compactText active pending priorPointer

/-- The bytes of the pointer, if there is one. -/
def livePointer : Except RegistryError (Option (RegistryFile δ)) :=
  if d.exists_ R.pointer then ((d.read R.pointer).mapError RegistryError.os).map some else .ok none

/-- `_apply_admitted`, as the Data authority calls it: while there is no active Registry.
The time is the receipt of the admitted bar. -/
def applyAdmitted (receivedAt : Datetime) :
    Except RegistryError (List (RegistryStep δ)) := do
  match ← R.active d with
  | some _ => .ok []
  | none =>
    match ← R.pendingVersion d with
    | none => .ok []
    | some candidate =>
      let prior ← R.active d
      let priorPointer ← R.livePointer d
      let record := match prior, priorPointer with
        | some prior, some content => [.write (R.historyPath receivedAt.compactText prior.version) content]
        | _, _ => []
      .ok (.write R.pointer (R.bindingFile candidate) :: (record ++ [.unlink R.pending]))

end

end RegistryRoot

/-! ### Calls -/

/-- A manager: its files, its identity as an issuer, the number of witnesses it issued, and
the witnesses it has consumed. -/
structure Manager (δ : Type) where
  disk : RegistryDisk δ := {}
  issuer : ℕ := 0
  issued : ℕ := 0
  consumed : List (ℕ × ℕ) := []

inductive RegistryCall (δ : Type)
  | stage (candidate : RegistryVersion) (validator : RegistryMarket → Option Bool)
  | requestApply (version : Text)
  | reconcilePending
  | ensureLifecycleSuccessor (updates : Dict Text MarketLifecycle)
  | issueCohortWitness (boundaryOpenTimeMs : ℕ) (baseVersion : Text) (baseHash : δ)
      (successorVersion : Text) (successorHash : δ) (requiredMarketIds : List Text)
  | applyWitness (witness : CohortWitness δ) (authority : EvidenceAuthority δ)
  | applyAdmitted (receivedAt : Datetime)

namespace Manager

variable [DecidableEq δ] (R : RegistryRoot δ)

section

variable (m : Manager δ)

/-- `_issue_cohort_witness`. -/
def issueCohortWitness (boundaryOpenTimeMs : ℕ) (baseVersion : Text) (baseHash : δ)
    (successorVersion : Text) (successorHash : δ) (requiredMarketIds : List Text) :
    Except RegistryError (CohortWitness δ) :=
  let w : CohortWitness δ := ⟨boundaryOpenTimeMs, baseVersion, baseHash, successorVersion,
    successorHash, requiredMarketIds, m.issuer, m.issued⟩
  w.check.map fun _ => w

/-- The durable steps of a call. -/
def plan : RegistryCall δ → Except RegistryError (List (RegistryStep δ))
  | .stage candidate validator => R.stage m.disk validator candidate
  | .requestApply version => R.requestApply m.disk version
  | .reconcilePending => R.reconcilePending m.disk
  | .ensureLifecycleSuccessor updates => R.ensureLifecycleSuccessor m.disk updates
  | .issueCohortWitness boundary baseVersion baseHash successorVersion successorHash ids =>
    (m.issueCohortWitness boundary baseVersion baseHash successorVersion successorHash ids).map
      fun _ => []
  | .applyWitness w authority =>
    if w.issuer ≠ m.issuer then .error .notIssuedHere
    else if w.identity ∈ m.consumed then .error .alreadyConsumed
    else R.applyWitness m.disk w authority
  | .applyAdmitted receivedAt => R.applyAdmitted m.disk receivedAt

/-- The witnesses consumed after a call. -/
def consume : RegistryCall δ → List (ℕ × ℕ)
  | .applyWitness w _ => if w.issuer = m.issuer then w.identity :: m.consumed else m.consumed
  | _ => m.consumed

/-- The number of witnesses issued after a call. -/
def issue : RegistryCall δ → ℕ
  | .issueCohortWitness .. => m.issued + 1
  | _ => m.issued

/-- A call; `stop` is the number of steps after which the process stops, if it does.  A
process that starts again is another issuer. -/
def call (op : RegistryCall δ) (stop : Option ℕ) : Option RegistryError × Manager δ :=
  let issuer := if stop.isSome then m.issuer + 1 else m.issuer
  match m.plan R op with
  | .error err => (some err, ⟨m.disk, issuer, m.issue op, m.consume op⟩)
  | .ok steps =>
    let (disk, failed) := m.disk.steps (match stop with | none => steps | some k => steps.take k)
    (failed.map RegistryError.os, ⟨disk, issuer, m.issue op, m.consume op⟩)

end

/-- The manager after some calls, on an empty disk. -/
def run (calls : List (RegistryCall δ × Option ℕ)) : Manager δ :=
  calls.foldl (fun m c => (m.call R c.1 c.2).2) {}

end Manager

end TraderAssist
