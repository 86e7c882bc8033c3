/-
TraderAssist/Records/Types.lean

The immutable records of `shadow_records/records.py`.

A payload is a canonical JSON object: fields in the order of their names.  The hex form of
a digest is a value of its own (`hex`), as no other text written into a payload has that
form; a list or an object inside a payload is kept as its canonical text (`nested`).
Floating-point values are left out: the producers write decimals as texts.

The hash of a record is taken of its type and its canonical content, by two functions that
stand for `_digest` at the kinds `<type>/identity` and `<type>/content`.
-/
import TraderAssist.Lib.Code
import TraderAssist.Lib.Dict
import TraderAssist.Lib.Raises

namespace TraderAssist

open Py

variable {δ : Type}

/-! ### Payloads -/

inductive JsonValue (δ : Type)
  | null
  | bool (b : Bool)
  | int (z : ℤ)
  | text (t : Text)
  | hex (d : δ)
  | nested (t : Text)
deriving DecidableEq

namespace JsonValue

/-- The number that a value equals, if any: `True == 1`. -/
def number? : JsonValue δ → Option ℤ
  | .bool b => some b.toInt
  | .int z => some z
  | _ => none

/-- `a == b`. -/
def same [DecidableEq δ] (a b : JsonValue δ) : Bool :=
  a = b || (a.number?.isSome && a.number? = b.number?)

end JsonValue

/-- A canonical object: the keys are sorted and distinct. -/
structure JsonObject (δ : Type) where
  entries : List (Text × JsonValue δ)
  sorted : (entries.map Prod.fst).Pairwise (· < ·)
deriving DecidableEq

namespace JsonObject

/-- `payload.get(name)`: `None` for a name that is not there. -/
def get (o : JsonObject δ) (name : Text) : JsonValue δ := (Assoc.lookup name o.entries).getD .null

/-- `name in payload`. -/
def has (o : JsonObject δ) (name : Text) : Bool := (Assoc.lookup name o.entries).isSome

end JsonObject

/-! ### Record types -/

/-- The keys of `RECORD_TYPES`. -/
inductive RecordType
  | provenance
  | scannerEvidence
  | strategyEvaluation
  | formalizationDisposition
  | candidate
  | candidateTransition
  | marketEvent
  | formalSignal
  | planRecord
  | shadowOrder
  | humanReview
  | outcomeEnvelope
  | outcomeTransition
  | outcomeBar
  | e4MarketBarRef
  | outcomeE4BarRef
  | correlationIdentifier
  | notificationOutboxReference
deriving DecidableEq, Repr

namespace RecordType

/-- `required_fields`. -/
def requiredFields : RecordType → List String
  | .provenance => ["strategy_version", "parameter_version", "registry_version", "registry_hash",
      "cost_model_version", "release_sha", "recorded_at"]
  | .scannerEvidence => ["scan_id", "observed_at", "scanner_version", "parameter_version",
      "registry_version", "registry_hash", "release_sha", "universe_snapshot_hash",
      "runtime_readiness_hash", "ready_universe", "observations_hash", "observations"]
  | .strategyEvaluation => ["evaluation_id", "market_id", "latest_closed_5m_hash",
      "evaluation_boundary_ms", "registry_version", "registry_hash", "strategy_version",
      "parameter_version", "input_ledger_hash", "output_ledger_hash", "output_ledger", "decisions"]
  | .formalizationDisposition => ["strategy_evaluation_id", "strategy_decision_id", "market_id",
      "status", "reason", "decided_at", "strategy_version", "parameter_version", "release_sha"]
  | .candidate => ["scanner_evidence_id", "scan_id", "market_id", "state", "alert_level",
      "created_at", "scanner_version", "parameter_version", "candidate_content",
      "candidate_content_hash", "transitions"]
  | .candidateTransition => ["candidate_id", "from_state", "to_state", "transitioned_at"]
  | .marketEvent => ["market_id", "event_kind", "event_time"]
  | .formalSignal => ["market_event_id", "market_id", "setup_family", "setup_mode", "side",
      "approval_status", "tier", "confirmed_at", "provenance_id"]
  | .planRecord => ["signal_id", "planned_entry", "stop", "tp1", "tp2", "risk_reference_sizing",
      "created_at", "provenance_id"]
  | .shadowOrder => ["signal_id", "plan_id", "market_event_id", "market_id", "setup_family",
      "setup_mode", "side", "planned_entry", "stop", "tp1", "tp2", "risk_reference_sizing",
      "provenance_id", "strategy_version", "parameter_version", "registry_version",
      "registry_hash", "cost_model_version", "created_at", "submission_status"]
  | .humanReview => ["signal_id", "shadow_order_id", "action", "actor", "source", "reviewed_at"]
  | .outcomeEnvelope => ["signal_id", "shadow_order_id", "observed_at", "path_maturity_status"]
  | .outcomeTransition => ["transition_id", "shadow_order_id", "market_id", "kind",
      "occurred_at_ms", "reference_price", "payload_hash"]
  | .outcomeBar => ["market_id", "open_time_ms", "close_time_ms", "open", "high", "low", "close",
      "canonical_hash", "source_id"]
  | .e4MarketBarRef => ["market_id", "open_time_ms", "registry_version", "registry_content_hash",
      "e4_run_id", "admission_hash", "admission_ordinal", "source_identity"]
  | .outcomeE4BarRef => ["market_id", "open_time_ms", "canonical_hash", "e4_run_id", "e4_root",
      "admission_epoch", "admission_hash", "admission_ordinal", "source_identity",
      "continuity_epoch", "process_epoch"]
  | .correlationIdentifier => ["signal_id", "shadow_order_id", "cluster_kind", "cluster_id",
      "correlation_version"]
  | .notificationOutboxReference => ["signal_id", "publication_id", "published_at"]

/-- The link columns of the table of a type, the tables they refer to, and whether a
column may be empty. -/
def linkColumns : RecordType → List (String × RecordType × Bool)
  | .candidate => [("scanner_evidence_id", .scannerEvidence, false)]
  | .candidateTransition => [("candidate_id", .candidate, false)]
  | .marketEvent => [("candidate_id", .candidate, true)]
  | .formalSignal => [("candidate_id", .candidate, true), ("market_event_id", .marketEvent, false),
      ("provenance_id", .provenance, false)]
  | .planRecord => [("signal_id", .formalSignal, false), ("provenance_id", .provenance, false)]
  | .shadowOrder => [("signal_id", .formalSignal, false), ("plan_id", .planRecord, false),
      ("market_event_id", .marketEvent, false), ("provenance_id", .provenance, false)]
  | .humanReview | .outcomeEnvelope | .correlationIdentifier =>
      [("signal_id", .formalSignal, false), ("shadow_order_id", .shadowOrder, false)]
  | .outcomeTransition => [("shadow_order_id", .shadowOrder, false)]
  | .notificationOutboxReference => [("signal_id", .formalSignal, false)]
  | _ => []

end RecordType

/-! ### Validation -/

/-- Whether a value is one of some texts. -/
def JsonValue.isOneOf (v : JsonValue δ) (texts : List String) : Bool :=
  match v with
  | .text t => texts.any fun s => s.toList = t
  | _ => false

def skippedReasonCodes : List String :=
  ["NOT_SEEN_IN_TIME", "NO_CAPACITY", "CONFLICTING_POSITION", "PERSONAL_AVAILABILITY",
    "OTHER_NON_STRATEGY"]

def rejectedReasonCodes : List String :=
  ["STRUCTURE_CONFLICT", "ENTRY_TOO_LATE", "CHASE_EXCEEDED", "LIQUIDITY_POOR",
    "RISK_REWARD_INSUFFICIENT", "DATA_QUALITY", "SIGNAL_LOGIC_ERROR", "OTHER_STRATEGY_REASON"]

namespace JsonObject

/-- The field of a name. -/
def field (o : JsonObject δ) (name : String) : JsonValue δ := o.get name.toList

def formalSignalValid (o : JsonObject δ) : Bool :=
  (match o.field "formalization_status" with
    | .null => true
    | status => status.isOneOf ["STRATEGY_ELIGIBLE"]) &&
  (o.field "setup_family").isOneOf ["SWEEP_RECLAIM", "BREAKOUT_RETEST", "RANGE_EDGE_REJECTION"] &&
  (o.field "tier").isOneOf ["P0", "P1", "P2"] &&
  (!(o.field "setup_family").isOneOf ["BREAKOUT_RETEST"] ||
    (o.field "setup_mode").isOneOf ["MICRO_FAST", "STANDARD"])

def humanReviewValid (o : JsonObject δ) : Bool :=
  (o.field "action").isOneOf ["TAKEN", "SKIPPED", "REJECTED"] &&
  (match o.field "reason_code" with
    | .null => true
    | .text t =>
      let code : JsonValue δ := .text t
      (!(o.field "action").isOneOf ["SKIPPED"] || code.isOneOf skippedReasonCodes) &&
      (!(o.field "action").isOneOf ["REJECTED"] || code.isOneOf rejectedReasonCodes) &&
      (!(o.field "action").isOneOf ["TAKEN"] ||
        !code.isOneOf (skippedReasonCodes ++ rejectedReasonCodes))
    | .hex _ => (o.field "action").isOneOf ["TAKEN"]
    | _ => false)

def dispositionValid (o : JsonObject δ) : Bool :=
  (o.field "status").isOneOf ["REJECTED", "EXPIRED"] &&
  (match o.field "reason" with
    | .text t => !t.isEmpty
    | .hex _ => true
    | _ => false)

end JsonObject

/-- `validate_payload`. -/
def RecordType.validatePayload (o : JsonObject δ) : RecordType → Bool
  | .formalSignal => o.formalSignalValid
  | .shadowOrder => (o.field "submission_status").isOneOf ["NOT_SUBMITTED"]
  | .humanReview => o.humanReviewValid
  | .formalizationDisposition => o.dispositionValid
  | _ => true

/-- A record that its constructor accepted; the hashes are functions of it. -/
structure ImmutableRecord (δ : Type) where
  recordType : RecordType
  identity : JsonObject δ
  payload : JsonObject δ
  required : ∀ name ∈ recordType.requiredFields, payload.has name.toList = true
  valid : recordType.validatePayload payload = true
deriving DecidableEq

/-! ### Hashes -/

/-- The two uses of `_digest`, without collisions. -/
structure RecordHash (δ : Type) where
  identity : RecordType → JsonObject δ → δ
  content : RecordType → JsonObject δ → JsonObject δ → δ
  identity_inj : ∀ {t t' o o'}, identity t o = identity t' o' → t = t' ∧ o = o'
  content_inj : ∀ {t t' o o' p p'}, content t o p = content t' o' p' → t = t' ∧ o = o' ∧ p = p'

namespace ImmutableRecord

variable (sha256 : RecordHash δ)

/-- `record_id`. -/
def recordId (r : ImmutableRecord δ) : δ := sha256.identity r.recordType r.identity

/-- `canonical_hash`. -/
def canonicalHash (r : ImmutableRecord δ) : δ := sha256.content r.recordType r.identity r.payload

variable {sha256}

/-- Records of one canonical hash are equal. -/
theorem eq_of_canonicalHash {r r' : ImmutableRecord δ}
    (h : r.canonicalHash sha256 = r'.canonicalHash sha256) : r = r' := by
  obtain ⟨ht, hi, hp⟩ := sha256.content_inj h
  cases r
  cases r'
  subst ht hi hp
  rfl

end ImmutableRecord

/-! ### A hash that evaluates -/

namespace RecordHash

def typeCode : Code RecordType := Code.nat.comap RecordType.ctorIdx (by
  intro a b h
  cases a <;> cases b <;> first | rfl | cases h)

/-- A value as a sum of the forms it can have. -/
def valueForm : JsonValue (List ℕ) → (Bool ⊕ ℤ) ⊕ ((Text ⊕ List ℕ) ⊕ (Text ⊕ ℕ))
  | .bool b => .inl (.inl b)
  | .int z => .inl (.inr z)
  | .text t => .inr (.inl (.inl t))
  | .hex d => .inr (.inl (.inr d))
  | .nested t => .inr (.inr (.inl t))
  | .null => .inr (.inr (.inr 0))

theorem valueForm_injective : Function.Injective valueForm := by
  intro a b h
  cases a <;> cases b <;> simp_all [valueForm]

def valueCode : Code (JsonValue (List ℕ)) :=
  ((Code.bool.sum .int).sum ((Code.text.sum .digest).sum (Code.text.sum .nat))).comap valueForm
    valueForm_injective

def objectCode : Code (JsonObject (List ℕ)) :=
  (Code.text.prod valueCode).list.comap JsonObject.entries (by
    rintro ⟨a, ha⟩ ⟨b, hb⟩ h
    subst h
    rfl)

/-- The hash that is the code of what is hashed. -/
def coded : RecordHash (List ℕ) where
  identity t o := (typeCode.prod objectCode).encode (t, o)
  content t o p := (typeCode.prod (objectCode.prod objectCode)).encode (t, o, p)
  identity_inj h := by simpa using Code.injective _ h
  content_inj h := by simpa using Code.injective _ h

end RecordHash

end TraderAssist
