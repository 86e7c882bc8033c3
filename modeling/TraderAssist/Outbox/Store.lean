/-
TraderAssist/Outbox/Store.lean

`EvidenceOutbox` of `integration.py` and the outbox part of
`EvidenceStore.publish_formal_bundle`.

The table `notification_outbox` is a dictionary from idempotency keys to rows.  Its
times are texts that `_timestamp` wrote; `_parse_timestamp` reads back the time that
was written, so a row keeps the time itself, and the
comparisons of `claim_due` are made on the texts.  Every method is one transaction.

Left out: the immutable records of a bundle.  `publishFormalBundle` is told whether
they were accepted; if they were not, the transaction is rolled back as a whole.
-/
import TraderAssist.Lib.Datetime
import TraderAssist.Lib.Dict
import TraderAssist.Lib.Seq

namespace TraderAssist

open Py

variable {δ : Type}

inductive NotificationKind
  | formalSignal
  | watch
  | watchNewMarket
  | researchFailedBreakout
deriving DecidableEq, Repr

inductive DeliveryState
  | pending
  | delivered
  | permanentFailure
deriving DecidableEq, Repr

inductive OutboxError
  | formalByEnqueue
  | notFormal
  | bundleRefused
  | identityConflict
  | claimBounds
  | timeOverflow
  | lostOwnership
  | tokenNotUnique
deriving DecidableEq, Repr

structure MessageEnvelope where
  schemaVersion : Text
  kind : NotificationKind
  idempotencyKey : Text
  content : Text
  createdAt : Datetime
deriving DecidableEq

/-- A transition of a delivery; only a pending one has a next attempt. -/
structure DeliveryTransition where
  state : DeliveryState
  reason : Text
  completedAt : Datetime
  responseStatus : Option ℕ := none
  nextAttemptAt : Option Datetime := none
  next_valid : nextAttemptAt.isSome = decide (state = .pending)

/-- A row of `notification_outbox`, without its key. -/
structure OutboxRow (δ : Type) where
  schemaVersion : Text
  kind : NotificationKind
  content : Text
  createdAt : Datetime
  state : DeliveryState := .pending
  attemptCount : ℕ := 0
  nextAttemptAt : Datetime
  claimToken : Option δ := none
  claimExpiresAt : Option Datetime := none
  completedAt : Option Datetime := none
  responseStatus : Option ℕ := none
  lastReason : Option Text := none

/-- What the hash of a claim token is taken of. -/
structure ClaimPayload where
  idempotencyKey : Text
  attemptCount : ℕ
  claimedAt : Text
deriving DecidableEq

structure ClaimedOutboxMessage (δ : Type) where
  envelope : MessageEnvelope
  attemptCount : ℕ
  claimToken : δ

structure EvidenceOutbox (δ : Type) where
  rows : Dict Text (OutboxRow δ) := .empty

/-! ### Times -/

/-- `_timestamp`. -/
def timestamp (value : Datetime) : Text := value.isoText

namespace OutboxRow

/-- `_row_envelope`. -/
def envelope (row : OutboxRow δ) (key : Text) : MessageEnvelope :=
  ⟨row.schemaVersion, row.kind, key, row.content, row.createdAt⟩

/-- `claim_token IS NULL OR claim_expires_at <= ?`. -/
def free (row : OutboxRow δ) (now : Text) : Bool :=
  row.claimToken.isNone || row.claimExpiresAt.any fun expires => timestamp expires ≤ now

/-- The condition of the selection of `claim_due`. -/
def due (row : OutboxRow δ) (now : Text) : Bool :=
  row.state = .pending && decide (timestamp row.nextAttemptAt ≤ now) && row.free now

/-- The row of a claim. -/
def claim (row : OutboxRow δ) (token : δ) (expires : Datetime) : OutboxRow δ :=
  { row with
    attemptCount := row.attemptCount + 1
    claimToken := some token
    claimExpiresAt := some expires }

/-- The row after a transition. -/
def finish (row : OutboxRow δ) (transition : DeliveryTransition) : OutboxRow δ :=
  { row with
    state := transition.state
    nextAttemptAt := transition.nextAttemptAt.getD transition.completedAt
    claimToken := none
    claimExpiresAt := none
    completedAt := some transition.completedAt
    responseStatus := transition.responseStatus
    lastReason := some transition.reason }

end OutboxRow

namespace EvidenceOutbox

section

variable (o : EvidenceOutbox δ)

section

variable (envelope : MessageEnvelope)

/-- `INSERT OR IGNORE`: a new row for a key that is not there. -/
def insert : EvidenceOutbox δ :=
  if o.rows.has envelope.idempotencyKey then o
  else ⟨o.rows.set envelope.idempotencyKey
    { schemaVersion := envelope.schemaVersion
      kind := envelope.kind
      content := envelope.content
      createdAt := envelope.createdAt
      nextAttemptAt := envelope.createdAt }⟩

/-- Insert, and refuse an envelope that differs from the one retained. -/
def insertChecked :
    Except OutboxError (Bool × EvidenceOutbox δ) :=
  let inserted := o.insert envelope
  if (inserted.rows.get? envelope.idempotencyKey).map
      (OutboxRow.envelope · envelope.idempotencyKey) = some envelope then
    .ok (o.rows.has envelope.idempotencyKey, inserted)
  else .error .identityConflict

/-- `enqueue`: whether the message was there already. -/
def enqueue :
    Except OutboxError (Bool × EvidenceOutbox δ) :=
  if envelope.kind = .formalSignal then .error .formalByEnqueue
  else o.insertChecked envelope

/-- The outbox part of `publish_formal_bundle`. -/
def publishFormalBundle (accepted : Bool) :
    Except OutboxError (Bool × EvidenceOutbox δ) :=
  if envelope.kind ≠ .formalSignal then .error .notFormal
  else if accepted = false then .error .bundleRefused
  else o.insertChecked envelope

/-! ### Envelopes in the outbox -/

end

end

section Holds

variable {o o' : EvidenceOutbox δ} {envelope envelope' : MessageEnvelope} {coalesced : Bool}

/-- The outbox has a row with the content of the envelope. -/
def Holds (o : EvidenceOutbox δ) (envelope : MessageEnvelope) : Prop :=
  ∃ row, o.rows.get? envelope.idempotencyKey = some row ∧
    row.envelope envelope.idempotencyKey = envelope

theorem insertChecked_eq_ok (h : o.insertChecked envelope = .ok (coalesced, o')) :
    o' = o.insert envelope ∧ o'.Holds envelope := by
  unfold EvidenceOutbox.insertChecked at h
  simp only at h
  split_ifs at h with hrow
  injection h with h
  injection h with _ ho
  rw [ho] at hrow
  exact ⟨ho.symm, Option.map_eq_some_iff.mp hrow⟩

theorem holds_insertChecked (h : o.insertChecked envelope = .ok (coalesced, o')) :
    o'.Holds envelope := (insertChecked_eq_ok h).2

/-- Rows stay when another is inserted. -/
theorem Holds.insertChecked (hold : o.Holds envelope')
    (h : o.insertChecked envelope = .ok (coalesced, o')) : o'.Holds envelope' := by
  obtain ⟨row, hget, henv⟩ := hold
  refine ⟨row, ?_, henv⟩
  rw [(insertChecked_eq_ok h).1, insert]
  split_ifs with hhas
  · exact hget
  · rw [Dict.get?_set_ne]
    · exact hget
    · intro heq
      exact hhas (Dict.has_eq_true.mpr ⟨row, heq ▸ hget⟩)

/-- An envelope that is held is found again. -/
theorem Holds.insertChecked_self (hold : o.Holds envelope) : o.insertChecked envelope = .ok (true, o) := by
  obtain ⟨row, hget, henv⟩ := hold
  have hhas := Dict.has_eq_true.mpr ⟨row, hget⟩
  have hins : o.insert envelope = o := by rw [insert, if_pos hhas]
  unfold EvidenceOutbox.insertChecked
  simp only
  rw [hins, hget, Option.map_some, henv, if_pos rfl, hhas]

end Holds

section Claims

variable [DecidableEq δ] (sha256 : ClaimPayload → δ)

/-- Claim one of the selected rows.  The update names the values the row was
selected with, and the tokens of the table are unique. -/
def claimRow (now : Text) (expires : Datetime)
    (acc : List (ClaimedOutboxMessage δ) × EvidenceOutbox δ) (entry : Text × OutboxRow δ) :
    Except OutboxError (List (ClaimedOutboxMessage δ) × EvidenceOutbox δ) :=
  let (key, row) := entry
  let attemptCount := row.attemptCount + 1
  let token := sha256 ⟨key, attemptCount, now⟩
  match acc.2.rows.get? key with
  | none => .error .lostOwnership
  | some current =>
    if current.state = .pending ∧ current.attemptCount = row.attemptCount ∧ current.free now = true then
      if acc.2.rows.entries.any fun other =>
          other.1 ≠ key && other.2.claimToken = some token then .error .tokenNotUnique
      else .ok (acc.1 ++ [⟨row.envelope key, attemptCount, token⟩],
        ⟨acc.2.rows.set key (current.claim token expires)⟩)
    else .error .lostOwnership

/-- `ORDER BY next_attempt_at, created_at, idempotency_key`. -/
def claimOrder (entry : Text × OutboxRow δ) : Text ×ₗ Text ×ₗ Text :=
  toLex (timestamp entry.2.nextAttemptAt, toLex (timestamp entry.2.createdAt, entry.1))

/-- The rows a claim selects: the first ones that are due. -/
def selectDue (o : EvidenceOutbox δ) (now : Text) (limit : ℕ) : List (Text × OutboxRow δ) :=
  (sortBy claimOrder (o.rows.entries.filter fun entry => entry.2.due now)).take limit

/-- `claim_due`. -/
def claimDue (o : EvidenceOutbox δ) (now : Datetime) (limit leaseSeconds : ℕ) :
    Except OutboxError (List (ClaimedOutboxMessage δ) × EvidenceOutbox δ) :=
  if limit < 1 ∨ leaseSeconds < 1 then .error .claimBounds
  else match now.addSeconds leaseSeconds with
    | none => .error .timeOverflow
    | some expires =>
      (o.selectDue (timestamp now) limit).foldlM (claimRow sha256 (timestamp now) expires) ([], o)

/-- `complete`: nothing if no row has the token. -/
def complete (o : EvidenceOutbox δ) (claimToken : δ) (transition : DeliveryTransition) :
    EvidenceOutbox δ :=
  match o.rows.entries.find? fun entry => entry.2.claimToken = some claimToken with
  | none => o
  | some (key, row) => ⟨o.rows.set key (row.finish transition)⟩

/-! ### Runs -/

/-- The calls that change the outbox, by whichever worker. -/
inductive Op (δ : Type)
  | enqueue (envelope : MessageEnvelope)
  | publishFormalBundle (envelope : MessageEnvelope) (accepted : Bool)
  | claimDue (now : Datetime) (limit leaseSeconds : ℕ)
  | complete (claimToken : δ) (transition : DeliveryTransition)

/-- The outbox after a call and the claims it made; one that raises is rolled back. -/
def step (o : EvidenceOutbox δ) : Op δ → List (ClaimedOutboxMessage δ) × EvidenceOutbox δ
  | .enqueue envelope => ([], ((o.enqueue envelope).toOption.map Prod.snd).getD o)
  | .publishFormalBundle envelope accepted =>
    ([], ((o.publishFormalBundle envelope accepted).toOption.map Prod.snd).getD o)
  | .claimDue now limit leaseSeconds => (o.claimDue sha256 now limit leaseSeconds).toOption.getD ([], o)
  | .complete claimToken transition => ([], o.complete claimToken transition)

/-- The outbox after some calls. -/
def run (o : EvidenceOutbox δ) (ops : List (Op δ)) : EvidenceOutbox δ :=
  ops.foldl (fun o op => (o.step sha256 op).2) o

/-- The claims of some calls, in order. -/
def claims (o : EvidenceOutbox δ) : List (Op δ) → List (ClaimedOutboxMessage δ)
  | [] => []
  | op :: ops => (o.step sha256 op).1 ++ claims (o.step sha256 op).2 ops

end Claims

end EvidenceOutbox

end TraderAssist
