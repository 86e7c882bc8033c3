/-
TraderAssist/Data/Types.lean

Provider candles and closed bars (`models.py`, `data.py`).

A `ClosedBar` carries what its validator checks, and the geometry that both of its makers
check: `_provider_bar` that a 5m candle opens on the 5m grid and closes with its interval,
`aggregate_closed_5m` that its members follow each other from an aligned start.  Its
`canonical_hash` is a function of the other fields and so not one of them.

Prices and volumes are the numbers that the decimals denote: they are compared by value, and
written in the canonical form, which the value determines.  A candle's `rest` is the rest of
its JSON text (other keys, the way numbers are written), which only its hash sees.
-/
import TraderAssist.Contracts.CanonicalDecimal
import TraderAssist.Kernel.Indicators
import TraderAssist.Registry.Manager

namespace TraderAssist

open Py

variable {δ : Type}

/-! ### Errors -/

/-- What the data route raises: its own errors, those of the Registry, a bar that its
validator refuses, and an interruption from outside (a failed write, a signal). -/
inductive DataRouteError
  | candleInvalid
  | candleIncomplete
  | candleGeometry
  | candleValues
  | conflictingBar
  | gap
  | notAuthorized
  | aggregationInterval
  | aggregationInput
  | aggregationMarkets
  | aggregationGap
  | aggregationAlignment
  | staleCandidate
  | observationGap
  | confirmationInexact
  | barInvalid
  | registry (err : RegistryError)
  | interrupted
deriving DecidableEq

/-! ### Intervals -/

namespace Interval

/-- The 5m bars of a bar. -/
def sources : Interval → ℕ
  | m5 => 1
  | m15 => 3
  | h1 => 12

theorem ms_eq (i : Interval) : i.ms = i.sources * fiveMinutesMs := by
  cases i <;> rfl

theorem sources_pos (i : Interval) : 0 < i.sources := by
  cases i <;> decide

end Interval

/-! ### Candles -/

/-- Open, high, low, close and volume. -/
structure BarValues where
  open_ : ℚ
  high : ℚ
  low : ℚ
  close : ℚ
  volume : ℚ
deriving DecidableEq

/-- The numbers a decimal field takes: those whose canonical text is within the bounds. -/
def wireDecimal (x : ℚ) : Bool :=
  match Decimal.ofRat? x with
  | none => false
  | some d => boundFailures (analyzeDecimalShape d) = []

/-- The field bounds and the range check of `validate_bar`. -/
def BarValues.Valid (v : BarValues) : Prop :=
  (0 < v.open_ ∧ 0 < v.high ∧ 0 < v.low ∧ 0 < v.close ∧ 0 ≤ v.volume)
    ∧ (wireDecimal v.open_ ∧ wireDecimal v.high ∧ wireDecimal v.low ∧ wireDecimal v.close
      ∧ wireDecimal v.volume)
    ∧ max v.open_ (max v.close v.low) ≤ v.high ∧ v.low ≤ min v.open_ (min v.close v.high)

instance (v : BarValues) : Decidable v.Valid :=
  inferInstanceAs (Decidable (_ ∧ _ ∧ _ ∧ _))

/-- A provider candle with its nine keys; the values are missing where one of them is no
finite decimal. -/
structure Candle where
  interval : Text
  coin : Text
  openMs : ℤ
  closeMs : ℤ
  values : Option BarValues
  rest : Text := []
deriving DecidableEq

/-- An object of a snapshot: a candle, a mapping without one of the keys or with a time that
is no integer, or something else. -/
inductive Payload
  | candle (c : Candle)
  | incomplete (time : Option ℤ) (raw : Text)
  | irregular (time : Option ℤ) (raw : Text)
  | other (raw : Text)
deriving DecidableEq

namespace Payload

/-- `item.get("t")`. -/
def time? : Payload → Option ℤ
  | candle c => some c.openMs
  | incomplete time _ | irregular time _ => time
  | other _ => none

/-- The key by which a snapshot is sorted. -/
def sortKey (p : Payload) : ℤ := p.time?.getD (-1)

end Payload

/-! ### Closed bars -/

/-- What the data route hashes: a payload, the fields of a bar, the sources of an aggregate. -/
inductive EvidencePreimage (δ : Type)
  | payload (p : Payload)
  | bar (marketId : Text) (interval : Interval) (openTimeMs closeTimeMs : ℕ) (values : BarValues)
      (sourceId : Text) (provenanceHash : δ) (receivedAt : Datetime)
  | sources (canonicalHashes : List δ) (interval : Interval)
deriving DecidableEq

structure ClosedBar (δ : Type) where
  marketId : Text
  interval : Interval
  openTimeMs : ℕ
  closeTimeMs : ℕ
  values : BarValues
  sourceId : Text
  provenanceHash : δ
  receivedAt : Datetime
  aligned : openTimeMs % interval.ms = 0
  closes : closeTimeMs + 1 = openTimeMs + interval.ms
  valid : values.Valid
deriving DecidableEq

namespace ClosedBar

/-- `ClosedBar.create`, or nothing where the validator raises. -/
def create? (marketId : Text) (interval : Interval) (openTimeMs closeTimeMs : ℕ) (values : BarValues)
    (sourceId : Text) (provenanceHash : δ) (receivedAt : Datetime) : Option (ClosedBar δ) :=
  if h : openTimeMs % interval.ms = 0 ∧ closeTimeMs + 1 = openTimeMs + interval.ms ∧ values.Valid then
    some ⟨marketId, interval, openTimeMs, closeTimeMs, values, sourceId, provenanceHash, receivedAt,
      h.1, h.2.1, h.2.2⟩
  else none

def canonicalHash (sha256 : EvidencePreimage δ → δ) (b : ClosedBar δ) : δ :=
  sha256 (.bar b.marketId b.interval b.openTimeMs b.closeTimeMs b.values b.sourceId b.provenanceHash
    b.receivedAt)

/-- The primary key of the table. -/
def key (b : ClosedBar δ) : Text × Interval × ℕ := (b.marketId, b.interval, b.openTimeMs)

/-- `_same_candle_contents`. -/
def SameCandleContents (left right : ClosedBar δ) : Prop :=
  left.key = right.key ∧ left.closeTimeMs = right.closeTimeMs ∧ left.values = right.values

instance (left right : ClosedBar δ) : Decidable (SameCandleContents left right) :=
  inferInstanceAs (Decidable (_ ∧ _))

/-- Bars with one hash have one candle. -/
theorem contents_of_hash {sha256 : EvidencePreimage δ → δ} (hsha : Function.Injective sha256)
    {a b : ClosedBar δ} (h : a.canonicalHash sha256 = b.canonicalHash sha256) : SameCandleContents a b := by
  injection hsha h with hmkt hiv hopen hcl hvals
  exact ⟨by rw [key, key, hmkt, hiv, hopen], hcl, hvals⟩

end ClosedBar

/-! ### Provider bars -/

/-- `_provider_bar`.  There is no time where the datetime has no zone. -/
def providerBar (sha256 : EvidencePreimage δ → δ) (market : RegistryMarket) (payload : Payload)
    (receivedAt : Option Datetime) (sourceId : Text) : Except DataRouteError (ClosedBar δ) :=
  match receivedAt, payload with
  | none, _ => .error .candleInvalid
  | some _, .other _ => .error .candleInvalid
  | some _, .incomplete _ _ => .error .candleIncomplete
  | some _, .irregular _ _ => .error .candleGeometry
  | some receivedAt, .candle c =>
    if c.interval ≠ Interval.m5.value ∨ c.coin ≠ market.identity.coin ∨ c.openMs < 0
        ∨ c.openMs % fiveMinutesMs ≠ 0 ∨ c.closeMs ≠ c.openMs + fiveMinutesMs - 1 then
      .error .candleGeometry
    else
      match c.values.bind fun values => ClosedBar.create? market.marketId .m5 c.openMs.toNat
          c.closeMs.toNat values sourceId (sha256 (.payload payload)) receivedAt with
      | none => .error .candleValues
      | some bar => .ok bar

/-! ### Aggregates -/

/-- The values of an aggregate: first open, highest high, lowest low, last close, sum of the
volumes. -/
def mergedValues (first : ClosedBar δ) (rest : List (ClosedBar δ)) : BarValues where
  open_ := first.values.open_
  high := rest.foldl (fun high b => max high b.values.high) first.values.high
  low := rest.foldl (fun low b => min low b.values.low) first.values.low
  close := (rest.getLast?.getD first).values.close
  volume := csum ((first :: rest).map fun b => b.values.volume)

/-- `aggregate_closed_5m`; the minutes are those of the interval. -/
def aggregateClosed5m (sha256 : EvidencePreimage δ → δ) (candles : List (ClosedBar δ))
    (interval : Interval) : Except DataRouteError (ClosedBar δ) := do
  require (interval ≠ .m5) .aggregationInterval
  match candles with
  | [] => .error .aggregationInput
  | first :: rest =>
    let last := rest.getLast?.getD first
    require (candles.length = interval.sources ∧ ∀ b ∈ candles, b.interval = .m5) .aggregationInput
    require (∀ b ∈ rest, b.marketId = first.marketId) .aggregationMarkets
    require (candles.IsChain fun left right => right.openTimeMs = left.openTimeMs + fiveMinutesMs)
      .aggregationGap
    require (first.openTimeMs % interval.ms = 0) .aggregationAlignment
    match ClosedBar.create? first.marketId interval first.openTimeMs last.closeTimeMs
        (mergedValues first rest) "local-5m-causal-aggregation".toList
        (sha256 (.sources (candles.map (ClosedBar.canonicalHash sha256)) interval)) last.receivedAt with
    | none => .error .barInvalid
    | some bar => .ok bar

/-! ### Hashes as terms -/

/-- Hashes that are what was hashed: a hash without collisions, which evaluates. -/
inductive EvidenceTerm
  | content (version : RegistryVersion)
  | payload (p : Payload)
  | bar (marketId : Text) (interval : Interval) (openTimeMs closeTimeMs : ℕ) (values : BarValues)
      (sourceId : Text) (provenanceHash : EvidenceTerm) (receivedAt : Datetime)
  | noSource
  | source (canonicalHash others : EvidenceTerm)
  | sources (canonicalHashes : EvidenceTerm) (interval : Interval)
deriving DecidableEq

namespace EvidenceTerm

def ofSources : List EvidenceTerm → EvidenceTerm
  | [] => noSource
  | hash :: hashes => source hash (ofSources hashes)

def sha256 : EvidencePreimage EvidenceTerm → EvidenceTerm
  | .payload p => payload p
  | .bar marketId interval openTimeMs closeTimeMs values sourceId provenanceHash receivedAt =>
    bar marketId interval openTimeMs closeTimeMs values sourceId provenanceHash receivedAt
  | .sources canonicalHashes interval => sources (ofSources canonicalHashes) interval

theorem ofSources_injective : Function.Injective ofSources := by
  intro a
  induction a with
  | nil =>
    rintro (- | ⟨hash, hashes⟩) h
    · rfl
    · cases h
  | cons hash hashes ih =>
    rintro (- | ⟨hash', hashes'⟩) h
    · cases h
    · injection h with hhead htail
      rw [hhead, ih htail]

theorem sha256_injective : Function.Injective sha256 := by
  rintro (p | ⟨m, i, o, c, v, src, prov, r⟩ | ⟨hs, i⟩) (p' | ⟨m', i', o', c', v', src', prov', r'⟩ | ⟨hs', i'⟩) h
  · injection h with hp
    rw [hp]
  · cases h
  · cases h
  · cases h
  · injection h with h₁ h₂ h₃ h₄ h₅ h₆ h₇ h₈
    rw [h₁, h₂, h₃, h₄, h₅, h₆, h₇, h₈]
  · cases h
  · cases h
  · cases h
  · injection h with hhashes hiv
    rw [ofSources_injective hhashes, hiv]

/-- A Registry whose content hashes are terms. -/
def registryRoot : RegistryRoot EvidenceTerm := sampleRegistry content

end EvidenceTerm

end TraderAssist
