/-
TraderAssist/E4/Projection.lean

The read projection over the admission log (`multi_asset_shadow/e4_markettruth.py`).

`accept` takes one admitted event: it is run on every event that a process admits, and by the
constructor, `construct`, on the whole log.  While it replays the log it neither writes
references nor prunes; the constructor then compares what it has with the references that
earlier processes wrote, and prunes once.

Hashes and the datetime of an admission are functions of the configuration.  Left out: the
comparison of manifest and snapshot with those of the store, the formats of identifiers, and
decimals written with blanks, underscores or digits that are not ASCII.
-/
import TraderAssist.Data.Store
import TraderAssist.E4.Capture
import TraderAssist.Outcome.Types

namespace TraderAssist.E4

open Py

variable {δ : Type} [DecidableEq δ]

/-! ### Configuration -/

inductive ProjectionError
  | outsidePit
  | ordinalRegressed
  | conflictingOrdinal
  | barInterval
  | noBinding
  | metadataDiffers
  | barGeometry
  | notFinalized
  | barValues
  | barInvalid
  | conflictingBarSlot
  | conflictingProjectionSlot
  | depthLevels
  | depthLevelShape
  | depthLevel
  | depthInterior
  | depthEmpty
  | depthOrder
  | depthCrossed
  | depthTop
  | conflictingDepth
  | referenceConflict
  | lineageCorrupt
  | referenceContradicts
  | missingRetained
  | predatesEpoch
  | slotAbsent
  | registry (err : RegistryError)
  | log (err : CaptureError)
deriving DecidableEq

/-- What the projection reads of an expression of the PIT universe. -/
structure PitExpression where
  marketId : Text
  expressionId : Text
  instrumentId : Text
  providerId : Text
  dex : Text
  providerCoin : Text
  instrumentMetadataHash : Text
deriving DecidableEq

/-- What a projection is built with.  `metadataHash` and `decimals` (of sizes and of prices)
read the fields of a market that its `metadata` stands for. -/
structure TruthConfig (δ : Type) where
  expressions : List PitExpression
  runId : Text
  admissionHash : AdmittedEvent δ → δ
  payloadHash : Payload → δ
  hexText : δ → Text
  receivedAt : ℤ → Option Datetime
  sha256 : EvidencePreimage δ → δ
  metadataHash : RegistryMarket → Text
  decimals : RegistryMarket → ℤ × ℤ

inductive BarInterval
  | m1
  | m5
deriving DecidableEq

/-- `_BAR_STEP`. -/
def BarInterval.step : BarInterval → ℕ
  | m1 => oneMinuteMs
  | m5 => fiveMinutesMs

/-- `_MAX_5M` and `_MAX_1M`. -/
def maxBars : ℕ := 4096

/-- Market, interval and open time of a bar. -/
abbrev Slot := Text × BarInterval × ℕ

/-- `E4MarketBarReference`; its identity is the market with the open time. -/
structure MarketBarReference (δ : Type) where
  marketId : Text
  openTimeMs : ℕ
  registryVersion : Text
  registryContentHash : δ
  e4RunId : Text
  admissionHash : δ
  admissionOrdinal : ℕ
  sourceIdentity : δ
deriving DecidableEq

/-- `E4MarketTruthProjection`. -/
structure Projection (δ : Type) where
  store : ClosedBarStore δ := {}
  events : Dict δ (AdmittedEvent δ) := Dict.empty
  barEvents : Dict Slot (AdmittedEvent δ) := Dict.empty
  oneMinute : Dict (Text × ℕ) OneMinuteBar := Dict.empty
  depth : Dict Text (AdmittedEvent δ) := Dict.empty
  failedMarkets : List Text := []
  lastOrdinal : ℕ := 0
  lastHash : Option δ := none

/-- A projection with the references of its evidence store. -/
structure TruthState (δ : Type) where
  projection : Projection δ := {}
  references : Dict (Text × ℕ) (MarketBarReference δ) := Dict.empty

abbrev Truth (δ α : Type) := EStateM ProjectionError (TruthState δ) α

/-- Change the projection. -/
def modifyProjection (f : Projection δ → Projection δ) : Truth δ PUnit :=
  modify fun s => { s with projection := f s.projection }

/-! ### Readers -/

/-- `[-_]`. -/
def isDash (c : Char) : Bool := c = '-' || c = '_'

/-- A character of the word, whatever its case; `re.IGNORECASE` also takes the i without a dot
and the capital one with a dot for an i. -/
def sameLetter (letter c : Char) : Bool :=
  c.toUpper = letter || letter = 'I' && (c = 'ı' || c = 'İ')

/-- `MINUTE(?:[-_]|$)`. -/
def matchesMinute (t : Text) : Bool :=
  let rest := t.drop 6
  t.length ≥ 6 && (List.zipWith sameLetter "MINUTE".toList t).all id
    && (rest = [] || rest = ['\n'] || rest.head?.any isDash)

/-- `(1|5)[-_]MINUTE(?:[-_]|$)`. -/
def matchInterval? : Text → Option BarInterval
  | digit :: dash :: t =>
    if isDash dash && matchesMinute t then
      if digit = '1' then some .m1 else if digit = '5' then some .m5 else none
    else none
  | _ => none

/-- The search beyond the start of the text, where a dash must come first. -/
def searchInterval? : Text → Option BarInterval
  | [] => none
  | c :: t => ((if isDash c then matchInterval? t else none).orElse fun _ => searchInterval? t)

/-- `_BAR_TYPE.search`. -/
def barType? (context : Text) : Option BarInterval :=
  (matchInterval? context).orElse fun _ => searchInterval? context

/-- The texts of decimals that are not finite. -/
def isSpecial (t : Text) : Bool :=
  let t := (match t with | '-' :: r | '+' :: r => r | r => r).map Char.toLower
  let diagnostic := fun name : Text => name.isPrefixOf t && (t.drop name.length).all Char.isDigit
  t = "inf".toList || t = "infinity".toList || diagnostic "nan".toList || diagnostic "snan".toList

/-- `Decimal(str(value))`: nothing where it raises, and no number where it is not finite. -/
def scalarDecimal? : Scalar → Option (Option Decimal)
  | .int z => some (some ⟨z < 0, z.natAbs, 0⟩)
  | .text t =>
    match Decimal.parse? t with
    | some d => some (some d)
    | none => if isSpecial t then some none else none
  | .null | .bool _ => none

/-- `Decimal(str(payload[name]))`. -/
def Payload.decimal? (p : Payload) (name : String) : Option (Option ℚ) :=
  match p.get? name.toList with
  | some (.scalar v) => (scalarDecimal? v).map fun d => d.map Decimal.toRat
  | _ => none

/-- A level of a side: price and size. -/
abbrev Level := Decimal × Decimal

/-- The loop of `_native_levels`; `padded` after an empty level. -/
def readLevels : Bool → List (List Scalar) → Except ProjectionError (List Level)
  | _, [] => .ok []
  | padded, [price, size] :: rest =>
    match scalarDecimal? price, scalarDecimal? size with
    | some (some price), some (some size) =>
      if price.toRat < 0 ∨ size.toRat < 0 then .error .depthLevel
      else if price.toRat = 0 ∨ size.toRat = 0 then readLevels true rest
      else if padded then .error .depthInterior
      else (readLevels padded rest).map ((price, size) :: ·)
    | _, _ => .error .depthLevel
  | _, _ :: _ => .error .depthLevelShape

/-- `_native_levels`. -/
def nativeLevels (raw : Option PayloadValue) : Except ProjectionError (List Level) :=
  match raw with
  | some (.rows levels) => do
    require (levels ≠ [] ∧ levels.length ≤ 10) .depthLevels
    let parsed ← readLevels false levels
    require (parsed ≠ []) .depthEmpty
    pure parsed
  | _ => .error .depthLevels

/-- The checks of a depth snapshot. -/
def checkDepth (p : Payload) : Except ProjectionError Unit := do
  let bids ← nativeLevels (p.get? "bids".toList)
  require (bids.IsChain fun left right => right.1.toRat ≤ left.1.toRat) .depthOrder
  let asks ← nativeLevels (p.get? "asks".toList)
  require (asks.IsChain fun left right => left.1.toRat ≤ right.1.toRat) .depthOrder
  match bids.head?, asks.head? with
  | some bid, some ask => do
    require (bid.1.toRat < ask.1.toRat) .depthCrossed
    require (p.get? "bid_price".toList = some (.scalar (.text bid.1.str))
      ∧ p.get? "ask_price".toList = some (.scalar (.text ask.1.str))) .depthTop
  | _, _ => .error .depthEmpty

/-- What is read of a bar; a value is missing where it is not finite. -/
structure BarFacts where
  interval : BarInterval
  openMs : ℕ
  open_ : Option ℚ
  high : Option ℚ
  low : Option ℚ
  close : Option ℚ
  volume : Option ℚ

/-- The checks of a bar of a selected market, up to its values. -/
def barFacts (e : SourceEvent) : Except ProjectionError BarFacts := do
  match barType? e.eventContext with
  | none => .error .barInterval
  | some interval => do
    let openMs := e.tsEvent / 1000000
    require (e.tsEvent % 1000000 = 0 ∧ 0 ≤ openMs ∧ openMs % interval.step = 0
      ∧ (openMs + interval.step) * 1000000 ≤ e.tsInit) .barGeometry
    require (e.payload.get? "finalized".toList = some (.scalar (.bool true))) .notFinalized
    match e.payload.decimal? "open", e.payload.decimal? "high", e.payload.decimal? "low",
        e.payload.decimal? "close", e.payload.decimal? "volume" with
    | some open_, some high, some low, some close, some volume =>
      pure ⟨interval, openMs.toNat, open_, high, low, close, volume⟩
    | _, _, _, _, _ => .error .barValues

/-- `OneMinuteBar.create`, or nothing where it raises. -/
def BarFacts.minuteBar? (f : BarFacts) (marketId : Text) : Option OneMinuteBar :=
  match f.open_, f.high, f.low, f.close with
  | some open_, some high, some low, some close =>
    if h : f.openMs % oneMinuteMs = 0 ∧ 0 < low
        ∧ (low ≤ open_ ∧ low ≤ close ∧ open_ ≤ high ∧ close ≤ high) then
      some ⟨marketId, f.openMs, open_, high, low, close, h.1, h.2.1, h.2.2⟩
    else none
  | _, _, _, _ => none

/-! ### The in-memory store -/

namespace MemoryBarStore

/-- `put`: nothing happens for a bar with the hash of the one that is there. -/
def put (sha256 : EvidencePreimage δ → δ) (store : ClosedBarStore δ) (row : EvidenceRow δ) :
    Except ProjectionError (ClosedBarStore δ) :=
  match h : store.row? row.bar.key with
  | some prior =>
    if prior.bar.canonicalHash sha256 = row.bar.canonicalHash sha256 then .ok store
    else .error .conflictingProjectionSlot
  | none => .ok ⟨store.rows ++ [row], ClosedBarStore.nodup_snoc h⟩

/-- The row with another binding, if it has the key. -/
def reboundRow (key : Text × Interval × ℕ) (version : Text) (contentHash : δ) (row : EvidenceRow δ) :
    EvidenceRow δ :=
  if row.bar.key = key then { row with registryVersion := version, registryContentHash := contentHash }
  else row

omit [DecidableEq δ] in
@[simp] theorem reboundRow_bar (key : Text × Interval × ℕ) (version : Text) (contentHash : δ)
    (row : EvidenceRow δ) : (reboundRow key version contentHash row).bar = row.bar := by
  unfold reboundRow
  split <;> rfl

/-- `UPDATE closed_bars SET registry_version=?, registry_content_hash=?` for one bar. -/
def rebind (store : ClosedBarStore δ) (key : Text × Interval × ℕ) (version : Text) (contentHash : δ) :
    ClosedBarStore δ where
  rows := store.rows.map (reboundRow key version contentHash)
  keys_nodup := by
    rw [List.map_map, show (fun r : EvidenceRow δ => r.bar.key) ∘ reboundRow key version contentHash
      = fun r => r.bar.key from funext fun row => by simp]
    exact store.keys_nodup

/-- `DELETE FROM closed_bars WHERE market_id=? AND open_time_ms<?`. -/
def deleteBefore (store : ClosedBarStore δ) (marketId : Text) (cutoff : ℕ) : ClosedBarStore δ where
  rows := store.rows.filter fun row =>
    !(decide (row.bar.marketId = marketId) && decide (row.bar.openTimeMs < cutoff))
  keys_nodup := List.Sublist.nodup (List.filter_sublist.map _) store.keys_nodup

end MemoryBarStore

/-! ### The Registry -/

section Registry

variable (c : TruthConfig δ) (R : RegistryRoot δ)

/-- `self._expressions.get`: the last expression of a market. -/
def expression? (marketId : Text) : Option PitExpression :=
  c.expressions.findRev? fun x => x.marketId = marketId

/-- `validate_market`. -/
def validateMarket (market : RegistryMarket) : Bool :=
  (expression? c market.marketId).any fun x =>
    x.dex = market.identity.dex && x.providerCoin = market.identity.coin
      && x.instrumentMetadataHash = c.metadataHash market
      && (c.decimals market).2 = 6 - (c.decimals market).1

/-- The active version and the pending one, where there are any. -/
def selectedVersions (d : RegistryDisk δ) : Except ProjectionError (List RegistryVersion) := do
  let active ← (R.active d).mapError .registry
  let pending ← (R.pendingVersion d).mapError .registry
  pure (active.toList ++ pending.toList)

def hasMarket (marketId : Text) (v : RegistryVersion) : Bool :=
  v.markets.any fun m => m.marketId = marketId

/-- `_bound_registry`. -/
def boundRegistry (d : RegistryDisk δ) (marketId : Text) : Except ProjectionError RegistryVersion := do
  let versions ← selectedVersions R d
  match versions.find? (hasMarket marketId) with
  | none => .error .noBinding
  | some v => do
    require ((v.markets.find? fun m => m.marketId = marketId).any (validateMarket c) = true)
      .metadataDiffers
    pure v

end Registry

/-! ### Pruning -/

namespace Projection

variable (p : Projection δ)

/-- The open times of the bars of a market, in order. -/
def opens (marketId : Text) (interval : BarInterval) : List ℕ :=
  sortBy id ((p.barEvents.keys.filter fun slot =>
    decide (slot.1 = marketId ∧ slot.2.1 = interval)).map fun slot => slot.2.2)

/-- The first open time that is kept, if some are not. -/
def cutoff? (marketId : Text) (interval : BarInterval) : Option ℕ :=
  let opens := p.opens marketId interval
  if opens.length ≤ maxBars then none else opens[opens.length - maxBars]?

/-- The bars of a market before a cutoff. -/
def isStale (marketId : Text) (interval : BarInterval) (cutoff : ℕ) (slot : Slot) : Bool :=
  slot.1 = marketId && slot.2.1 = interval && slot.2.2 < cutoff

/-- One turn of the loop of `_prune`. -/
def pruneMarket (c : TruthConfig δ) (marketId : Text) (interval : BarInterval) : Projection δ :=
  match p.cutoff? marketId interval with
  | none => p
  | some cutoff =>
    let stale := p.barEvents.filter fun slot _ => isStale marketId interval cutoff slot
    { p with
      barEvents := p.barEvents.filter fun slot _ => !isStale marketId interval cutoff slot
      events := p.events.filter fun hash _ => decide (hash ∉ stale.values.map c.admissionHash)
      oneMinute := if interval = .m1 then
          p.oneMinute.filter fun key _ => !(decide (key.1 = marketId ∧ (key.1, .m1, key.2) ∈ stale.keys))
        else p.oneMinute
      store := if interval = .m5 then MemoryBarStore.deleteBefore p.store marketId cutoff else p.store }

/-- `_prune`. -/
def prune (c : TruthConfig δ) : Projection δ :=
  (p.barEvents.keys.map Prod.fst).dedup.foldl
    (fun p marketId => (p.pruneMarket c marketId .m5).pruneMarket c marketId .m1) p

/-- The 5m rows of a market, in the order of time. -/
def rows5m (marketId : Text) : List (EvidenceRow δ) :=
  sortBy (fun row => row.bar.openTimeMs) (p.store.rows.filter fun row =>
    decide (row.bar.marketId = marketId ∧ row.bar.interval = .m5))

end Projection

/-! ### Accepting an event -/

section Accept

variable (c : TruthConfig δ) (R : RegistryRoot δ) (d : RegistryDisk δ) (replaying : Bool)

/-- The event is one of the exact expression of its market. -/
def inPit (e : SourceEvent) : Bool :=
  (expression? c e.marketId).any fun x =>
    e.expressionId = x.expressionId && e.instrumentId = x.instrumentId && e.providerId = x.providerId

/-- `_validate_event`. -/
def validateEvent (p : Projection δ) (e : AdmittedEvent δ) : Except ProjectionError Unit := do
  require (inPit c e.source = true) .outsidePit
  require (p.lastOrdinal ≤ e.admissionOrdinal) .ordinalRegressed
  require (¬ (e.admissionOrdinal = p.lastOrdinal ∧ some (c.admissionHash e) ≠ p.lastHash))
    .conflictingOrdinal

/-- `_accept_depth`. -/
def acceptDepth (e : AdmittedEvent δ) : Truth δ Unit :=
  if e.outOfOrder then pure ()
  else do
    attempt (checkDepth e.source.payload)
    let s ← get
    match s.projection.depth.get? e.source.marketId with
    | none => modifyProjection fun p => { p with depth := p.depth.set e.source.marketId e }
    | some prior =>
      if e.source.tsEvent = prior.source.tsEvent ∧ e.source.payload ≠ prior.source.payload then do
        modifyProjection fun p => { p with failedMarkets := e.source.marketId :: p.failedMarkets }
        throw .conflictingDepth
      else if prior.source.tsEvent ≤ e.source.tsEvent then
        modifyProjection fun p =>
          { p with
            depth := p.depth.set e.source.marketId e
            events := p.events.erase (c.admissionHash prior) }
      else pure ()

/-- What `accept` does with a depth snapshot. -/
def acceptDepthEvent (e : AdmittedEvent δ) : Truth δ Unit := do
  onRaise (acceptDepth c e) fun s =>
    { s with projection := { s.projection with events := s.projection.events.erase (c.admissionHash e) } }
  modifyProjection fun p =>
    if p.depth.get? e.source.marketId = some e then p
    else { p with events := p.events.erase (c.admissionHash e) }

/-- `_prune`, unless the log is being replayed. -/
def pruneLive : Truth δ PUnit :=
  modifyProjection fun p => if replaying then p else p.prune c

/-- `self.store.put`. -/
def putRow (row : EvidenceRow δ) : Truth δ Unit := do
  let s ← get
  let store ← attempt (MemoryBarStore.put c.sha256 s.projection.store row)
  modifyProjection fun p => { p with store := store }

def evidenceRow (bar : ClosedBar δ) (v : RegistryVersion) (finalityIdentity : δ) : EvidenceRow δ :=
  ⟨bar, v.version, R.content v, finalityIdentity, bar.receivedAt.timestampMs⟩

/-- The 5m bar of an event, or nothing where `ClosedBar.create` raises. -/
def closedBar? (e : AdmittedEvent δ) (f : BarFacts) : Option (ClosedBar δ) :=
  match f.open_, f.high, f.low, f.close, f.volume, c.receivedAt e.admissionTs with
  | some open_, some high, some low, some close, some volume, some receivedAt =>
    ClosedBar.create? e.source.marketId .m5 f.openMs (f.openMs + fiveMinutesMs - 1)
      ⟨open_, high, low, close, volume⟩ ("e4:".toList ++ c.hexText (c.admissionHash e))
      (c.payloadHash e.source.payload) receivedAt
  | _, _, _, _, _, _ => none

/-- The reference of a 5m bar. -/
def reference (e : AdmittedEvent δ) (openMs : ℕ) (version : Text) (contentHash : δ) : MarketBarReference δ where
  marketId := e.source.marketId
  openTimeMs := openMs
  registryVersion := version
  registryContentHash := contentHash
  e4RunId := c.runId
  admissionHash := c.admissionHash e
  admissionOrdinal := e.admissionOrdinal
  sourceIdentity := e.sourceIdentity

/-- `_write_controlled` for one reference. -/
def writeReference (r : MarketBarReference δ) : Truth δ Unit := do
  let s ← get
  match s.references.get? (r.marketId, r.openTimeMs) with
  | some prior => check (prior = r) .referenceConflict
  | none => modify fun s => { s with references := s.references.set (r.marketId, r.openTimeMs) r }

/-- One turn of the aggregate loop; a window that cannot be aggregated is passed over. -/
@[irreducible] def putAggregate (v : RegistryVersion) (bar : ClosedBar δ) (interval : Interval) : Truth δ Unit := do
  let s ← get
  let window := s.projection.store.tailBars bar.marketId bar.openTimeMs interval.sources
  if interval.ms ≤ bar.openTimeMs + fiveMinutesMs
      ∧ (bar.openTimeMs + fiveMinutesMs - interval.ms) % interval.ms = 0
      ∧ window.length = interval.sources
      ∧ (window.getLast?.map ClosedBar.openTimeMs) = some bar.openTimeMs then
    match aggregateClosed5m c.sha256 window interval with
    | .error _ => pure ()
    | .ok aggregate => putRow c (evidenceRow R aggregate v aggregate.provenanceHash)
  else pure ()

section

variable (e : AdmittedEvent δ)

/-- A 5m bar with a new slot. -/
def acceptFive (f : BarFacts) : Truth δ (Option BarInterval) := do
  let v ← attempt (boundRegistry c R d e.source.marketId)
  match closedBar? c e f with
  | none => throw .barInvalid
  | some bar => do
    putRow c (evidenceRow R bar v (c.admissionHash e))
    if replaying then pure () else writeReference (reference c e f.openMs v.version (R.content v))
    putAggregate c R v bar .m15
    putAggregate c R v bar .h1
    pruneLive c replaying
    pure (if e.outOfOrder then none else some .m5)

/-- A 1m bar with a new slot. -/
def acceptMinute (f : BarFacts) : Truth δ (Option BarInterval) :=
  match f.minuteBar? e.source.marketId with
  | none => throw .barInvalid
  | some bar => do
    modifyProjection fun p => { p with oneMinute := p.oneMinute.set (e.source.marketId, f.openMs) bar }
    pruneLive c replaying
    pure (if e.outOfOrder ∨ e.continuityState ≠ .complete then none else some .m1)

/-- A bar whose facts were read. -/
def acceptSlot (f : BarFacts) : Truth δ (Option BarInterval) := do
  let slot : Slot := (e.source.marketId, f.interval, f.openMs)
  let s ← get
  match s.projection.barEvents.get? slot with
  | some prior =>
    if prior.source.payload = e.source.payload then pure none
    else do
      modifyProjection fun p => { p with failedMarkets := e.source.marketId :: p.failedMarkets }
      throw .conflictingBarSlot
  | none =>
    if f.interval = .m5 ∧ e.outOfOrder then pure none
    else do
      modifyProjection fun p => { p with barEvents := p.barEvents.set slot e }
      match f.interval with
      | .m1 => acceptMinute c replaying e f
      | .m5 => acceptFive c R d replaying e f

/-- A bar. -/
def acceptBar : Truth δ (Option BarInterval) := do
  let versions ← attempt (selectedVersions R d)
  if versions.any (hasMarket e.source.marketId) then do
    let f ← attempt (barFacts e.source)
    acceptSlot c R d replaying e f
  else pure none

/-- An event that was not accepted before. -/
def acceptNew : Truth δ (Option BarInterval) := do
  modifyProjection fun p =>
    { p with
      lastOrdinal := max p.lastOrdinal e.admissionOrdinal
      lastHash := some (c.admissionHash e) }
  match e.source.dataKind with
  | .depth10 => do
    modifyProjection fun p => { p with events := p.events.set (c.admissionHash e) e }
    acceptDepthEvent c e
    pure none
  | .bar => do
    modifyProjection fun p => { p with events := p.events.set (c.admissionHash e) e }
    acceptBar c R d replaying e
  | _ => pure none

/-- `accept`. -/
def accept : Truth δ (Option BarInterval) := do
  let s ← get
  attempt (validateEvent c s.projection e)
  if (e.admissionOrdinal = s.projection.lastOrdinal ∧ some (c.admissionHash e) = s.projection.lastHash)
      ∨ s.projection.events.has (c.admissionHash e) = true then pure none
  else acceptNew c R d replaying e

end

end Accept

/-! ### Construction -/

section Construct

variable (c : TruthConfig δ) (R : RegistryRoot δ) (d : RegistryDisk δ)

/-- One reference of `_check_retained_refs`. -/
def checkReference (r : MarketBarReference δ) : Truth δ Unit := do
  let s ← get
  match s.projection.events.get? r.admissionHash with
  | none => throw .lineageCorrupt
  | some e => do
    check (e.admissionOrdinal = r.admissionOrdinal ∧ e.sourceIdentity = r.sourceIdentity) .lineageCorrupt
    check (s.projection.barEvents.get? (r.marketId, .m5, r.openTimeMs) = some e) .referenceContradicts
    modifyProjection fun p =>
      { p with
        store := MemoryBarStore.rebind p.store (r.marketId, .m5, r.openTimeMs) r.registryVersion
          r.registryContentHash }

/-- `latest_retained_ordinal`, with a market that is not there for nothing. -/
def latestRetained? (refs : List (MarketBarReference δ)) (marketId : Text) : Option ℕ :=
  ((refs.filter fun r => decide (r.marketId = marketId)).map MarketBarReference.admissionOrdinal).max?

/-- `any(self.registry.history.glob("*.json"))`. -/
def hasHistory : Bool := (d.entries R.history).any fun name => ".json".toList.isSuffixOf name

/-- The reference that a 5m bar still lacks. -/
def missingReference (refs : List (MarketBarReference δ)) (store : ClosedBarStore δ)
    (entry : Slot × AdmittedEvent δ) : Except ProjectionError (Option (MarketBarReference δ)) :=
  let (marketId, interval, openMs) := entry.1
  if interval ≠ .m5 ∨ ∃ r ∈ refs, r.marketId = marketId ∧ r.openTimeMs = openMs then .ok none
  else do
    let latest := latestRetained? refs marketId
    require (latest.getD 0 < entry.2.admissionOrdinal) .missingRetained
    require (¬ (latest = none ∧ hasHistory R d = true)) .predatesEpoch
    match store.row? (marketId, .m5, openMs) with
    | none => .error .slotAbsent
    | some row =>
      pure (some (reference c entry.2 openMs row.registryVersion row.registryContentHash))

/-- `_check_retained_refs`. -/
def checkRetainedRefs : Truth δ Unit := do
  let s ← get
  s.references.values.forM checkReference
  let s ← get
  let missing ← attempt (s.projection.barEvents.entries.mapM
    (missingReference c R d s.references.values s.projection.store))
  transaction ((missing.filterMap id).forM writeReference)

/-- The constructor, from an empty projection. -/
def construct (store : EvidenceStore δ) : Truth δ Unit := do
  modifyProjection fun _ => {}
  let events ← attempt (store.loadAdmissions.mapError .log)
  events.forM fun e => do
    let _ ← accept c R d true e
    pure ()
  checkRetainedRefs c R d
  modifyProjection fun p => p.prune c

end Construct

end TraderAssist.E4
