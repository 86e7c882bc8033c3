/-
TraderAssist/Continuation/Checkpoint.lean

The checkpoint of a continuation: `_continuation_payload` and
`_continuation_from_payload` of `integration.py`.

JSON keeps texts, numbers, flags, enumerations and ids as they are; what a
checkpoint can change are decimals.  Bars and events are written as canonical
strings, ATR values and pivots with `format(..., 'f')`, and all of them are read
with `Decimal(...)`.  A payload is the tuple of the written fields, in the order
of the record; the keys, the version tag and the history commitments are left
out.
-/
import TraderAssist.Continuation.State
import TraderAssist.Contracts.CanonicalDecimal
import TraderAssist.Lib.Codec

namespace TraderAssist

open Py

variable {δ : Type}

/-- What writing or reading a checkpoint can raise. -/
inductive CheckpointError
  | decimalBounds (failures : List BoundFailure)
  | notDecimal
  | evidence (field : Text)
  | kernel (e : KernelError)
  | marketIdentity
  | bounds
deriving DecidableEq, Repr

/-! ### Decimals -/

/-- `_as_decimal`. -/
def asDecimal (field t : Text) : Except CheckpointError Decimal :=
  match Decimal.parse? t with
  | some d => .ok d
  | none => .error (.evidence field)

def canonicalText (d : Decimal) : Except CheckpointError Text :=
  match decimalToCanonicalString d with
  | .ok t => .ok t
  | .error failures => .error (.decimalBounds failures)

/-- A decimal of a bar, with its representation. -/
def decimalCodec (field : Text) : Codec CheckpointError Decimal Text :=
  ⟨canonicalText, asDecimal field⟩

/-- A representation to write for a derived number.  The source writes the one it
has; what is read back denotes the same number in any case. -/
def representationOf (x : ℚ) : Except CheckpointError Decimal :=
  match Decimal.ofRat? x with
  | some d => .ok d
  | none => .error .notDecimal  -- not reached: the numbers of the source are decimals

/-- A derived number in a canonical dataclass. -/
def numberCodec (field : Text) : Codec CheckpointError ℚ Text where
  encode x := representationOf x >>= canonicalText
  decode t := Decimal.toRat <$> asDecimal field t

/-- A derived number written by `_decimal`. -/
def formattedCodec (field : Text) : Codec CheckpointError ℚ Text where
  encode x := Decimal.formatF <$> representationOf x
  decode t := Decimal.toRat <$> asDecimal field t

/-! ### Bars -/

abbrev BarPayload := Text × Interval × ℕ × ℕ × Text × Text × Text × Text × Text × Text

/-- A checking constructor of the kernel, called by the reader. -/
def checked {α : Type} : Except KernelError α → Except CheckpointError α
  | .ok a => .ok a
  | .error e => .error (.kernel e)

/-- `_canonical_dataclass` of a bar, and `_bar_from_payload`. -/
def barCodec : Codec CheckpointError Bar BarPayload :=
  (Codec.keep.prod <| Codec.keep.prod <| Codec.keep.prod <| Codec.keep.prod <|
    (decimalCodec "bar open".toList).prod <| (decimalCodec "bar high".toList).prod <|
    (decimalCodec "bar low".toList).prod <| (decimalCodec "bar close".toList).prod <|
    (decimalCodec "bar volume".toList).prod Codec.keep).record
    (fun b => (b.marketId, b.interval, b.openTimeMs, b.closeTimeMs, b.openRepr, b.highRepr,
      b.lowRepr, b.closeRepr, b.volumeRepr, b.sourceIdentity))
    fun (marketId, interval, openTimeMs, closeTimeMs, o, h, l, c, v, sourceIdentity) =>
      checked (Bar.make marketId interval openTimeMs closeTimeMs o h l c v sourceIdentity)

/-! ### Events -/

abbrev ZonePayload (δ : Type) :=
  δ × Text × ZoneType × Text × Text × Text × Text × ZoneQuality × ℕ × ℕ × List δ × Bool × Bool

/-- `_canonical_dataclass` of a zone, and `_zone_from_payload`. -/
def zoneCodec : Codec CheckpointError (ZoneSnapshot δ) (ZonePayload δ) :=
  (Codec.keep.prod <| Codec.keep.prod <| Codec.keep.prod <|
    (numberCodec "zone center".toList).prod <| (numberCodec "zone low".toList).prod <|
    (numberCodec "zone high".toList).prod <| (numberCodec "zone half_width".toList).prod <|
    Codec.keep.prod <| Codec.keep.prod <| Codec.keep.prod <| Codec.keep.prod <|
    Codec.keep.prod Codec.keep).record
    (fun z => (z.zoneId, z.marketId, z.zoneType, z.center, z.low, z.high, z.halfWidth, z.quality,
      z.reactionCount, z.latestReactionBarIndex, z.memberReactionIds, z.activeForNewEvent,
      z.suppressed))
    fun (zoneId, marketId, zoneType, center, low, high, halfWidth, quality, reactionCount,
        latestReactionBarIndex, memberReactionIds, activeForNewEvent, suppressed) => do
      let z ← checked (ZoneSnapshot.make zoneId marketId zoneType center low high halfWidth quality
        reactionCount latestReactionBarIndex memberReactionIds activeForNewEvent)
      pure { z with suppressed := suppressed }

abbrev TargetPayload (δ : Type) := TargetKind × Option Text × Option δ × List (ZonePayload δ)

/-- A target reference, and `_target_from_payload`. -/
def targetCodec : Codec CheckpointError (TargetReference δ) (TargetPayload δ) :=
  (Codec.keep.prod <| (numberCodec "target".toList).option.prod <| Codec.keep.prod <|
    zoneCodec.list).record
    (fun t => (t.kind, t.price, t.zoneId, t.frozenDirectionalZones))
    fun (kind, price, zoneId, frozenDirectionalZones) =>
      .ok ⟨kind, price, zoneId, frozenDirectionalZones⟩

/-- `_optional_payload_decimal`. -/
def priceCodec (key : Text) : Codec CheckpointError (Option ℚ) (Option Text) :=
  (numberCodec key).option

/-- The fields of an event, runs of fields that are kept taken together. -/
abbrev EventFields (δ ζ β ν o τ : Type) :=
  (δ × Text × SetupFamily × Side × EventStatus × Transition) × ζ × β × β × ν × ν
    × (HtfRelation × Option ScannerLinkage × Option (BreakoutLinkage δ))
    × o × o × o × o × o × o × o × o × o × o × Bool × o × o
    × (Option RetestType × Option ℕ × Option SetupMode) × o × o × o × o × Option τ

abbrev EventPayload (δ : Type) :=
  EventFields δ (ZonePayload δ) BarPayload Text (Option Text) (TargetPayload δ)

def eventFields (e : MarketEvent δ) :
    EventFields δ (ZoneSnapshot δ) Bar ℚ (Option ℚ) (TargetReference δ) :=
  ((e.marketEventId, e.marketId, e.setupFamily, e.side, e.status, e.transition), e.zone,
    e.createdBar, e.latestBar, e.a5Event, e.m20Event,
    (e.htfRelation, e.scannerLinkage, e.breakoutLinkage), e.reclaimCandleHigh, e.reclaimCandleLow,
    e.sweepExtreme, e.initialBreakoutOpen, e.initialBreakoutHigh, e.initialBreakoutLow,
    e.initialBreakoutClose, e.previousClose, e.previousHigh, e.previousLow, e.pullbackStarted,
    e.impulseExtreme, e.pullbackExtreme, (e.retestType, e.retestSeenBarTimeMs, e.formalMode),
    e.idealEntryLow, e.idealEntryHigh, e.chaseLimit, e.structuralStop, e.targetReference)

def eventOfFields :
    EventFields δ (ZoneSnapshot δ) Bar ℚ (Option ℚ) (TargetReference δ) → MarketEvent δ :=
  fun ((marketEventId, marketId, setupFamily, side, status, transition), zone, createdBar,
      latestBar, a5Event, m20Event, (htfRelation, scannerLinkage, breakoutLinkage),
      reclaimCandleHigh, reclaimCandleLow, sweepExtreme, initialBreakoutOpen, initialBreakoutHigh,
      initialBreakoutLow, initialBreakoutClose, previousClose, previousHigh, previousLow,
      pullbackStarted, impulseExtreme, pullbackExtreme,
      (retestType, retestSeenBarTimeMs, formalMode), idealEntryLow, idealEntryHigh, chaseLimit,
      structuralStop, targetReference) =>
    { marketEventId, marketId, setupFamily, side, status, transition, zone, createdBar, latestBar,
      a5Event, m20Event, htfRelation, scannerLinkage, breakoutLinkage, reclaimCandleHigh,
      reclaimCandleLow, sweepExtreme, initialBreakoutOpen, initialBreakoutHigh, initialBreakoutLow,
      initialBreakoutClose, previousClose, previousHigh, previousLow, pullbackStarted,
      impulseExtreme, pullbackExtreme, retestType, retestSeenBarTimeMs, formalMode, idealEntryLow,
      idealEntryHigh, chaseLimit, structuralStop, targetReference }

/-- `_canonical_dataclass` of an event, and `_market_event_from_payload`. -/
def eventCodec : Codec CheckpointError (MarketEvent δ) (EventPayload δ) :=
  (Codec.keep.prod <| zoneCodec.prod <| barCodec.prod <| barCodec.prod <|
    (numberCodec "a5_event".toList).prod <| (numberCodec "m20_event".toList).prod <|
    Codec.keep.prod <| (priceCodec "reclaim_candle_high".toList).prod <|
    (priceCodec "reclaim_candle_low".toList).prod <| (priceCodec "sweep_extreme".toList).prod <|
    (priceCodec "initial_breakout_open".toList).prod <|
    (priceCodec "initial_breakout_high".toList).prod <|
    (priceCodec "initial_breakout_low".toList).prod <|
    (priceCodec "initial_breakout_close".toList).prod <|
    (priceCodec "previous_close".toList).prod <| (priceCodec "previous_high".toList).prod <|
    (priceCodec "previous_low".toList).prod <| Codec.keep.prod <|
    (priceCodec "impulse_extreme".toList).prod <| (priceCodec "pullback_extreme".toList).prod <|
    Codec.keep.prod <| (priceCodec "ideal_entry_low".toList).prod <|
    (priceCodec "ideal_entry_high".toList).prod <| (priceCodec "chase_limit".toList).prod <|
    (priceCodec "structural_stop".toList).prod targetCodec.option).record
    eventFields fun fields => .ok (eventOfFields fields)

/-! ### The state -/

abbrev AtrPayload := ℕ × Option Text × Text × Option Text

/-- `_atr_payload` and `_atr_from_payload`. -/
def atrCodec : Codec CheckpointError RollingAtr AtrPayload :=
  (Codec.keep.prod <| (formattedCodec "ATR previous_close".toList).option.prod <|
    (formattedCodec "ATR seed_sum".toList).prod (formattedCodec "ATR value".toList).option).record
    (fun a => (a.barCount, a.previousClose, a.seedSum, a.value))
    fun (barCount, previousClose, seedSum, value) => .ok ⟨barCount, previousClose, seedSum, value⟩

/-- The market id, which the reader checks first. -/
def marketCodec : Codec CheckpointError Text Text :=
  ⟨.ok, fun marketId => if marketId = [] then .error .marketIdentity else .ok marketId⟩

abbrev ContinuationPayload (δ : Type) :=
  Text × List BarPayload × List BarPayload × List (Option Text) × List BarPayload
    × AtrPayload × AtrPayload × AtrPayload × (ℕ × ℕ × ℕ) × List Text × List Text
    × List (EventPayload δ) × Option ℕ

/-- `_continuation_payload` and `_continuation_from_payload`. -/
def continuationCodec :
    Codec CheckpointError (IncrementalStrategyState δ) (ContinuationPayload δ) :=
  (marketCodec.prod <| barCodec.list.prod <| barCodec.list.prod <|
    (formattedCodec "A15 continuation".toList).option.list.prod <| barCodec.list.prod <|
    atrCodec.prod <| atrCodec.prod <| atrCodec.prod <| Codec.keep.prod <|
    (formattedCodec "1h pivot high".toList).list.prod <|
    (formattedCodec "1h pivot low".toList).list.prod <| eventCodec.list.prod Codec.keep).record
    (fun s => (s.marketId, s.bars5m, s.bars15m, s.atr15mValues, s.bars1h, s.atr5m, s.atr15m,
      s.atr1h, (s.total5m, s.total15m, s.total1h), s.pivotHighs1h, s.pivotLows1h, s.ledger,
      s.lastSourceOpenTimeMs))
    fun (marketId, bars5m, bars15m, atr15mValues, bars1h, atr5m, atr15m, atr1h,
        (total5m, total15m, total1h), pivotHighs1h, pivotLows1h, ledger, lastSourceOpenTimeMs) =>
      if 21 < bars5m.length ∨ 98 < bars15m.length ∨ 10 < bars1h.length
          ∨ atr15mValues.length ≠ bars15m.length then .error .bounds
      else .ok
        { marketId, bars5m, bars15m, atr15mValues, bars1h, atr5m, atr15m, atr1h, total5m, total15m,
          total1h, pivotHighs1h, pivotLows1h, ledger, lastSourceOpenTimeMs }

/-- The state after a restart from its checkpoint. -/
def restored (s : IncrementalStrategyState δ) :
    Except CheckpointError (IncrementalStrategyState δ) :=
  continuationCodec.roundTrip s

/-! ### What is restored -/

theorem asDecimal_of_parse {field t : Text} {d : Decimal} (h : Decimal.parse? t = some d) :
    asDecimal field t = .ok d := by
  rw [asDecimal, h]

theorem decimalCodec_restores (field : Text) (d : Decimal) :
    (decimalCodec field).Restores d (canonical d) := by
  intro t h
  refine asDecimal_of_parse (parse_canonicalString ?_)
  simp only [decimalCodec, canonicalText] at h
  split at h
  · rename_i t' ht
    cases h
    exact ht
  · cases h

theorem representationOf_toRat {x : ℚ} {d : Decimal} (h : representationOf x = .ok d) : d.toRat = x := by
  unfold representationOf at h
  split at h
  · rename_i d' hd
    cases h
    exact Decimal.ofRat?_toRat hd
  · cases h

theorem numberCodec_restores (field : Text) (x : ℚ) : (numberCodec field).Restores x x := by
  intro t h
  obtain ⟨d, hd, h⟩ := of_bind h
  have hread : asDecimal field t = .ok (canonical d) := decimalCodec_restores field d t h
  simp only [numberCodec, hread, Functor.map, Except.map, canonical_toRat, representationOf_toRat hd]

theorem formattedCodec_restores (field : Text) (x : ℚ) : (formattedCodec field).Restores x x := by
  intro t h
  simp only [formattedCodec, Functor.map, Except.map] at h
  split at h
  · cases h
  · rename_i d hd
    cases h
    have hread : asDecimal field d.formatF = .ok d.plain := asDecimal_of_parse (Decimal.parse_formatF d)
    simp only [formattedCodec, hread, Functor.map, Except.map, Decimal.plain_toRat,
      representationOf_toRat hd]

theorem priceCodec_restores (key : Text) (o : Option ℚ) : (priceCodec key).Restores o o :=
  .option_self (numberCodec_restores key) o

/-- The bar with canonical decimals. -/
def Bar.canonical (b : Bar) : Bar where
  marketId := b.marketId
  interval := b.interval
  openTimeMs := b.openTimeMs
  closeTimeMs := b.closeTimeMs
  openRepr := TraderAssist.canonical b.openRepr
  highRepr := TraderAssist.canonical b.highRepr
  lowRepr := TraderAssist.canonical b.lowRepr
  closeRepr := TraderAssist.canonical b.closeRepr
  volumeRepr := TraderAssist.canonical b.volumeRepr
  sourceIdentity := b.sourceIdentity
  marketId_ne := b.marketId_ne
  times := b.times
  open_pos := by rw [canonical_toRat]; exact b.open_pos
  high_pos := by rw [canonical_toRat]; exact b.high_pos
  low_pos := by rw [canonical_toRat]; exact b.low_pos
  close_pos := by rw [canonical_toRat]; exact b.close_pos
  volume_nonneg := by rw [canonical_toRat]; exact b.volume_nonneg
  open_le_high := by simp only [canonical_toRat]; exact b.open_le_high
  close_le_high := by simp only [canonical_toRat]; exact b.close_le_high
  low_le_open := by simp only [canonical_toRat]; exact b.low_le_open
  low_le_close := by simp only [canonical_toRat]; exact b.low_le_close

theorem Bar.make_self (b : Bar) : Bar.make b.marketId b.interval b.openTimeMs b.closeTimeMs
    b.openRepr b.highRepr b.lowRepr b.closeRepr b.volumeRepr b.sourceIdentity = .ok b := by
  unfold Bar.make
  rw [dif_pos b.marketId_ne, dif_pos b.times,
    dif_pos ⟨b.open_pos, b.high_pos, b.low_pos, b.close_pos⟩, dif_pos b.volume_nonneg,
    dif_pos ⟨⟨b.open_le_high, b.close_le_high⟩, b.low_le_open, b.low_le_close⟩]

theorem barCodec_restores (b : Bar) : barCodec.Restores b b.canonical := by
  refine .record (.prod (.keep _) <| .prod (.keep _) <| .prod (.keep _) <| .prod (.keep _) <|
    .prod (decimalCodec_restores _ _) <| .prod (decimalCodec_restores _ _) <|
    .prod (decimalCodec_restores _ _) <| .prod (decimalCodec_restores _ _) <|
    .prod (decimalCodec_restores _ _) (.keep _)) ?_
  exact congrArg checked b.canonical.make_self

theorem zoneCodec_restores (z : ZoneSnapshot δ) : zoneCodec.Restores z z := by
  refine .record (.prod (.keep _) <| .prod (.keep _) <| .prod (.keep _) <|
    .prod (numberCodec_restores _ _) <| .prod (numberCodec_restores _ _) <|
    .prod (numberCodec_restores _ _) <| .prod (numberCodec_restores _ _) <| .prod (.keep _) <|
    .prod (.keep _) <| .prod (.keep _) <| .prod (.keep _) <| .prod (.keep _) (.keep _)) ?_
  unfold ZoneSnapshot.make
  dsimp only
  rw [dif_pos ⟨z.low_le_center, z.center_le_high⟩, dif_pos ⟨z.halfWidth_pos, z.count_eq⟩]
  rfl

theorem targetCodec_restores (t : TargetReference δ) : targetCodec.Restores t t :=
  .record (.prod (.keep _) <| .prod (.option_self (numberCodec_restores _) _) <|
    .prod (.keep _) (.list_self fun z _ => zoneCodec_restores z)) rfl

/-- An event comes back with canonical bars, so as it was if its bars are. -/
theorem eventCodec_restores {e : MarketEvent δ} (hc : e.createdBar.canonical = e.createdBar)
    (hl : e.latestBar.canonical = e.latestBar) : eventCodec.Restores e e := by
  have hcr : barCodec.Restores e.createdBar e.createdBar := by
    simpa [hc] using barCodec_restores e.createdBar
  have hlat : barCodec.Restores e.latestBar e.latestBar := by
    simpa [hl] using barCodec_restores e.latestBar
  have hpr := priceCodec_restores
  exact .record (.prod (.keep _) <| .prod (zoneCodec_restores _) <| .prod hcr <|
    .prod hlat <| .prod (numberCodec_restores _ _) <| .prod (numberCodec_restores _ _) <|
    .prod (.keep _) <| .prod (hpr _ _) <| .prod (hpr _ _) <| .prod (hpr _ _) <|
    .prod (hpr _ _) <| .prod (hpr _ _) <| .prod (hpr _ _) <| .prod (hpr _ _) <|
    .prod (hpr _ _) <| .prod (hpr _ _) <| .prod (hpr _ _) <| .prod (.keep _) <|
    .prod (hpr _ _) <| .prod (hpr _ _) <| .prod (.keep _) <| .prod (hpr _ _) <|
    .prod (hpr _ _) <| .prod (hpr _ _) <| .prod (hpr _ _)
    (.option_self targetCodec_restores _)) rfl

theorem atrCodec_restores (a : RollingAtr) : atrCodec.Restores a a :=
  .record (.prod (.keep _) <| .prod (.option_self (formattedCodec_restores _) _) <|
    .prod (formattedCodec_restores _ _) (.option_self (formattedCodec_restores _) _)) rfl

/-- **What a restart changes**: the derived bars come back with canonical
decimals, everything else as it was. -/
theorem continuationCodec_restores {s : IncrementalStrategyState δ} (hmkt : s.marketId ≠ [])
    (hbars : ∀ b ∈ s.bars5m, b.canonical = b)
    (hldg : ∀ e ∈ s.ledger, e.createdBar.canonical = e.createdBar
      ∧ e.latestBar.canonical = e.latestBar)
    (h5 : s.bars5m.length ≤ 21) (h15 : s.bars15m.length ≤ 98) (h1 : s.bars1h.length ≤ 10)
    (hatr : s.atr15mValues.length = s.bars15m.length) :
    continuationCodec.Restores s { s with
      bars15m := s.bars15m.map Bar.canonical
      bars1h := s.bars1h.map Bar.canonical } := by
  have hm : marketCodec.Restores s.marketId s.marketId := by
    intro p h
    cases h
    simp only [marketCodec, if_neg hmkt]
  have hb5 : barCodec.list.Restores s.bars5m s.bars5m := .list_self fun b hb => by
    simpa [hbars b hb] using barCodec_restores b
  refine .record (.prod hm <| .prod hb5 <| .prod (.list fun b _ => barCodec_restores b) <|
    .prod (.list_self fun o _ => .option_self (formattedCodec_restores _) o) <|
    .prod (.list fun b _ => barCodec_restores b) <| .prod (atrCodec_restores _) <|
    .prod (atrCodec_restores _) <| .prod (atrCodec_restores _) <| .prod (.keep _) <|
    .prod (.list_self fun x _ => formattedCodec_restores _ x) <|
    .prod (.list_self fun x _ => formattedCodec_restores _ x) <|
    .prod (.list_self fun e he => eventCodec_restores (hldg e he).1 (hldg e he).2)
    (.keep _)) ?_
  dsimp only
  rw [if_neg]
  simp only [List.length_map]
  omega

/-- A checkpoint without a market is not read back. -/
theorem marketId_ne_of_restored {s s' : IncrementalStrategyState δ} (h : restored s = .ok s') :
    s.marketId ≠ [] := by
  intro hemp
  obtain ⟨p, hp, h⟩ := of_bind h
  obtain ⟨market, hmkt, hp⟩ := of_bind hp
  obtain ⟨rest, -, hp⟩ := of_bind hp
  cases hp
  cases hmkt
  simp only [marketCodec, hemp, if_true] at h
  cases h

end TraderAssist
