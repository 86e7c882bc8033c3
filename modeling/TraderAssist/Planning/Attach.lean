/-
TraderAssist/Planning/Attach.lean

From a Formal decision to the view that the outcome engine attaches.

`process_formal_decision` publishes a plan and then builds the `FormalShadowView` of it, as
`restore_engine` does again on every restart.  The view has conditions of its own.  What the
planner guarantees of them, and what it does not: the bounds of the zone and the event's
ATR are not looked at before the publication, and the targets are one and two risks away
from the entry only as far as the decimal context can tell such prices apart.
-/
import TraderAssist.Lib.Rounding
import TraderAssist.Outcome.Types
import TraderAssist.Planning.Plan

namespace TraderAssist

open Py

variable {δ : Type}

/-! ### The structural target -/

inductive TargetResolutionError
  | noReference
  | noFrozenZones
  | noResolver
  | incompleteGeometry
  | longNotFavourable
  | shortNotFavourable
deriving DecidableEq, Repr

namespace StrategyDecision

/-- The price that the target reference names. -/
def targetPrice (d : StrategyDecision δ) : Except TargetResolutionError ℚ :=
  match d.targetReference with
  | none => .error .noReference
  | some reference =>
    match reference.price, reference.kind with
    | some price, _ => .ok price
    | none, .directionalZoneSetFrozen =>
      match reference.frozenDirectionalZones with
      | [] => .error .noFrozenZones
      | first :: _ => .ok (d.side.pick first.low first.high)
    | none, .openSpaceReference =>
      .ok (d.side.pick (cadd d.zoneSnapshot.high d.a5Event) (csub d.zoneSnapshot.low d.a5Event))
    | none, _ => .error .noResolver

/-- `resolve_structural_target`. -/
def resolveStructuralTarget (d : StrategyDecision δ) : Except TargetResolutionError ℚ := do
  let target ← d.targetPrice
  match d.chaseLimit, d.structuralStop with
  | some chase, some stop =>
    require (0 < target ∧ 0 < chase ∧ 0 < stop) .incompleteGeometry
    match d.side with
    | .long => require (stop < chase ∧ chase < target) .longNotFavourable
    | .short => require (target < chase ∧ chase < stop) .shortNotFavourable
    pure target
  | _, _ => .error .incompleteGeometry

end StrategyDecision

/-- What `process_formal_decision` reads of the market. -/
structure PlanMarket where
  priceMaxDecimals : ℤ := 6
  priceMaxSignificantFigures : ℤ := 5
  sizeDecimals : ℤ := 5
  maxLeverage : Option ℚ := none

/-- The inputs of the plan of a decision; `None` where a planning term is missing. -/
def planInputs? (d : StrategyDecision δ) (target : ℚ) (market : PlanMarket)
    (liquidity : LiquidityAssessment) (costs : CostModel) (nowMs : ℤ) : Option PlanInputs := do
  let idealLow ← d.idealEntryLow
  let idealHigh ← d.idealEntryHigh
  let chase ← d.chaseLimit
  let stop ← d.structuralStop
  pure
    { marketId := d.marketId
      side := d.side
      idealEntryLow := idealLow
      idealEntryHigh := idealHigh
      chaseLimit := chase
      structuralStop := stop
      structuralTarget := target
      liquidity := liquidity
      costModel := costs
      nowMs := nowMs
      priceMaxDecimals := market.priceMaxDecimals
      priceMaxSignificantFigures := market.priceMaxSignificantFigures
      sizeDecimals := market.sizeDecimals
      maxLeverage := market.maxLeverage }

/-! ### The view -/

/-- The characters that `strip` takes away. -/
def isSpace (c : Char) : Bool :=
  let n := c.toNat
  (9 ≤ n && n ≤ 13) || (28 ≤ n && n ≤ 32) || n = 0x85 || n = 0xa0 || n = 0x1680 ||
  (0x2000 ≤ n && n ≤ 0x200a) || n = 0x2028 || n = 0x2029 || n = 0x202f || n = 0x205f || n = 0x3000

/-- `_identifier`: not empty, and unchanged by `strip`. -/
def exactIdentifier (t : Text) : Bool := !t.isEmpty && !t.head?.any isSpace && !t.getLast?.any isSpace

inductive ViewError
  | identifier (field : String)
  | startBoundary
  | notPositive (field : String)
  | zoneTogether
  | zoneOrder
  | sideGeometry
deriving DecidableEq, Repr

instance decidablePick (side : Side) (p q : Prop) [Decidable p] [Decidable q] :
    Decidable (side.pick p q) :=
  match side with
  | .long => inferInstanceAs (Decidable p)
  | .short => inferInstanceAs (Decidable q)

/-- The checks of `FormalShadowView.__post_init__`, in their order. -/
def checkView (shadowOrderId marketId : Text) (side : Side) (outcomeStartMs : ℕ)
    (plannedEntry stop tp1 atr : ℚ) (tp2 zoneLow zoneHigh : Option ℚ) : Except ViewError Unit := do
  require (exactIdentifier shadowOrderId) (.identifier "shadow_order_id")
  require (exactIdentifier marketId) (.identifier "market_id")
  require (outcomeStartMs % oneMinuteMs = 0) .startBoundary
  require (0 < plannedEntry) (.notPositive "planned_entry")
  require (0 < stop) (.notPositive "stop")
  require (0 < tp1) (.notPositive "tp1")
  require (0 < atr) (.notPositive "atr")
  require (∀ target ∈ tp2, 0 < target) (.notPositive "tp2")
  require (zoneLow.isSome = zoneHigh.isSome) .zoneTogether
  require (∀ low ∈ zoneLow, 0 < low) (.notPositive "zone_low")
  require (∀ high ∈ zoneHigh, 0 < high) (.notPositive "zone_high")
  require (∀ low ∈ zoneLow, ∀ high ∈ zoneHigh, low < high) .zoneOrder
  require (side.pick (stop < plannedEntry ∧ plannedEntry < tp1)
    (tp1 < plannedEntry ∧ plannedEntry < stop) ∧
    ∀ target ∈ tp2, side.pick (tp1 ≤ target) (target ≤ tp1)) .sideGeometry

/-- What the checks ask for. -/
structure ViewValid (shadowOrderId marketId : Text) (side : Side) (outcomeStartMs : ℕ)
    (plannedEntry stop tp1 atr : ℚ) (tp2 zoneLow zoneHigh : Option ℚ) : Prop where
  identifiers : exactIdentifier shadowOrderId = true ∧ exactIdentifier marketId = true
  start : outcomeStartMs % oneMinuteMs = 0
  prices : 0 < plannedEntry ∧ 0 < stop ∧ 0 < tp1 ∧ 0 < atr
  second : ∀ target ∈ tp2, 0 < target ∧ side.pick (tp1 ≤ target) (target ≤ tp1)
  together : zoneLow.isSome = zoneHigh.isSome
  zone : (∀ high ∈ zoneHigh, 0 < high) ∧ ∀ low ∈ zoneLow, 0 < low ∧ ∀ high ∈ zoneHigh, low < high
  geometry : side.pick (stop < plannedEntry ∧ plannedEntry < tp1)
    (tp1 < plannedEntry ∧ plannedEntry < stop)

theorem checkView_ok {shadowOrderId marketId : Text} {side : Side} {start : ℕ}
    {entry stop tp1 atr : ℚ} {tp2 low high : Option ℚ} :
    checkView shadowOrderId marketId side start entry stop tp1 atr tp2 low high = .ok () ↔
      ViewValid shadowOrderId marketId side start entry stop tp1 atr tp2 low high := by
  simp only [checkView, require_bind_ok, require_eq_ok]
  constructor
  · rintro ⟨h₁, h₂, hbeg, hent, hstop, htp1, hatr, htp2, htog, hlow, hhigh, hzone, hgeo, hsnd⟩
    exact ⟨⟨h₁, h₂⟩, hbeg, ⟨hent, hstop, htp1, hatr⟩, fun t ht => ⟨htp2 t ht, hsnd t ht⟩, htog,
      ⟨hhigh, fun l hl => ⟨hlow l hl, hzone l hl⟩⟩, hgeo⟩
  · rintro ⟨⟨h₁, h₂⟩, hbeg, ⟨hent, hstop, htp1, hatr⟩, hsnd, htog, ⟨hhigh, hzone⟩, hgeo⟩
    exact ⟨h₁, h₂, hbeg, hent, hstop, htp1, hatr, fun t ht => (hsnd t ht).1, htog,
      fun l hl => (hzone l hl).1, hhigh, fun l hl => (hzone l hl).2, hgeo, fun t ht => (hsnd t ht).2⟩

/-- The constructor of `FormalShadowView`. -/
def FormalShadowView.create (shadowOrderId marketId : Text) (side : Side) (setupFamily : SetupFamily)
    (outcomeStartMs : ℕ) (plannedEntry stop tp1 atr : ℚ) (tp2 zoneLow zoneHigh : Option ℚ) :
    Except ViewError FormalShadowView :=
  match h : checkView shadowOrderId marketId side outcomeStartMs plannedEntry stop tp1 atr tp2 zoneLow
      zoneHigh with
  | .error e => .error e
  | .ok _ =>
    have hv := checkView_ok.mp h
    .ok ⟨shadowOrderId, marketId, side, setupFamily, outcomeStartMs, plannedEntry, stop, tp1, atr, tp2,
      zoneLow, zoneHigh, .formalShadowPlan, true, hv.start, hv.prices, hv.second, hv.together,
      fun low hl high hh => ⟨(hv.zone.2 low hl).1, (hv.zone.2 low hl).2 high hh⟩, hv.geometry⟩

/-- The view that is attached after the publication of a plan. -/
def attachView (shadowOrderId : Text) (d : StrategyDecision δ) (confirmedMs : ℕ) (plan : PlanDraft) :
    Except ViewError FormalShadowView :=
  FormalShadowView.create shadowOrderId d.marketId d.side d.setupFamily confirmedMs plan.plannedEntry plan.stop
    plan.tp1 d.a5Event plan.tp2 (some d.zoneSnapshot.low) (some d.zoneSnapshot.high)

theorem FormalShadowView.create_ok_iff {shadowOrderId marketId : Text} {side : Side}
    {family : SetupFamily} {start : ℕ} {entry stop tp1 atr : ℚ} {tp2 low high : Option ℚ} :
    (∃ view, create shadowOrderId marketId side family start entry stop tp1 atr tp2 low high = .ok view) ↔
      ViewValid shadowOrderId marketId side start entry stop tp1 atr tp2 low high := by
  rw [← checkView_ok]
  unfold create
  split
  · rename_i e he
    simp [he]
  · rename_i u hu
    simp [hu]

/-! ### What a plan is made of -/

namespace PlanInputs

variable {inputs : PlanInputs}

/-- What a draft says of the entry it was made at. -/
structure Drafted (inputs : PlanInputs) (entry : ℚ) (plan : PlanDraft) : Prop where
  entry_eq : plan.plannedEntry = entry
  stop_eq : plan.stop = inputs.structuralStop
  tp1_eq : plan.tp1 = inputs.firstTarget entry
  tp2_eq : plan.tp2 =
    if inputs.targetRisks entry < 5 / 4 then none else some (inputs.secondTarget entry)
  chase : inputs.side.pick (entry ≤ inputs.chaseLimit) (inputs.chaseLimit ≤ entry)
  stop_valid : inputs.side.pick (inputs.structuralStop < entry) (entry < inputs.structuralStop)

variable {costs : CostModel} {plan : PlanDraft}

theorem planAt_draft {entry : ℚ}
    (h : inputs.planAt costs entry = .ok (.draft plan)) : Drafted inputs entry plan := by
  unfold planAt at h
  dsimp only at h
  split at h
  · cases h
  · rename_i hchase
    obtain ⟨⟨hstop, -⟩, h⟩ := require_bind_ok.mp h
    split at h
    · cases h
    · obtain ⟨one, -, h⟩ := of_bind h
      obtain ⟨two, -, h⟩ := of_bind h
      injection h with h
      injection h with h
      subst h
      refine ⟨rfl, rfl, rfl, rfl, ?_, ?_⟩
      · cases hside : inputs.side <;> simpa [hside, Side.pick] using hchase
      · cases hside : inputs.side <;> simpa [hside, Side.pick] using hstop

theorem makePlan_draft {bbo : PublicBbo} (h : makePlan inputs bbo = .ok (.draft plan)) :
    ∃ entry, inputs.entry bbo = .ok entry ∧ Drafted inputs entry plan := by
  unfold makePlan at h
  cases hgates : inputs.gates bbo with
  | error reason =>
    rw [hgates] at h
    cases h
  | ok costs =>
    rw [hgates] at h
    obtain ⟨entry, hent, h⟩ := of_bind h
    exact ⟨entry, hent, planAt_draft h⟩

/-- The distance from the entry to a stop on its other side. -/
theorem distance_pos {entry : ℚ}
    (h : inputs.side.pick (inputs.structuralStop < entry) (entry < inputs.structuralStop)) :
    0 < inputs.distance entry := by
  unfold distance
  cases hside : inputs.side with
  | long =>
    rw [hside] at h
    exact ctxRound_pos (sub_pos.mpr h)
  | short =>
    rw [hside] at h
    exact ctxRound_pos (sub_pos.mpr h)

/-- Two risks are not nearer than one. -/
theorem favourable_mono {entry d : ℚ} (hd : 0 < d) :
    inputs.side.pick (inputs.favourable entry d ≤ inputs.favourable entry (cmul 2 d))
      (inputs.favourable entry (cmul 2 d) ≤ inputs.favourable entry d) := by
  have hdouble : d ≤ cmul 2 d := by
    have h := half_le_ctxRound (x := 2 * d) (by linarith)
    rw [cmul]
    linarith
  unfold favourable
  cases inputs.side with
  | long => exact ctxRound_mono (by linarith)
  | short => exact ctxRound_mono (by linarith)

/-- The context tells the targets of a plan apart: the first one lies beyond the entry, and
above zero, and the structural one not before it where a second target is planned. -/
def TargetsApart (inputs : PlanInputs) (entry : ℚ) : Prop :=
  0 < inputs.firstTarget entry ∧
  inputs.side.pick (entry < inputs.firstTarget entry) (inputs.firstTarget entry < entry) ∧
  (5 / 4 ≤ inputs.targetRisks entry →
    inputs.side.pick (inputs.firstTarget entry ≤ inputs.structuralTarget)
      (inputs.structuralTarget ≤ inputs.firstTarget entry))

instance (inputs : PlanInputs) (entry : ℚ) : Decidable (inputs.TargetsApart entry) :=
  inferInstanceAs (Decidable (_ ∧ _ ∧ (_ → _)))

/-- The second target lies beyond the first one as soon as the structural one does. -/
theorem pick_secondTarget {entry : ℚ} (hd : 0 < inputs.distance entry) :
    inputs.side.pick (inputs.firstTarget entry ≤ inputs.secondTarget entry)
      (inputs.secondTarget entry ≤ inputs.firstTarget entry) ↔
    inputs.side.pick (inputs.firstTarget entry ≤ inputs.structuralTarget)
      (inputs.structuralTarget ≤ inputs.firstTarget entry) := by
  have hmono : inputs.side.pick (inputs.favourable entry (inputs.distance entry) ≤
        inputs.favourable entry (cmul 2 (inputs.distance entry)))
      (inputs.favourable entry (cmul 2 (inputs.distance entry)) ≤
        inputs.favourable entry (inputs.distance entry)) := favourable_mono hd
  unfold secondTarget
  cases hside : inputs.side with
  | long =>
    rw [hside] at hmono
    exact ⟨fun h => h.trans (min_le_left _ _), fun h => le_min h hmono⟩
  | short =>
    rw [hside] at hmono
    exact ⟨fun h => (le_max_left _ _).trans h, fun h => max_le h hmono⟩

end PlanInputs

variable {d : StrategyDecision δ}

theorem StrategyDecision.resolveStructuralTarget_ok {target : ℚ}
    (h : d.resolveStructuralTarget = .ok target) :
    ∃ chase stop, d.chaseLimit = some chase ∧ d.structuralStop = some stop ∧
      0 < target ∧ 0 < chase ∧ 0 < stop := by
  obtain ⟨price, -, h⟩ := of_bind h
  split at h
  · rename_i chase stop hchase hstop
    obtain ⟨⟨hpr, hc, hs⟩, h⟩ := require_bind_ok.mp h
    obtain rfl : price = target := by
      split at h
      · exact Except.ok.inj (require_bind_ok.mp h).2
      · exact Except.ok.inj (require_bind_ok.mp h).2
    exact ⟨chase, stop, hchase, hstop, hpr, hc, hs⟩
  · cases h

theorem planInputs?_eq {target : ℚ} {market : PlanMarket}
    {liquidity : LiquidityAssessment} {nowMs : ℤ} {inputs : PlanInputs}
    (h : planInputs? d target market liquidity costs nowMs = some inputs) :
    inputs.side = d.side ∧ inputs.structuralTarget = target ∧
      d.chaseLimit = some inputs.chaseLimit ∧ d.structuralStop = some inputs.structuralStop := by
  obtain ⟨low, -, h⟩ := Option.bind_eq_some_iff.mp h
  obtain ⟨high, -, h⟩ := Option.bind_eq_some_iff.mp h
  obtain ⟨chase, hchase, h⟩ := Option.bind_eq_some_iff.mp h
  obtain ⟨stop, hstop, h⟩ := Option.bind_eq_some_iff.mp h
  injection h with h
  subst h
  exact ⟨rfl, rfl, hchase, hstop⟩

/-! ### The view of a plan -/

/-- What the planner leaves to its inputs: the identifiers and the start of the view, the
event's ATR, the bounds of the zone, and prices that the context can tell apart. -/
structure Attachable (shadowOrderId : Text) (d : StrategyDecision δ) (confirmedMs : ℕ)
    (inputs : PlanInputs) (bbo : PublicBbo) : Prop where
  identifiers : exactIdentifier shadowOrderId = true ∧ exactIdentifier d.marketId = true
  start : confirmedMs % oneMinuteMs = 0
  atr : 0 < d.a5Event
  zone : 0 < d.zoneSnapshot.low ∧ d.zoneSnapshot.low < d.zoneSnapshot.high
  targets : ∀ entry, inputs.entry bbo = .ok entry → inputs.TargetsApart entry

namespace PlanSample

/-- A zone around 100. -/
def zone (low high : ℚ) (h : low ≤ 100 ∧ 100 ≤ high) : ZoneSnapshot ℕ where
  zoneId := 0
  marketId := ['m']
  zoneType := .low
  center := 100
  low := low
  high := high
  halfWidth := 1
  quality := .zq1
  reactionCount := 0
  latestReactionBarIndex := 0
  memberReactionIds := []
  activeForNewEvent := true
  suppressed := false
  low_le_center := h.1
  center_le_high := h.2
  halfWidth_pos := by decide
  count_eq := rfl

/-- A confirmed sweep with a priced target. -/
def decision (side : Side) (zone : ZoneSnapshot ℕ) (a5 chase stop target : ℚ) : StrategyDecision ℕ where
  marketId := ['m']
  setupFamily := .sweepReclaim
  setupMode := none
  retestType := none
  side := side
  decision := .formalSetupConfirmed
  reason := .sweepReclaimConfirmed
  marketEventId := 0
  zoneSnapshot := zone
  a5Event := a5
  m20Event := 1
  htfRelation := .neutral
  breakoutLinkage := none
  idealEntryLow := some 99
  idealEntryHigh := some 101
  chaseLimit := some chase
  structuralStop := some stop
  targetReference := some ⟨.zone, some target, none, []⟩
  transition := .formalSetupConfirmed
  scannerLinkage := none
  modes := by decide

/-- Costs of nothing. -/
def costs : CostModel := ⟨['1'], 0, 0, 0, by decide, by decide⟩

/-- The inputs of the plan of a decision at a book of one level. -/
def inputs (d : StrategyDecision ℕ) (bbo : PublicBbo) (level : ℚ × ℚ) : Option PlanInputs := do
  let target ← d.resolveStructuralTarget.toOption
  let liquidity ← (assessL2 ['m'] ['c'] d.side 0 bbo.bestBid bbo.bestAsk [level] ['h']).toOption
  planInputs? d target {} liquidity costs 0

/-- The plan of a decision at a book of one level, if there is one. -/
def plan (d : StrategyDecision ℕ) (bbo : PublicBbo) (level : ℚ × ℚ) : Option PlanDraft := do
  let inputs ← inputs d bbo level
  match makePlan inputs bbo with
  | .ok (.draft plan) => some plan
  | _ => none

/-- What building the view of the plan raises, where there is a plan. -/
def attachError (d : StrategyDecision ℕ) (bbo : PublicBbo) (level : ℚ × ℚ) : Option ViewError := do
  let plan ← plan d bbo level
  match attachView ['s'] d 0 plan with
  | .error e => some e
  | .ok _ => none

/-- A market at 100. -/
def bbo : PublicBbo := ⟨100, 1001 / 10, 0, ['m'], ['c']⟩

end PlanSample

end TraderAssist
