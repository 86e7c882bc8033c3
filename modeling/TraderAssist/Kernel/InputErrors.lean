/-
TraderAssist/Kernel/InputErrors.lean

Everything a call computes from its inputs alone raises only errors about those
inputs: never one about an event, the ledger or a decision's mode.  One lemma
for each function that may raise, each from those it calls.
-/
import TraderAssist.Kernel.Engine

namespace TraderAssist

open Py

variable {α β : Type}

/-- An error about the inputs of a call. -/
abbrev External (e : KernelError) : Prop := e.internal = false

/-- Raises only errors about the inputs. -/
abbrev InputsOnly (x : Except KernelError α) : Prop := Sat x (fun _ => True) External

namespace InputsOnly

variable {f : α → Except KernelError β}

theorem bind {x : Except KernelError α} (hx : InputsOnly x)
    (hf : ∀ a, InputsOnly (f a)) : InputsOnly (x >>= f) :=
  Sat.bind hx fun a _ => hf a

theorem map {x : Except KernelError α} (f : α → β) (hx : InputsOnly x) : InputsOnly (f <$> x) :=
  Sat.map hx fun _ _ => trivial

theorem mapM {l : List α} (hf : ∀ a ∈ l, InputsOnly (f a)) :
    InputsOnly (l.mapM f) :=
  (Sat.mapM (P := fun _ _ => True) hf).weaken fun _ _ => trivial

theorem givenOr (given : Option α) {derive : Except KernelError α} (h : InputsOnly derive) :
    InputsOnly (givenOr given derive) := by
  cases given with
  | none => exact h
  | some a => trivial

end InputsOnly

/-! ### Indicators -/

theorem validateFrom_inputs (marketId : Text) (interval : Interval) (bars : List Bar) :
    ∀ previousOpen, InputsOnly (validateFrom marketId interval previousOpen bars) := by
  induction bars with
  | nil => exact fun _ => trivial
  | cons b bars ih =>
    intro previousOpen
    unfold validateFrom
    split_ifs
    · rfl
    · rfl
    · rfl
    · exact ih _

theorem validateSeries_inputs (bars : List Bar) (interval : Option Interval) :
    InputsOnly (validateSeries bars interval) := by
  cases bars with
  | nil => rfl
  | cons b bars => exact validateFrom_inputs _ _ _ _

theorem barMake_inputs (marketId : Text) (interval : Interval) (openTimeMs closeTimeMs : ℕ)
    (o h l c v : Decimal) (source : Text) :
    InputsOnly (Bar.make marketId interval openTimeMs closeTimeMs o h l c v source) := by
  unfold Bar.make
  split_ifs
  · trivial
  · rfl
  · rfl
  · rfl
  · rfl
  · rfl

theorem mergeBucket_inputs (interval : Interval) (required bucket : ℕ) (members : List Bar) :
    InputsOnly (mergeBucket interval required bucket members) := by
  unfold mergeBucket
  dsimp only
  split_ifs
  · trivial
  · cases members with
    | nil => trivial
    | cons first rest => exact (barMake_inputs _ _ _ _ _ _ _ _ _ _).map some

section

variable (bars : List Bar)

theorem aggregate_inputs (minutes : ℕ) : InputsOnly (aggregateClosed5mCausally bars minutes) := by
  have hmerge : InputsOnly (mergeBuckets bars minutes) :=
    InputsOnly.bind (.mapM fun _ _ => mergeBucket_inputs _ _ _ _) fun _ => trivial
  unfold aggregateClosed5mCausally
  split
  · rfl
  · refine (validateSeries_inputs _ _).bind fun _ => ?_
    split
    · rfl
    · exact hmerge

theorem wilderSeries_inputs : InputsOnly (wilderAtr14Series bars) :=
  (validateSeries_inputs _ _).bind fun _ => trivial

theorem wilderAtr14_inputs : InputsOnly (wilderAtr14 bars) := by
  refine (wilderSeries_inputs bars).bind fun values => ?_
  split
  · trivial
  · rfl

theorem medianVolume_inputs : InputsOnly (medianPrevious20Volume bars) := by
  refine (validateSeries_inputs _ _).bind fun _ => ?_
  split_ifs
  · rfl
  · rfl
  · trivial

theorem efficiency_inputs : InputsOnly (directionalEfficiency8 bars) := by
  refine (validateSeries_inputs _ _).bind fun _ => ?_
  split_ifs
  · rfl
  · trivial

theorem move_inputs (atr : ℚ) : InputsOnly (directionalMove8 bars atr) := by
  refine (validateSeries_inputs _ _).bind fun _ => ?_
  split_ifs
  · rfl
  · trivial

theorem pivotHigh_inputs : InputsOnly (causalPivotHighIndices bars) :=
  (validateSeries_inputs _ _).bind fun _ => trivial

theorem pivotLow_inputs : InputsOnly (causalPivotLowIndices bars) :=
  (validateSeries_inputs _ _).bind fun _ => trivial

theorem htfContext_inputs : InputsOnly (htfContext bars) := by
  unfold htfContext
  split
  · trivial
  · refine (validateSeries_inputs _ _).bind fun _ => ?_
    refine (wilderSeries_inputs _).bind fun atr => ?_
    split
    · trivial
    · split
      · trivial
      · refine (efficiency_inputs _).bind fun _ => (move_inputs _ _).bind fun _ => ?_
        exact (pivotHigh_inputs _).bind fun _ => (pivotLow_inputs _).bind fun _ => trivial

end

theorem clvLong_inputs (bar : Bar) : InputsOnly (clvLong bar) := by
  unfold clvLong
  dsimp only
  split_ifs
  · rfl
  · trivial

theorem clvShort_inputs (bar : Bar) : InputsOnly (clvShort bar) := by
  unfold clvShort
  dsimp only
  split_ifs
  · rfl
  · trivial

/-! ### Zones and candidate tests -/

section

variable {δ : Type}

theorem initialBreakout_inputs (bar : Bar) (zone : ZoneSnapshot δ) (side : Side) (a5 m20 : ℚ) :
    InputsOnly (initialBreakout bar zone side a5 m20) := by
  unfold initialBreakout
  cases side with
  | long =>
    dsimp only
    split_ifs
    · exact (clvLong_inputs bar).bind fun _ => trivial
    · trivial
  | short =>
    dsimp only
    split_ifs
    · exact (clvShort_inputs bar).bind fun _ => trivial
    · trivial

theorem rangeCandidate_inputs (bar : Bar) (previousClose : ℚ) (zone : ZoneSnapshot δ)
    (side : Side) (a5 m20 : ℚ) : InputsOnly (rangeCandidate bar previousClose zone side a5 m20) := by
  unfold rangeCandidate
  cases side with
  | long =>
    dsimp only
    split_ifs
    · trivial
    · trivial
    · exact (clvLong_inputs bar).bind fun _ => trivial
    · trivial
  | short =>
    dsimp only
    split_ifs
    · trivial
    · trivial
    · exact (clvShort_inputs bar).bind fun _ => trivial
    · trivial

theorem rangeValid_inputs (support resistance : Option (ZoneSnapshot δ)) (bars15m : List Bar)
    (a15Override : Option ℚ) : InputsOnly (rangeValid support resistance bars15m a15Override) := by
  unfold rangeValid
  split
  · split_ifs
    · trivial
    · trivial
    · refine (InputsOnly.givenOr a15Override (wilderAtr14_inputs _)).bind fun a15 => ?_
      dsimp only
      split
      · trivial
      · refine (efficiency_inputs _).bind fun er8 => ?_
        split_ifs <;> trivial
  · trivial

variable [LinearOrder δ] (sha256 : Preimage δ → δ)

omit [LinearOrder δ] in
theorem zoneMake_inputs (zoneId : δ) (marketId : Text) (zoneType : ZoneType)
    (center low high halfWidth : ℚ) (quality : ZoneQuality) (count latest : ℕ) (ids : List δ)
    (active : Bool) :
    InputsOnly (ZoneSnapshot.make zoneId marketId zoneType center low high halfWidth quality count
      latest ids active) := by
  unfold ZoneSnapshot.make
  split_ifs
  · trivial
  · rfl
  · rfl

theorem qualifiedReactions_inputs (bars : List Bar) (atr : Option (List (Option ℚ)))
    (offset : ℕ) : InputsOnly (qualifiedReactions sha256 bars atr offset) := by
  refine (InputsOnly.givenOr atr (wilderSeries_inputs _)).bind fun resolved => ?_
  · split
    · rfl
    · exact (pivotHigh_inputs _).bind fun _ => (pivotLow_inputs _).bind fun _ => trivial

theorem assembleBook_inputs (bars : List Bar) (tick : ℚ) (atr : List (Option ℚ)) (offset : ℕ)
    (a15 : ℚ) (first current : Bar) :
    InputsOnly (assembleBook sha256 bars tick atr offset a15 first current) := by
  refine (qualifiedReactions_inputs sha256 _ _ _).bind fun _ => ?_
  exact InputsOnly.bind (.mapM fun _ _ => zoneMake_inputs _ _ _ _ _ _ _ _ _ _ _ _) fun _ => trivial

theorem buildZoneBook_inputs (bars : List Bar) (tick : ℚ) (atr : Option (List (Option ℚ)))
    (offset : ℕ) : InputsOnly (buildZoneBook sha256 bars tick atr offset) := by
  refine (validateSeries_inputs _ _).bind fun _ => ?_
  split
  · rfl
  · refine (InputsOnly.givenOr atr (wilderSeries_inputs _)).bind fun resolved => ?_
    split
    · rfl
    · split
      · exact assembleBook_inputs sha256 _ _ _ _ _ _ _
      · rfl

theorem prepare_inputs (inputs : StrategyEvaluationInput δ) : InputsOnly (prepare sha256 inputs) := by
  have h15 : InputsOnly (bars15mOf inputs) := by
    unfold bars15mOf
    split
    · exact aggregate_inputs _ _
    · exact (validateSeries_inputs _ _).bind fun _ => trivial
  have h1 : InputsOnly (bars1hOf inputs) := by
    unfold bars1hOf
    split
    · exact aggregate_inputs _ _
    · trivial
    · exact (validateSeries_inputs _ _).bind fun _ => trivial
  have hbook : ∀ bars15m, InputsOnly (bookOf sha256 inputs bars15m) := by
    intro bars15m
    refine InputsOnly.givenOr _ ?_
    split_ifs
    · rfl
    · exact buildZoneBook_inputs sha256 _ _ _ _
  refine (validateSeries_inputs _ _).bind fun _ => h15.bind fun bars15m => h1.bind fun bars1h => ?_
  refine (InputsOnly.givenOr _ (htfContext_inputs _)).bind fun context => ?_
  refine (hbook bars15m).bind fun book => ?_
  split
  · rfl
  · trivial

end

end TraderAssist
