/-
TraderAssist/Continuation/Quotes.lean

Where an evaluation reads the volume of a derived bar: in the candle ids of the
15m pivots of the lookback, and nowhere else.

`Bar.sansVolume` blanks the volume.  The indicators do not see it, so two
histories with the same quotes are evaluated alike as long as they have the same
bars where a candle id is read now or may be read later (`AlikeBars`).
-/
import TraderAssist.Continuation.Window

namespace TraderAssist

open Py

variable {δ : Type} {test : Bar → Bar → Bar → Bool}

def Bar.sansVolume (b : Bar) : Bar :=
  { b with
    volumeRepr := Decimal.zero
    volume_nonneg := by simp }

/-! ### Indicators of a history without volumes -/

section Blind

variable (bars : List Bar)

theorem validateFrom_sansVolume (market : Text) (interval : Interval) :
    ∀ (bars : List Bar) (previous : Option ℕ), validateFrom market interval previous (bars.map Bar.sansVolume)
        = validateFrom market interval previous bars := by
  intro bars
  induction bars with
  | nil => exact fun _ => rfl
  | cons b bars ih =>
    intro previous
    rw [List.map_cons]
    unfold validateFrom
    rw [ih]
    rfl

theorem validateSeries_sansVolume (interval : Option Interval) :
    validateSeries (bars.map Bar.sansVolume) interval = validateSeries bars interval := by
  cases bars with
  | nil => rfl
  | cons b bars => exact validateFrom_sansVolume _ _ (b :: bars) none

theorem closes_sansVolume (n : ℕ) :
    (lastN n (bars.map Bar.sansVolume)).map Bar.close = (lastN n bars).map Bar.close := by
  rw [lastN_map, List.map_map]
  rfl

theorem directionalEfficiency8_sansVolume :
    directionalEfficiency8 (bars.map Bar.sansVolume) = directionalEfficiency8 bars := by
  unfold directionalEfficiency8
  rw [validateSeries_sansVolume, List.length_map, closes_sansVolume]

theorem move8_sansVolume : move8 (bars.map Bar.sansVolume) = move8 bars := by
  unfold move8
  rw [closes_sansVolume]

theorem directionalMove8_sansVolume (atr : ℚ) :
    directionalMove8 (bars.map Bar.sansVolume) atr = directionalMove8 bars atr := by
  unfold directionalMove8
  rw [validateSeries_sansVolume, List.length_map, move8_sansVolume]

theorem rangeValid_sansVolume (support resistance : Option (ZoneSnapshot δ)) (a15 : ℚ) :
    rangeValid support resistance (bars.map Bar.sansVolume) (some a15)
      = rangeValid support resistance bars (some a15) := by
  have hall : ∀ low high : ℚ, ((lastN 8 (bars.map Bar.sansVolume)).all fun item =>
        decide (low ≤ item.close ∧ item.close ≤ high))
      = (lastN 8 bars).all fun item => decide (low ≤ item.close ∧ item.close ≤ high) := by
    intro low high
    rw [lastN_map, List.all_map]
    rfl
  unfold rangeValid
  simp only [List.length_map, directionalEfficiency8_sansVolume, move8_sansVolume, hall, givenOr]

theorem pivotAt_sansVolume
    (htest : ∀ a b c, test a.sansVolume b.sansVolume c.sansVolume = test a b c) (i : ℕ) :
    pivotAt test (bars.map Bar.sansVolume) i = pivotAt test bars i := by
  unfold pivotAt
  simp only [List.getElem?_map]
  rcases bars[i - 1]? with - | a
  · rfl
  · rcases bars[i]? with - | b
    · rfl
    · rcases bars[i + 1]? with - | c
      · rfl
      · exact htest a b c

theorem qualifyingIndex_sansVolume (zoneType : ZoneType) (pivot : Bar) (i : ℕ) (a15 : ℚ) :
    qualifyingIndex (bars.map Bar.sansVolume) zoneType pivot i a15
      = qualifyingIndex bars zoneType pivot i a15 := by
  have hmove : ∀ after : List Bar,
      moveAway zoneType pivot (after.map Bar.sansVolume) = moveAway zoneType pivot after := by
    intro after
    cases zoneType <;> simp only [moveAway, List.map_map] <;> rfl
  unfold qualifyingIndex
  simp only [List.length_map, ← List.map_drop, ← List.map_take, hmove]

end Blind

/-! ### Histories with the same quotes -/

def SameQuotes (m m' : List Bar) : Prop := m.map Bar.sansVolume = m'.map Bar.sansVolume

namespace SameQuotes

variable {m m' : List Bar} (h : SameQuotes m m')

include h

theorem length : m.length = m'.length := by
  simpa using congrArg List.length h

theorem validate (interval : Option Interval) : validateSeries m interval = validateSeries m' interval := by
  rw [← validateSeries_sansVolume m, h, validateSeries_sansVolume]

theorem efficiency : directionalEfficiency8 m = directionalEfficiency8 m' := by
  rw [← directionalEfficiency8_sansVolume m, h, directionalEfficiency8_sansVolume]

theorem move (atr : ℚ) : directionalMove8 m atr = directionalMove8 m' atr := by
  rw [← directionalMove8_sansVolume m, h, directionalMove8_sansVolume]

theorem range (support resistance : Option (ZoneSnapshot δ)) (a15 : ℚ) :
    rangeValid support resistance m (some a15) = rangeValid support resistance m' (some a15) := by
  rw [← rangeValid_sansVolume m, h, rangeValid_sansVolume]

theorem pivotAt
    (htest : ∀ a b c, test a.sansVolume b.sansVolume c.sansVolume = test a b c) (i : ℕ) :
    TraderAssist.pivotAt test m i = TraderAssist.pivotAt test m' i := by
  rw [← pivotAt_sansVolume m htest, h, pivotAt_sansVolume _ htest]

theorem pivotIndices
    (htest : ∀ a b c, test a.sansVolume b.sansVolume c.sansVolume = test a b c) :
    TraderAssist.pivotIndices test m = TraderAssist.pivotIndices test m' := by
  unfold TraderAssist.pivotIndices
  rw [h.length, funext (h.pivotAt htest)]

theorem qualifying (zoneType : ZoneType) (pivot : Bar) (i : ℕ) (a15 : ℚ) :
    qualifyingIndex m zoneType pivot i a15 = qualifyingIndex m' zoneType pivot i a15 := by
  rw [← qualifyingIndex_sansVolume m, h, qualifyingIndex_sansVolume]

theorem lookback : lookbackStart m = lookbackStart m' := by
  rw [lookbackStart, lookbackStart, h.length]

theorem lastN (n : ℕ) : SameQuotes (Py.lastN n m) (Py.lastN n m') := by
  unfold SameQuotes
  rw [← lastN_map, ← lastN_map, h]

theorem snoc (b : Bar) : SameQuotes (m ++ [b]) (m' ++ [b]) := by
  unfold SameQuotes
  rw [List.map_append, List.map_append, h]

end SameQuotes

/-! ### Where candle ids are read -/

/-- The bar is a pivot of the lookback, or the newest one, which may become a
pivot with the next bar. -/
def Counts (bars : List Bar) (i : ℕ) : Prop :=
  (lookbackStart bars ≤ i ∧ (pivotAt isPivotHigh bars i = true ∨ pivotAt isPivotLow bars i = true))
    ∨ i + 1 = bars.length

/-- The same quotes, and the same bars where a candle id counts. -/
structure AlikeBars (m m' : List Bar) : Prop where
  quotes : SameQuotes m m'
  counts : ∀ i, Counts m i → m[i]? = m'[i]?

theorem AlikeBars.typedReactions {sha256 : Preimage δ → δ} {m m' : List Bar} (h : AlikeBars m m')
    (htest : ∀ a b c, test a.sansVolume b.sansVolume c.sansVolume = test a b c)
    (hcounts : ∀ i, lookbackStart m ≤ i → pivotAt test m i = true → Counts m i)
    (atr : List (Option ℚ)) (off : ℕ) (zoneType : ZoneType) :
    TraderAssist.typedReactions sha256 m atr off zoneType (pivotIndices test m)
      = TraderAssist.typedReactions sha256 m' atr off zoneType (pivotIndices test m') := by
  rw [typedReactions_eq, typedReactions_eq, ← h.quotes.pivotIndices htest, ← h.quotes.lookback]
  congr 1
  refine List.filterMap_congr fun i hi => ?_
  obtain ⟨hi, hlook⟩ := List.mem_filter.mp hi
  obtain ⟨-, hpivot⟩ := List.mem_filter.mp hi
  have hbar := h.counts i (hcounts i (of_decide_eq_true hlook) hpivot)
  unfold reactionAt
  simp only [hbar, h.quotes.qualifying]

section Book

variable [LinearOrder δ] {sha256 : Preimage δ → δ} {m m' : List Bar}

theorem AlikeBars.qualifiedReactions (h : AlikeBars m m') (atr : List (Option ℚ)) (off : ℕ) :
    TraderAssist.qualifiedReactions sha256 m (some atr) off
      = TraderAssist.qualifiedReactions sha256 m' (some atr) off := by
  unfold TraderAssist.qualifiedReactions causalPivotHighIndices causalPivotLowIndices
  simp only [givenOr, h.quotes.length, h.quotes.validate, bind, Except.bind, pure, Except.pure]
  rcases validateSeries m' with err | -
  · rfl
  · simp only [ h.typedReactions (fun _ _ _ => rfl) (fun i hl hp => .inl ⟨hl, .inl hp⟩) atr off .high,
      h.typedReactions (fun _ _ _ => rfl) (fun i hl hp => .inl ⟨hl, .inr hp⟩) atr off .low]

/-- **The zone book reads volumes only where they count.** -/
theorem AlikeBars.buildZoneBook (h : AlikeBars m m') (minimumTick : ℚ) (atr : List (Option ℚ))
    (off : ℕ) : TraderAssist.buildZoneBook sha256 m minimumTick (some atr) off
      = TraderAssist.buildZoneBook sha256 m' minimumTick (some atr) off := by
  have hhead : m.head?.map Bar.sansVolume = m'.head?.map Bar.sansVolume := by
    rw [← List.head?_map, h.quotes, List.head?_map]
  have hlast : m.getLast?.map Bar.sansVolume = m'.getLast?.map Bar.sansVolume := by
    rw [← List.getLast?_map, h.quotes, List.getLast?_map]
  have hasm : ∀ {a15 : ℚ} {first first' current current' : Bar},
      first.sansVolume = first'.sansVolume → current.sansVolume = current'.sansVolume →
      assembleBook sha256 m minimumTick atr off a15 first current
        = assembleBook sha256 m' minimumTick atr off a15 first' current' := by
    intro a15 first first' current current' hfst hcur
    have hmkt : first.sansVolume.marketId = first'.sansVolume.marketId := by rw [hfst]
    have hcl : current.sansVolume.close = current'.sansVolume.close := by rw [hcur]
    change first.marketId = first'.marketId at hmkt
    change current.close = current'.close at hcl
    unfold assembleBook
    rw [h.qualifiedReactions, h.quotes.length, hmkt, hcl]
  unfold TraderAssist.buildZoneBook
  simp only [h.quotes.validate, givenOr, h.quotes.length, bind, Except.bind]
  generalize atr.getLast?.join = a15
  generalize m.head? = x at hhead ⊢
  generalize m'.head? = x' at hhead ⊢
  generalize m.getLast? = y at hlast ⊢
  generalize m'.getLast? = y' at hlast ⊢
  rcases a15 with - | a15
  · rfl
  rcases x with - | first <;> rcases x' with - | first'
  · rfl
  · cases hhead
  · cases hhead
  · rcases y with - | current <;> rcases y' with - | current'
    · rfl
    · cases hlast
    · cases hlast
    · simp only [hasm (Option.some.inj hhead) (Option.some.inj hlast)]

end Book

/-- Taking in the next bar keeps the bars alike: a bar that counts then is a pivot
already, or was the newest, or is the new one. -/
theorem AlikeBars.snoc {m m' : List Bar} (h : AlikeBars m m') (hlen : m.length ≤ 98) (b : Bar) :
    AlikeBars (lastN 98 (m ++ [b])) (lastN 98 (m' ++ [b])) := by
  have hsame := h.quotes.length
  refine ⟨(h.quotes.snoc b).lastN 98, fun j hj => ?_⟩
  rw [lastN_eq_drop] at hj ⊢
  rw [lastN_eq_drop]
  simp only [List.length_append, List.length_singleton, ← hsame] at hj ⊢
  generalize hoff : m.length + 1 - 98 = off at hj ⊢
  rw [List.getElem?_drop, List.getElem?_drop]
  rcases Nat.lt_trichotomy (off + j) m.length with hlt | heq | hgt
  · rw [List.getElem?_append_left hlt, List.getElem?_append_left (by omega)]
    refine h.counts (off + j) ?_
    by_cases hnwst : off + j + 1 = m.length
    · exact .inr hnwst
    · rcases hj with ⟨hlook, hpivot⟩ | hnew
      · simp only [lookbackStart, zoneLookback15m, List.length_drop, List.length_append,
          List.length_singleton] at hlook
        have hj : 1 ≤ j := by omega
        rw [pivotAt_drop hj, pivotAt_drop hj, pivotAt_append (by omega),
          pivotAt_append (by omega)] at hpivot
        refine .inl ⟨?_, hpivot⟩
        simp only [lookbackStart, zoneLookback15m]
        omega
      · simp only [List.length_drop, List.length_append, List.length_singleton] at hnew
        omega
  · rw [List.getElem?_append_right (by omega), List.getElem?_append_right (by omega), ← hsame]
  · rw [List.getElem?_eq_none (by simp; omega), List.getElem?_eq_none (by simp; omega)]

end TraderAssist
