/-
TraderAssist/Continuation/Window.lean

What a bounded window of the history is enough for.

`RollingOf` is the invariant of a rolling ATR: its value is the last value of
`wilder_atr14_series` on everything it has seen.  The zone book of the last 98
15m bars with an index offset is the zone book of all of them
(`buildZoneBook_window`), the last ten 1h bars and the last two pivots of each
kind give the same context (`htfContext_window`), and the range test reads only
the last nine 15m bars (`rangeValid_window`).
-/
import TraderAssist.Continuation.Aggregation
import TraderAssist.Kernel.Reactions

namespace TraderAssist

open Py

/-! ### True ranges and ATR -/

/-- The seed test of `wilder_atr14_series`, where it is made. -/
def PositiveSeed (bars : List Bar) : Prop := 15 ≤ bars.length → 0 < atrSeed bars

instance (bars : List Bar) : Decidable (PositiveSeed bars) :=
  inferInstanceAs (Decidable (_ → _))

theorem trueRange_nonneg (current : Bar) (previousClose : ℚ) : 0 ≤ trueRange current previousClose :=
  le_max_of_le_right (cabs_nonneg _)

variable {bars : List Bar}

theorem trueRanges_snoc {a b : Bar} (ha : bars.getLast? = some a) :
    trueRanges (bars ++ [b]) = trueRanges bars ++ [trueRange b a.close] := by
  induction bars with
  | nil => simp at ha
  | cons c bars ih =>
    cases bars with
    | nil =>
      obtain rfl : c = a := by simpa using ha
      rfl
    | cons d bars =>
      have hrest := ih ha
      simp only [trueRanges, List.cons_append, List.tail_cons, List.zipWith_cons_cons,
        List.cons.injEq, true_and] at hrest ⊢
      exact hrest

theorem wilderStep_pos {current range : ℚ} (hc : 0 < current) (hr : 0 ≤ range) :
    0 < wilderStep current range :=
  cdiv_pos (cadd_pos (cmul_pos (by norm_num) hc) hr) (by norm_num)

/-- The ATR at the last bar, once there are fifteen. -/
def atrNow (bars : List Bar) : ℚ := ((trueRanges bars).drop 14).foldl wilderStep (atrSeed bars)

theorem trueRanges_nonneg : ∀ x ∈ trueRanges bars, 0 ≤ x := by
  intro x hx
  obtain ⟨i, hi, rfl⟩ := List.getElem_of_mem hx
  simp only [trueRanges, List.getElem_zipWith]
  exact trueRange_nonneg _ _

theorem atrTail_snoc {ranges : List ℚ} (hr : ∀ x ∈ ranges, 0 ≤ x) {x : ℚ} (hx : 0 ≤ x) :
    ∀ {current : ℚ}, 0 < current → atrTail current (ranges ++ [x])
      = atrTail current ranges ++ [some ((ranges ++ [x]).foldl wilderStep current)] := by
  induction ranges with
  | nil =>
    intro current h
    simp [atrTail, wilderStep_pos h hx]
  | cons y ranges ih =>
    intro current h
    have hnext := wilderStep_pos h (hr y (.head _))
    simp only [List.cons_append, atrTail, List.foldl_cons,
      ih (fun z hz => hr z (.tail _ hz)) hnext]

section Atr

variable {bars : List Bar} {a b : Bar}

theorem trueRanges_take_snoc (h : 15 ≤ bars.length) :
    (trueRanges (bars ++ [b])).take 14 = (trueRanges bars).take 14 := by
  obtain ⟨a, ha⟩ : ∃ a, bars.getLast? = some a := by
    rcases e : bars.getLast? with - | a
    · rw [List.getLast?_eq_none_iff.mp e] at h
      simp at h
    · exact ⟨a, rfl⟩
  rw [trueRanges_snoc ha, List.take_append_of_le_length]
  rw [length_trueRanges]
  omega

theorem atrSeed_snoc (h : 15 ≤ bars.length) : atrSeed (bars ++ [b]) = atrSeed bars := by
  rw [atrSeed, atrSeed, trueRanges_take_snoc h]

theorem atrNow_snoc (ha : bars.getLast? = some a) (h : 15 ≤ bars.length) :
    atrNow (bars ++ [b]) = wilderStep (atrNow bars) (trueRange b a.close) := by
  have hlen := length_trueRanges bars
  rw [atrNow, atrSeed_snoc h, trueRanges_snoc ha, List.drop_append_of_le_length (by omega), List.foldl_append]
  rfl

theorem PositiveSeed.left {more : List Bar} (h : PositiveSeed (bars ++ more)) : PositiveSeed bars := by
  induction more using List.reverseRecOn with
  | nil => simpa using h
  | append_singleton more c ih =>
    refine ih fun hlen => ?_
    rw [← List.append_assoc] at h
    rw [← @atrSeed_snoc _ c hlen]
    exact h (by rw [List.length_append]; omega)

/-- The value a rolling ATR reports after these bars. -/
def atrValue (bars : List Bar) : Option ℚ := if bars.length < 15 then none else some (atrNow bars)

/-- **One more value of the ATR series.** -/
theorem atrValues_snoc (hseed : PositiveSeed (bars ++ [b])) :
    atrValues (bars ++ [b]) = atrValues bars ++ [atrValue (bars ++ [b])] := by
  have hlen := length_trueRanges (bars ++ [b])
  simp only [List.length_append, List.length_singleton] at hlen
  rcases Nat.lt_trichotomy (bars.length + 1) 15 with hlt | heq | hgt
  · simp only [atrValues, atrValue, List.length_append, List.length_singleton, if_pos hlt,
      if_pos (show bars.length < 15 by omega), List.replicate_succ']
  · have hpos : ¬ atrSeed (bars ++ [b]) ≤ 0 := not_le.mpr (hseed (by simp; omega))
    have hnil : (trueRanges (bars ++ [b])).drop 14 = [] := List.drop_eq_nil_of_le (by omega)
    simp only [atrValues, atrValue, List.length_append, List.length_singleton, heq, lt_irrefl,
      if_false, if_neg hpos, if_pos (show bars.length < 15 by omega), atrNow, hnil, atrTail,
      List.foldl_nil]
    rw [show bars.length = 14 by omega]
  · have hlong : 15 ≤ bars.length := by omega
    obtain ⟨a, ha⟩ : ∃ a, bars.getLast? = some a := by
      rcases e : bars.getLast? with - | a
      · rw [List.getLast?_eq_none_iff.mp e] at hlong
        simp at hlong
      · exact ⟨a, rfl⟩
    have hpos : 0 < atrSeed bars := by
      rw [← @atrSeed_snoc _ b hlong]
      exact hseed (by simp; omega)
    have hrngs := length_trueRanges bars
    simp only [atrValues, atrValue, List.length_append, List.length_singleton,
      if_neg (show ¬ bars.length + 1 < 15 by omega), if_neg (show ¬ bars.length < 15 by omega),
      atrSeed_snoc hlong, if_neg (not_le.mpr hpos), atrNow]
    rw [trueRanges_snoc ha, List.drop_append_of_le_length (by omega),
      atrTail_snoc (fun x hx => trueRanges_nonneg x (List.mem_of_mem_drop hx))
        (trueRange_nonneg _ _) hpos]
    simp

end Atr

/-! ### The rolling ATR -/

/-- The state of a rolling ATR that has ingested these bars. -/
structure RollingOf (bars : List Bar) (a : RollingAtr) : Prop where
  count : a.barCount = bars.length
  close : a.previousClose = bars.getLast?.map Bar.close
  seed : a.seedSum = csum ((trueRanges bars).take 14)
  value : a.value = atrValue bars

theorem RollingOf.nil : RollingOf [] {} := ⟨rfl, rfl, rfl, rfl⟩

theorem csum_snoc (xs : List ℚ) (x : ℚ) : csum (xs ++ [x]) = cadd (csum xs) x := by
  simp [csum, List.foldl_append]

/-- **Ingesting one bar.** -/
theorem RollingOf.ingest {a : RollingAtr} (h : RollingOf bars a) (b : Bar) :
    ∃ a', a.ingest b = .ok a' ∧ RollingOf (bars ++ [b]) a' := by
  unfold RollingAtr.ingest
  rcases hlast : bars.getLast? with - | c
  · obtain rfl := List.getLast?_eq_none_iff.mp hlast
    rw [if_pos (by simpa using h.count)]
    exact ⟨_, rfl, by simp, by simp, by simp [h.seed, trueRanges], by simp [h.value, atrValue]⟩
  · have hne : bars.length ≠ 0 := by
      rintro h0
      rw [List.length_eq_zero_iff.mp h0] at hlast
      cases hlast
    have hcl : a.previousClose = some c.close := by rw [h.close, hlast]; rfl
    have hlen := length_trueRanges bars
    have hsnoc := @trueRanges_snoc bars c b hlast
    rw [if_neg (by rw [h.count]; exact hne), hcl]
    dsimp only
    have htake : bars.length ≤ 14 →
        csum ((trueRanges (bars ++ [b])).take 14) = cadd a.seedSum (trueRange b c.close) := by
      intro hle
      rw [hsnoc, List.take_of_length_le (by simp; omega), csum_snoc, h.seed,
        List.take_of_length_le (by omega)]
    rw [h.count]
    rcases Nat.lt_trichotomy bars.length 14 with hlt | heq | hgt
    · rw [if_pos hlt]
      refine ⟨_, rfl, by simp, by simp, (htake (by omega)).symm, ?_⟩
      simp [h.value, atrValue, show bars.length < 15 by omega, show bars.length + 1 < 15 by omega]
    · rw [if_neg (by omega), if_pos heq]
      refine ⟨_, rfl, by simp, by simp, (htake (by omega)).symm, ?_⟩
      have hnil : (trueRanges (bars ++ [b])).drop 14 = [] := by
        rw [hsnoc]
        exact List.drop_eq_nil_of_le (by simp; omega)
      simp only [atrValue, List.length_append, List.length_singleton, heq, lt_irrefl, if_false,
        atrNow, hnil, List.foldl_nil, atrSeed, htake (by omega)]
    · have hvalue : a.value = some (atrNow bars) := by
        rw [h.value, atrValue, if_neg (by omega)]
      rw [if_neg (by omega), if_neg (by omega), hvalue]
      refine ⟨_, rfl, by simp, by simp, ?_, ?_⟩
      · rw [trueRanges_take_snoc (by omega)]
        exact h.seed
      · simp only [atrValue, List.length_append, List.length_singleton,
          if_neg (show ¬ bars.length + 1 < 15 by omega), atrNow_snoc hlast (show 15 ≤ bars.length by omega)]

/-! ### The zone book of a window -/

section Zones

variable {δ : Type} {sha256 : Preimage δ → δ} {bars : List Bar} {atr : List (Option ℚ)} {off : ℕ}

variable {test : Bar → Bar → Bar → Bool}

theorem pivotAt_drop {i : ℕ} (hi : 1 ≤ i) :
    pivotAt test (bars.drop off) i = pivotAt test bars (off + i) := by
  unfold pivotAt
  simp only [List.getElem?_drop]
  rw [show off + (i - 1) = off + i - 1 by omega, show off + (i + 1) = off + i + 1 by omega]

/-- Qualifying bars are found at the shifted index. -/
theorem qualifyingIndex_drop (hoff : off ≤ bars.length) (zoneType : ZoneType) (pivot : Bar) (i : ℕ)
    (a15 : ℚ) : qualifyingIndex bars zoneType pivot (off + i) a15
      = (qualifyingIndex (bars.drop off) zoneType pivot i a15).map (off + ·) := by
  unfold qualifyingIndex
  have hrange : List.range' (off + i + 1) (min (off + i + 5) bars.length - (off + i + 1))
      = (List.range' (i + 1) (min (i + 5) (bars.drop off).length - (i + 1))).map (off + ·) := by
    rw [List.map_add_range', List.length_drop]
    congr 1
    omega
  rw [hrange, List.find?_map]
  congr 2
  funext index
  simp only [Function.comp, List.drop_drop, Nat.add_sub_add_left]
  rw [show off + (i + 1) = off + i + 1 by omega]

theorem reactionAt_drop (hoff : off ≤ bars.length) (zoneType : ZoneType) (i : ℕ) :
    reactionAt sha256 (bars.drop off) (atr.drop off) off zoneType i
      = reactionAt sha256 bars atr 0 zoneType (off + i) := by
  unfold reactionAt
  simp only [List.getElem?_drop, qualifyingIndex_drop hoff, Nat.add_assoc, Nat.zero_add]
  rcases atr[off + (i + 1)]?.join with - | a15
  · rfl
  · rcases bars[off + i]? with - | pivot
    · rfl
    · rcases h : qualifyingIndex (bars.drop off) zoneType pivot i a15 with - | q
      · simp [h]
      · simp [h]

/-- The pivots a long history looks at are those of its last 98 bars. -/
theorem pivotIndices_window (hlen : bars.length = off + 98) :
    (pivotIndices test bars).filter (fun i => lookbackStart bars ≤ i)
      = ((pivotIndices test (bars.drop off)).filter
          fun i => lookbackStart (bars.drop off) ≤ i).map (off + ·) := by
  have hbeg : lookbackStart bars = off + 2 := by
    simp only [lookbackStart, zoneLookback15m, hlen]
    omega
  have hbeg' : lookbackStart (bars.drop off) = 2 := by
    simp only [lookbackStart, zoneLookback15m, List.length_drop, hlen]
    omega
  have hspl : List.range' 1 (bars.length - 2)
      = List.range' 1 off ++ (List.range' 1 96).map (off + ·) := by
    rw [List.map_add_range', Nat.add_comm off 1, List.range'_append_1, hlen]
    congr 1
  have hwin : (bars.drop off).length - 2 = 96 := by
    rw [List.length_drop]
    omega
  simp only [pivotIndices, hbeg, hbeg', hspl, hwin, List.filter_append, List.filter_map]
  have herl : ((List.range' 1 off).filter (pivotAt test bars)).filter (fun i => off + 2 ≤ i) = [] := by
    refine List.filter_eq_nil_iff.mpr fun i hi => ?_
    have := List.mem_range'_1.mp (List.mem_of_mem_filter hi)
    simp only [decide_eq_true_eq]
    omega
  rw [herl, List.nil_append]
  congr 1
  rw [List.filter_filter, List.filter_filter]
  refine List.filter_congr fun i hi => ?_
  have hi1 := (List.mem_range'_1.mp hi).1
  simp only [Function.comp, pivotAt_drop hi1, Nat.add_le_add_iff_left]

theorem typedReactions_window (hlen : bars.length = off + 98)
    (test : Bar → Bar → Bar → Bool) (zoneType : ZoneType) :
    typedReactions sha256 (bars.drop off) (atr.drop off) off zoneType (pivotIndices test (bars.drop off))
      = typedReactions sha256 bars atr 0 zoneType (pivotIndices test bars) := by
  rw [typedReactions_eq, typedReactions_eq, pivotIndices_window hlen, List.filterMap_map]
  congr 2
  funext i
  exact reactionAt_drop (by omega) zoneType i

variable [LinearOrder δ] {market : Text}

/-- A book with its own ATR series is a book with that series given. -/
theorem buildZoneBook_given (h : Chronological market .m15 bars) (hne : bars ≠ [])
    (minimumTick : ℚ) : buildZoneBook sha256 bars minimumTick
      = buildZoneBook sha256 bars minimumTick (some (atrValues bars)) 0 := by
  have hser : wilderAtr14Series bars = .ok (atrValues bars) := by
    unfold wilderAtr14Series
    rw [(h.validate hne).2]
    rfl
  unfold buildZoneBook
  simp only [givenOr, hser]

theorem qualifiedReactions_window (hlen : bars.length = off + 98) (hatr : atr.length = bars.length)
    (h : Chronological market .m15 bars) : qualifiedReactions sha256 (bars.drop off) (some (atr.drop off)) off
      = qualifiedReactions sha256 bars (some atr) 0 := by
  have hne : bars ≠ [] := List.ne_nil_of_length_pos (by omega)
  have hne' : bars.drop off ≠ [] := List.ne_nil_of_length_pos (by rw [List.length_drop]; omega)
  have hdrop := @Chronological.right market .m15 (bars.take off) _ (by rw [List.take_append_drop]; exact h)
  unfold qualifiedReactions
  simp only [givenOr, causalPivotHighIndices, causalPivotLowIndices, (h.validate hne).2,
    (hdrop.validate hne').2, bind, Except.bind, pure, Except.pure, List.length_drop, hatr,
    typedReactions_window hlen, ne_eq, not_true_eq_false, if_false]

theorem assembleBook_window (hlen : bars.length = off + 98) (hatr : atr.length = bars.length)
    (h : Chronological market .m15 bars) (minimumTick a15 : ℚ) {first first' : Bar} (current : Bar)
    (hfst : first'.marketId = first.marketId) :
    assembleBook sha256 (bars.drop off) minimumTick (atr.drop off) off a15 first' current
      = assembleBook sha256 bars minimumTick atr 0 a15 first current := by
  unfold assembleBook
  rw [qualifiedReactions_window hlen hatr h, hfst, List.length_drop,
    show off + (bars.length - off) - 1 = 0 + bars.length - 1 by omega]

/-- **The zone book of the last 98 bars**, with the offset of the window, is the
book of the whole history. -/
theorem buildZoneBook_window (h : Chronological market .m15 bars) (hne : bars ≠ []) (minimumTick : ℚ) :
    buildZoneBook sha256 (lastN 98 bars) minimumTick (some (lastN 98 (atrValues bars)))
        (bars.length - (lastN 98 bars).length) = buildZoneBook sha256 bars minimumTick := by
  rw [buildZoneBook_given h hne]
  have hatr := length_atrValues bars
  rcases Nat.lt_or_ge 98 bars.length with hlong | hsh
  · obtain ⟨off, hlen⟩ : ∃ off, bars.length = off + 98 := ⟨bars.length - 98, by omega⟩
    have hwin : lastN 98 bars = bars.drop off := by
      rw [lastN_eq_drop, hlen, Nat.add_sub_cancel]
    have hwin' : lastN 98 (atrValues bars) = (atrValues bars).drop off := by
      rw [lastN_eq_drop, hatr, hlen, Nat.add_sub_cancel]
    have hchr := hwin ▸ h.lastN 98
    have hne' : bars.drop off ≠ [] :=
    List.ne_nil_of_length_pos (by rw [List.length_drop]; omega)
    have hlast : (bars.drop off).getLast? = bars.getLast? := by
      rw [← hwin, getLast?_lastN (by decide)]
    have hlast' : ((atrValues bars).drop off).getLast? = (atrValues bars).getLast? := by
      rw [← hwin', getLast?_lastN (by decide)]
    obtain ⟨first, hfst⟩ : ∃ first, bars.head? = some first :=
      Option.ne_none_iff_exists'.mp (by simpa using hne)
    obtain ⟨first', hfst'⟩ : ∃ first', (bars.drop off).head? = some first' :=
      Option.ne_none_iff_exists'.mp (by simpa using hne')
    have hmkt : first'.marketId = first.marketId := (hchr.bar first' (List.mem_of_head? hfst')).1.trans
        (h.bar first (List.mem_of_head? hfst)).1.symm
    rw [hwin, hwin', show bars.length - (bars.drop off).length = off by
      rw [List.length_drop]; omega]
    unfold buildZoneBook
    simp only [(h.validate hne).1, (hchr.validate hne').1, givenOr, bind, Except.bind, hlast,
      hlast', hfst, hfst', List.length_drop, hatr, ne_eq, not_true_eq_false, if_false]
    split
    · rfl
    · rcases (atrValues bars).getLast?.join with - | a15
      · rfl
      · rcases bars.getLast? with - | current
        · rfl
        · exact assembleBook_window hlen hatr h minimumTick a15 current hmkt
  · rw [lastN_eq_self hsh, lastN_eq_self (by omega), Nat.sub_self]

end Zones

/-! ### The range test of a window -/

theorem atrValues_getLast (hseed : PositiveSeed bars) :
    (atrValues bars).getLast?.join = atrValue bars := by
  rcases bars.eq_nil_or_concat with rfl | ⟨bars, b, rfl⟩
  · rfl
  · rw [List.concat_eq_append] at hseed ⊢
    rw [atrValues_snoc hseed]
    simp

theorem wilderAtr14_eq {market : Text} {interval : Interval}
    (h : Chronological market interval bars) (hseed : PositiveSeed bars)
    (hlen : 15 ≤ bars.length) : wilderAtr14 bars = .ok (atrNow bars) := by
  have hne : bars ≠ [] := List.ne_nil_of_length_pos (by omega)
  have hlast := atrValues_getLast hseed
  rw [atrValue, if_neg (by omega)] at hlast
  have hsome := Option.join_eq_some_iff.mp hlast
  unfold wilderAtr14 wilderAtr14Series
  rw [(h.validate hne).2]
  simp only [bind, Except.bind, pure, Except.pure, hsome]

section Windows

variable {market : Text} {interval : Interval} {bars : List Bar} {n : ℕ}

theorem directionalEfficiency8_window (h : Chronological market interval bars)
    (hn : 9 ≤ n) (hlen : 9 ≤ bars.length) :
    directionalEfficiency8 (lastN n bars) = directionalEfficiency8 bars := by
  have hne : bars ≠ [] := List.ne_nil_of_length_pos (by omega)
  have hne' : lastN n bars ≠ [] := List.ne_nil_of_length_pos (by rw [length_lastN]; omega)
  unfold directionalEfficiency8
  simp only [(h.validate hne).2, ((h.lastN n).validate hne').2, bind, Except.bind, length_lastN,
    if_neg (show ¬ min n bars.length < 9 by omega), if_neg (show ¬ bars.length < 9 by omega),
    lastN_lastN hn]

theorem move8_window (hn : 9 ≤ n) : move8 (lastN n bars) = move8 bars := by
  simp only [move8, lastN_lastN hn]

theorem directionalMove8_window (h : Chronological market interval bars)
    (hn : 9 ≤ n) (hlen : 9 ≤ bars.length) (atr : ℚ) :
    directionalMove8 (lastN n bars) atr = directionalMove8 bars atr := by
  have hne : bars ≠ [] := List.ne_nil_of_length_pos (by omega)
  have hne' : lastN n bars ≠ [] := List.ne_nil_of_length_pos (by rw [length_lastN]; omega)
  unfold directionalMove8
  simp only [(h.validate hne).2, ((h.lastN n).validate hne').2, bind, Except.bind, length_lastN,
    show ¬ min n bars.length < 9 by omega, show ¬ bars.length < 9 by omega, false_or,
    move8_window hn]

/-- **The range test reads only the last nine bars**, once the ATR is known. -/
theorem rangeValid_window {δ : Type} (support resistance : Option (ZoneSnapshot δ))
    (h : Chronological market interval bars) (hseed : PositiveSeed bars)
    (hn : 15 ≤ n) (hlen : 15 ≤ bars.length) :
    rangeValid support resistance (lastN n bars) (some (atrNow bars))
      = rangeValid support resistance bars none := by
  unfold rangeValid
  simp only [length_lastN, if_neg (show ¬ min n bars.length < 15 by omega),
    if_neg (show ¬ bars.length < 15 by omega), givenOr, wilderAtr14_eq h hseed hlen,
    directionalEfficiency8_window h (show 9 ≤ n by omega) (show 9 ≤ bars.length by omega),
    move8_window (show 9 ≤ n by omega), lastN_lastN (show 8 ≤ n by omega)]

end Windows

/-! ### The hourly context of a window -/

/-- The prices at the pivots of a history. -/
def pivotPrices (test : Bar → Bar → Bar → Bool) (price : Bar → ℚ) (bars : List Bar) : List ℚ :=
  (pivotIndices test bars).filterMap fun i => bars[i]?.map price

variable {test : Bar → Bar → Bar → Bool}

theorem pivotAt_append {b : Bar} {i : ℕ} (hi : i + 1 < bars.length) :
    pivotAt test (bars ++ [b]) i = pivotAt test bars i := by
  unfold pivotAt
  rw [List.getElem?_append_left (by omega), List.getElem?_append_left (by omega),
    List.getElem?_append_left hi]

variable {price : Bar → ℚ}

/-- A new bar makes the one before it a pivot or not. -/
theorem pivotPrices_snoc {left pivot b : Bar} :
    pivotPrices test price (bars ++ [left, pivot] ++ [b]) = pivotPrices test price (bars ++ [left, pivot])
        ++ if test left pivot b then [price pivot] else [] := by
  have hat : pivotAt test (bars ++ [left, pivot] ++ [b]) (1 + bars.length) = test left pivot b := by
    have h2 : (bars ++ [left, pivot] ++ [b])[1 + bars.length + 1]? = some b := by
      rw [List.getElem?_append_right (by simp <;> omega)]
      simp [show 1 + bars.length + 1 - (bars.length + 2) = 0 by omega]
    unfold pivotAt
    rw [h2]
    simp [Nat.add_comm 1 bars.length]
  have hold : ∀ i ∈ List.range' 1 bars.length,
      pivotAt test (bars ++ [left, pivot] ++ [b]) i = pivotAt test (bars ++ [left, pivot]) i := by
    intro i hi
    have := List.mem_range'_1.mp hi
    exact pivotAt_append (by simp; omega)
  simp only [pivotPrices, pivotIndices, List.length_append, List.length_cons, List.length_nil,
    Nat.zero_add, Nat.add_sub_cancel, Nat.reduceAdd]
  rw [show bars.length + 2 + 1 - 2 = bars.length + 1 by omega, List.range'_1_concat,
    List.filter_append, List.filterMap_append, List.filter_congr hold]
  congr 1
  · refine List.filterMap_congr fun i hi => ?_
    have := List.mem_range'_1.mp (List.mem_of_mem_filter hi)
    rw [List.getElem?_append_left (by simp; omega)]
  · rw [List.filter_singleton, hat]
    cases test left pivot b <;>
      simp [Nat.add_comm 1 bars.length, List.getElem?_append]

theorem pivotPrices_short (h : bars.length ≤ 2) : pivotPrices test price bars = [] := by
  simp [pivotPrices, pivotIndices, Nat.sub_eq_zero_of_le h]

/-- The last two pivots are kept up by looking at the last two bars. -/
theorem pivotsAfter_eq {b : Bar} {n : ℕ} (hn : 2 ≤ n) :
    IncrementalStrategyState.pivotsAfter test price (lastN n bars) b (lastN 2 (pivotPrices test price bars))
      = lastN 2 (pivotPrices test price (bars ++ [b])) := by
  unfold IncrementalStrategyState.pivotsAfter
  rw [lastN_lastN hn]
  rcases bars.eq_nil_or_concat with rfl | ⟨bars, pivot, rfl⟩
  · rfl
  · rcases bars.eq_nil_or_concat with rfl | ⟨bars, left, rfl⟩
    · rfl
    · have hlist : (bars.concat left).concat pivot = bars ++ [left, pivot] := by simp
      rw [hlist, lastN_append (by simp), pivotPrices_snoc]
      simp only [List.length_cons, List.length_nil, Nat.reduceAdd, Nat.sub_self]
      rw [show lastN 0 bars = [] by simp [lastN]]
      simp only [List.nil_append]
      split_ifs
      · rw [lastN_snoc (by decide)]
      · simp

/-- **The hourly context** of the last ten bars and the last two pivots of each
kind is the context of the whole history. -/
theorem htfContext_window {δ : Type} {market : Text}
    {s : IncrementalStrategyState δ} (h : Chronological market .h1 bars)
    (hseed : PositiveSeed bars) (hatr : s.atr1h.value = atrValue bars)
    (htotal : s.total1h = bars.length) (hbars : s.bars1h = lastN 10 bars)
    (hhighs : s.pivotHighs1h = lastN 2 (pivotPrices isPivotHigh Bar.high bars))
    (hlows : s.pivotLows1h = lastN 2 (pivotPrices isPivotLow Bar.low bars)) :
    s.htfContextOf = htfContext bars := by
  unfold IncrementalStrategyState.htfContextOf htfContext
  rw [hatr, htotal, hbars, hhighs, hlows]
  by_cases hne : bars = []
  · subst hne
    rfl
  · have hser : wilderAtr14Series bars = .ok (atrValues bars) := by
      unfold wilderAtr14Series
      rw [(h.validate hne).2]
      rfl
    rw [if_neg hne, (h.validate hne).1, hser]
    simp only [bind, Except.bind, atrValues_getLast hseed, causalPivotHighIndices,
      causalPivotLowIndices, (h.validate hne).2, pure, Except.pure]
    by_cases hlen : bars.length < 15
    · simp only [atrValue, if_pos hlen]
    · simp only [atrValue, if_neg hlen, length_lastN,
        if_neg (show ¬ (bars.length < 15 ∨ min 10 bars.length < 9) by omega),
        if_neg (show ¬ bars.length < 9 by omega),
        directionalEfficiency8_window h (show 9 ≤ 10 by decide) (show 9 ≤ bars.length by omega),
        directionalMove8_window h (show 9 ≤ 10 by decide) (show 9 ≤ bars.length by omega),
        pivotStructure, lastN_lastN (le_refl 2)]
      rfl

end TraderAssist
