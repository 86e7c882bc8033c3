/-
TraderAssist/Kernel/Reactions.lean

The reactions of a growing series.

Two pivots of one kind are never neighbours, so no reaction replaces another and the reactions of
a type are those of its pivots, one by one (`typedReactions_pivots`).  A bar more can confirm a
pivot that was not confirmed, and moves the lookback on; it changes nothing else
(`reactions_never_repaint`).
-/
import Mathlib.Data.List.Find
import TraderAssist.Kernel.LedgerInvariant

namespace TraderAssist

open Py

variable {δ : Type} {sha256 : Preimage δ → δ} {bars : List Bar} {atr : List (Option ℚ)} {offset : ℕ}
  {zoneType : ZoneType}

/-! ### One reaction per pivot -/

/-- The reactions of a type, without the loop's skipping. -/
theorem typedReactions_eq (indexOffset : ℕ) (zoneType : ZoneType) (pivots : List ℕ) :
    typedReactions sha256 bars atr indexOffset zoneType pivots
      = ((pivots.filter fun i => lookbackStart bars ≤ i).filterMap
          (reactionAt sha256 bars atr indexOffset zoneType)).foldl (addReaction zoneType) [] := by
  unfold typedReactions
  rw [List.foldl_filterMap, List.foldl_filter]
  congr 1
  funext typed i
  by_cases hi : i < lookbackStart bars
  · rw [if_pos hi, if_neg (by simpa using hi)]
  · rw [if_neg hi, if_pos (by simpa using hi)]
    rcases reactionAt sha256 bars atr indexOffset zoneType i <;> rfl

/-- The price of a pivot. -/
def Bar.extreme (pivot : Bar) : ZoneType → ℚ
  | .high => pivot.high
  | .low => pivot.low

/-- A reaction says where its pivot is, and is confirmed by a later bar of the series. -/
theorem reactionAt_spec {i : ℕ} {r : Reaction δ} (h : reactionAt sha256 bars atr offset zoneType i = some r) :
    ∃ pivot a15 q, bars[i]? = some pivot ∧ atr[i + 1]?.join = some a15
      ∧ qualifyingIndex bars zoneType pivot i a15 = some q
      ∧ r = ⟨reactionId sha256 pivot.marketId zoneType pivot (offset + q), pivot.marketId, zoneType, offset + i,
        offset + q, pivot.extreme zoneType, a15⟩ := by
  unfold reactionAt at h
  simp only [Option.bind_eq_bind, Option.bind_eq_some_iff] at h
  obtain ⟨a15, ha15, pivot, hpivot, q, hq, hr⟩ := h
  refine ⟨pivot, a15, q, hpivot, ha15, hq, ?_⟩
  cases zoneType <;> exact (Option.some.inj hr).symm

theorem reactionAt_pivot {i : ℕ} {r : Reaction δ}
    (h : reactionAt sha256 bars atr offset zoneType i = some r) :
    r.pivotBarIndex = offset + i := by
  obtain ⟨pivot, a15, q, -, -, -, rfl⟩ := reactionAt_spec h
  rfl

/-- Reactions that are two bars apart are all kept. -/
theorem foldl_addReaction {typed more : List (Reaction δ)}
    (h : (typed ++ more).Pairwise fun a b => a.pivotBarIndex + 2 ≤ b.pivotBarIndex) :
    more.foldl (addReaction zoneType) typed = typed ++ more := by
  induction more generalizing typed with
  | nil => simp
  | cons r more ih =>
    have hadd : addReaction zoneType typed r = typed ++ [r] := by
      unfold addReaction
      rcases hlast : typed.getLast? with - | current
      · rw [List.getLast?_eq_none_iff.mp hlast]
        rfl
      · have hapart := (List.pairwise_append.mp h).2.2 current (List.mem_of_getLast? hlast) r (.head _)
        dsimp only
        rw [if_neg (by omega)]
    rw [List.foldl_cons, hadd, ih (by simpa using h)]
    simp

/-- The tests of a pivot fail for its neighbours. -/
def Apart2 (test : Bar → Bar → Bar → Bool) : Prop :=
  ∀ a b c d, test a b c = true → test b c d = false

theorem apart2_isPivotHigh : Apart2 isPivotHigh := by
  intro a b c d h
  simp only [isPivotHigh, decide_eq_true_eq, decide_eq_false_iff_not] at h ⊢
  exact fun h' => absurd h'.1 (not_lt.mpr h.2)

theorem apart2_isPivotLow : Apart2 isPivotLow := by
  intro a b c d h
  simp only [isPivotLow, decide_eq_true_eq, decide_eq_false_iff_not] at h ⊢
  exact fun h' => absurd h'.1 (not_lt.mpr h.2)

variable {test : Bar → Bar → Bar → Bool}

theorem pivotAt_succ (htest : Apart2 test) {i : ℕ} (h : pivotAt test bars i = true) :
    pivotAt test bars (i + 1) = false := by
  unfold pivotAt at h ⊢
  rw [Nat.add_sub_cancel]
  split at h
  · rename_i a b c ha hb hc
    rw [hb, hc]
    rcases bars[i + 1 + 1]? with - | d
    · rfl
    · exact htest a b c d h
  · cases h

theorem pivotIndices_apart (htest : Apart2 test) :
    (pivotIndices test bars).Pairwise fun i j => i + 2 ≤ j := by
  have hsrt : (pivotIndices test bars).Pairwise (· < ·) := (List.pairwise_lt_range' ..).filter _
  refine hsrt.imp_of_mem fun {i j} hi hj hlt => ?_
  obtain ⟨-, hi⟩ := List.mem_filter.mp hi
  have hnot := pivotAt_succ htest hi
  rcases Nat.lt_or_ge (i + 1) j with h | h
  · exact h
  · obtain rfl : j = i + 1 := by omega
    rw [(List.mem_filter.mp hj).2] at hnot
    cases hnot

/-- **The reactions of a type are those of its pivots.** -/
theorem typedReactions_pivots (htest : Apart2 test) (indexOffset : ℕ) :
    typedReactions sha256 bars atr indexOffset zoneType (pivotIndices test bars)
      = ((pivotIndices test bars).filter fun i => lookbackStart bars ≤ i).filterMap
          (reactionAt sha256 bars atr indexOffset zoneType) := by
  rw [typedReactions_eq]
  refine foldl_addReaction ?_
  refine List.Pairwise.filterMap _ (fun i j hij r hr r' hr' => ?_) ((pivotIndices_apart htest).filter _)
  rw [reactionAt_pivot hr, reactionAt_pivot hr']
  omega

/-- What a valid series with a value for every bar returns. -/
theorem qualifiedReactions_valid [LinearOrder δ] (sha256 : Preimage δ → δ)
    (hval : validateSeries bars = .ok ())
    (hlen : atr.length = bars.length) (indexOffset : ℕ) :
    qualifiedReactions sha256 bars (some atr) indexOffset = .ok (sortBy Reaction.sortKey
      (typedReactions sha256 bars atr indexOffset .high (pivotIndices isPivotHigh bars)
        ++ typedReactions sha256 bars atr indexOffset .low (pivotIndices isPivotLow bars))) := by
  unfold qualifiedReactions causalPivotHighIndices causalPivotLowIndices
  simp only [givenOr, hval]
  change (if atr.length ≠ bars.length then _ else _) = _
  rw [if_neg (not_not.mpr hlen)]
  rfl

/-! ### A bar more -/

theorem length_atrTail (current : ℚ) (ranges : List ℚ) : (atrTail current ranges).length = ranges.length := by
  induction ranges generalizing current with
  | nil => rfl
  | cons x ranges ih => simp [atrTail, ih]

theorem length_trueRanges (bars : List Bar) : (trueRanges bars).length = bars.length - 1 := by
  simp [trueRanges]

theorem length_atrValues (bars : List Bar) : (atrValues bars).length = bars.length := by
  unfold atrValues
  split_ifs with hsh
  · simp
  · simp
  · have := length_trueRanges bars
    simp only [List.length_append, List.length_replicate, List.length_cons, length_atrTail,
      List.length_drop]
    omega

/-- The first bars of a valid series are one, of the interval of its first bar. -/
theorem validateFrom_take {market : Text} {interval : Interval} (m : ℕ) {previous : Option ℕ} :
    validateFrom market interval previous bars = .ok () → validateFrom market interval previous (bars.take m) = .ok () := by
  induction bars generalizing m previous with
  | nil => simp
  | cons b bars ih =>
    intro h
    cases m with
    | zero => rfl
    | succ m =>
      rw [List.take_succ_cons]
      unfold validateFrom at h ⊢
      split at h
      · cases h
      split at h
      · cases h
      split at h
      · cases h
      rename_i hident hal hgap
      rw [if_neg hident, if_neg hal, if_neg hgap]
      exact ih m h

theorem validateSeries_take {interval : Interval} (h : validateSeries bars (some interval) = .ok ()) {m : ℕ}
    (hm : 1 ≤ m) : validateSeries (bars.take m) = .ok () := by
  cases bars with
  | nil => cases h
  | cons b bars =>
    change validateFrom b.marketId interval none (b :: bars) = .ok () at h
    have hiv : b.interval = interval := by
      unfold validateFrom at h
      split at h
      · cases h
      · rename_i hident
        rw [not_or] at hident
        exact not_not.mp hident.2
    obtain ⟨m, rfl⟩ : ∃ k, m = k + 1 := ⟨m - 1, by omega⟩
    have htake := validateFrom_take (m + 1) h
    change validateFrom b.marketId b.interval none (b :: bars.take m) = .ok ()
    rw [hiv]
    exact htake

section More

variable {n : ℕ} {test : Bar → Bar → Bar → Bool}

theorem pivotAt_take {i : ℕ} (h : i + 1 < n) :
    pivotAt test (bars.take n) i = pivotAt test (bars.take (n + 1)) i := by
  unfold pivotAt
  simp only [List.getElem?_take]
  rw [if_pos (by omega), if_pos (by omega), if_pos h, if_pos (by omega), if_pos (by omega), if_pos (by omega)]

/-- The pivots of a series that is one bar longer. -/
theorem pivotIndices_take_succ (test : Bar → Bar → Bar → Bool) (hn : n + 1 ≤ bars.length) :
    ∃ last, (∀ i ∈ last, n - 1 ≤ i)
      ∧ pivotIndices test (bars.take (n + 1)) = pivotIndices test (bars.take n) ++ last := by
  unfold pivotIndices
  rw [List.length_take, List.length_take, min_eq_left hn, min_eq_left (by omega)]
  refine ⟨(List.range' (1 + (n - 2)) (n + 1 - 2 - (n - 2))).filter (pivotAt test (bars.take (n + 1))),
    fun i hi => ?_, ?_⟩
  · have := (List.mem_range'_1.mp (List.mem_filter.mp hi).1).1
    omega
  · have hspl : List.range' 1 (n + 1 - 2) = List.range' 1 (n - 2)
        ++ List.range' (1 + (n - 2)) (n + 1 - 2 - (n - 2)) := by
      rw [List.range'_append_1]
      congr 1
      omega
    rw [hspl, List.filter_append]
    congr 1
    refine List.filter_congr fun i hi => (pivotAt_take ?_).symm
    have := List.mem_range'_1.mp hi
    omega

theorem mem_qualifyingIndex {pivot : Bar} {i q : ℕ} {a15 : ℚ}
    (h : qualifyingIndex bars zoneType pivot i a15 = some q) : i < q ∧ q < bars.length := by
  have hmem := List.mem_range'_1.mp (List.mem_of_find?_eq_some h)
  omega

/-- A bar more finds the same confirmation, or one at that bar. -/
theorem qualifyingIndex_take_succ (hn : n + 1 ≤ bars.length) {pivot : Bar} {i : ℕ} {a15 : ℚ}
    (hi : i + 1 < n) :
    (qualifyingIndex (bars.take (n + 1)) zoneType pivot i a15).filter (fun q => decide (q < n))
      = qualifyingIndex (bars.take n) zoneType pivot i a15 := by
  unfold qualifyingIndex
  rw [List.length_take, List.length_take, min_eq_left hn, min_eq_left (by omega : n ≤ bars.length)]
  have hspl : List.range' (i + 1) (min (i + 5) (n + 1) - (i + 1))
      = List.range' (i + 1) (min (i + 5) n - (i + 1))
        ++ List.range' (min (i + 5) n) (min (i + 5) (n + 1) - min (i + 5) n) := by
    have happend : List.range' (i + 1) (min (i + 5) n - (i + 1))
          ++ List.range' (i + 1 + (min (i + 5) n - (i + 1))) (min (i + 5) (n + 1) - min (i + 5) n)
        = List.range' (i + 1) (min (i + 5) n - (i + 1) + (min (i + 5) (n + 1) - min (i + 5) n)) :=
      List.range'_append_1
    rw [show i + 1 + (min (i + 5) n - (i + 1)) = min (i + 5) n by omega,
      show min (i + 5) n - (i + 1) + (min (i + 5) (n + 1) - min (i + 5) n) = min (i + 5) (n + 1) - (i + 1) by omega]
      at happend
    exact happend.symm
  have hmove : ∀ q, q < n → ((bars.take (n + 1)).drop (i + 1)).take (q - i) = ((bars.take n).drop (i + 1)).take (q - i) := by
    intro q hq
    rw [List.drop_take, List.drop_take, List.take_take, List.take_take, min_eq_left (by omega), min_eq_left (by omega)]
  have herl : (List.range' (i + 1) (min (i + 5) n - (i + 1))).find? (fun index =>
        (moveAway zoneType pivot (((bars.take (n + 1)).drop (i + 1)).take (index - i))).any
          fun move => decide (cmul (1 / 2) a15 ≤ move))
      = (List.range' (i + 1) (min (i + 5) n - (i + 1))).find? fun index =>
        (moveAway zoneType pivot (((bars.take n).drop (i + 1)).take (index - i))).any
          fun move => decide (cmul (1 / 2) a15 ≤ move) := by
    refine List.find?_congr fun q hq => ?_
    have := List.mem_range'_1.mp hq
    rw [hmove q (by omega)]
  rw [hspl, List.find?_append, herl]
  rcases hfnd : (List.range' (i + 1) (min (i + 5) n - (i + 1))).find? (fun index =>
      (moveAway zoneType pivot (((bars.take n).drop (i + 1)).take (index - i))).any
        fun move => decide (cmul (1 / 2) a15 ≤ move)) with - | q
  · rw [Option.filter_eq_none_iff]
    intro q hq
    have := List.mem_range'_1.mp (List.mem_of_find?_eq_some hq)
    simp only [decide_eq_true_eq]
    omega
  · have := List.mem_range'_1.mp (List.mem_of_find?_eq_some hfnd)
    rw [Option.some_or, Option.filter_some, if_pos (decide_eq_true (by omega))]

/-- **One pivot**, with a bar more. -/
theorem reactionAt_take_succ (hn : n + 1 ≤ bars.length) {i : ℕ} (hi : i + 1 < n) :
    (reactionAt sha256 (bars.take (n + 1)) (atr.take (n + 1)) 0 zoneType i).filter
        (fun r => decide (r.confirmedBarIndex < n))
      = reactionAt sha256 (bars.take n) (atr.take n) 0 zoneType i := by
  unfold reactionAt
  simp only [List.getElem?_take, if_pos hi, if_pos (show i + 1 < n + 1 by omega), if_pos (show i < n by omega),
    if_pos (show i < n + 1 by omega)]
  rcases atr[i + 1]?.join with - | a15
  · rfl
  rcases bars[i]? with - | pivot
  · rfl
  have hsame := @qualifyingIndex_take_succ bars zoneType n hn pivot i a15 hi
  simp only [Option.bind_eq_bind, Option.bind_some]
  rw [← hsame]
  rcases qualifyingIndex (bars.take (n + 1)) zoneType pivot i a15 with - | q
  · rfl
  · simp only [Option.bind_some, Option.filter_some, Nat.zero_add, decide_eq_true_eq]
    split <;> rfl

/-- The reactions of one type. -/
theorem typedReactions_take_succ (htest : Apart2 test)
    (hn : n + 1 ≤ bars.length)
    (hpos : 1 ≤ n) : (typedReactions sha256 (bars.take (n + 1)) (atr.take (n + 1)) 0 zoneType
        (pivotIndices test (bars.take (n + 1)))).filter (fun r => decide (r.confirmedBarIndex < n))
      = (typedReactions sha256 (bars.take n) (atr.take n) 0 zoneType (pivotIndices test (bars.take n))).filter
            fun r => decide (lookbackStart (bars.take (n + 1)) ≤ r.pivotBarIndex) := by
  have hbeg : lookbackStart (bars.take n) ≤ lookbackStart (bars.take (n + 1)) := by
    unfold lookbackStart
    rw [List.length_take, List.length_take]
    omega
  rw [typedReactions_pivots htest, typedReactions_pivots htest, List.filter_filterMap, List.filter_filterMap]
  obtain ⟨last, hlast, hpivots⟩ := pivotIndices_take_succ test hn
  rw [hpivots, List.filter_append, List.filterMap_append]
  -- the last pivot is confirmed by the last bar at the earliest
  have hnone : (last.filter fun i => decide (lookbackStart (bars.take (n + 1)) ≤ i)).filterMap (fun i =>
      (reactionAt sha256 (bars.take (n + 1)) (atr.take (n + 1)) 0 zoneType i).filter
        fun r => decide (r.confirmedBarIndex < n)) = [] := by
    refine List.filterMap_eq_nil_iff.mpr fun i hi => Option.filter_eq_none_iff.mpr fun r hr => ?_
    obtain ⟨pivot, a15, q, -, -, hq, rfl⟩ := reactionAt_spec hr
    have := (mem_qualifyingIndex hq).1
    have := hlast i (List.mem_filter.mp hi).1
    simp only [decide_eq_true_eq]
    omega
  rw [hnone, List.append_nil]
  -- an early pivot has the reaction it had
  have hpivot : ∀ i ∈ pivotIndices test (bars.take n), i + 1 < n := by
    intro i hi
    have hmem := List.mem_range'_1.mp (List.mem_filter.mp hi).1
    rw [List.length_take] at hmem
    omega
  have hflt : ∀ i, (reactionAt sha256 (bars.take n) (atr.take n) 0 zoneType i).filter
        (fun r => decide (lookbackStart (bars.take (n + 1)) ≤ r.pivotBarIndex))
      = if lookbackStart (bars.take (n + 1)) ≤ i then reactionAt sha256 (bars.take n) (atr.take n) 0 zoneType i
        else none := by
    intro i
    rcases hr : reactionAt sha256 (bars.take n) (atr.take n) 0 zoneType i with - | r
    · simp
    · rw [Option.filter_some, reactionAt_pivot hr]
      simp
  rw [List.filterMap_filter, List.filterMap_filter]
  refine List.filterMap_congr fun i hi => ?_
  rw [reactionAt_take_succ hn (hpivot i hi), hflt]
  by_cases hlate : lookbackStart (bars.take (n + 1)) ≤ i
  · rw [if_pos (decide_eq_true hlate), if_pos (decide_eq_true (hbeg.trans hlate)), if_pos hlate]
  · rw [if_neg (by simpa using hlate), if_neg hlate, ite_self]

/-- **Reactions never repaint.**  The reactions of a series that were confirmed before its last bar
are the reactions it had without that bar, up to the pivots that have left the lookback, with all
that a reaction says. -/
theorem reactions_never_repaint [LinearOrder δ] (sha256 : Preimage δ → δ) {bars : List Bar}
    {atr : List (Option ℚ)}
    (hvalid : validateSeries bars (some .m15) = .ok ()) (hatr : wilderAtr14Series bars = .ok atr) {n : ℕ}
    (hpos : 1 ≤ n) (hn : n + 1 ≤ bars.length) :
    ∃ before after, qualifiedReactions sha256 (bars.take n) (some (atr.take n)) 0 = .ok before
      ∧ qualifiedReactions sha256 (bars.take (n + 1)) (some (atr.take (n + 1))) 0 = .ok after
      ∧ after.filter (fun r => decide (r.confirmedBarIndex ≤ n - 1))
        = before.filter fun r => decide (lookbackStart (bars.take (n + 1)) ≤ r.pivotBarIndex) := by
  have hlength : atr.length = bars.length := by
    obtain ⟨-, -, hvalues⟩ := of_bind hatr
    cases hvalues
    exact length_atrValues bars
  have hreturns := fun m (hm : 1 ≤ m) => qualifiedReactions_valid sha256 (validateSeries_take hvalid hm)
    (show (atr.take m).length = _ by rw [List.length_take, List.length_take, hlength]) 0
  refine ⟨_, _, hreturns n hpos, hreturns (n + 1) (by omega), ?_⟩
  have hconfirmed : (fun r : Reaction δ => decide (r.confirmedBarIndex ≤ n - 1))
      = fun r => decide (r.confirmedBarIndex < n) := by
    funext r
    exact decide_eq_decide.mpr ⟨fun h => by omega, fun h => by omega⟩
  rw [hconfirmed, sortBy_filter, sortBy_filter, List.filter_append, List.filter_append,
    typedReactions_take_succ apart2_isPivotHigh hn hpos, typedReactions_take_succ apart2_isPivotLow hn hpos]

end More

/-- Quarter hours that swing between 100 and 104 and close at 102. -/
def waveBar (k : ℕ) : Bar := swingAt .m15 100 k

/-- The twentieth bar confirms a high beside the low that was there. -/
theorem reactions_never_repaint_wave :
    let bars := (List.range 20).map waveBar
    validateSeries bars (some .m15) = .ok () ∧ wilderAtr14Series bars = .ok (atrValues bars)
      ∧ (qualifiedReactions Digest.nested bars none 0).toOption.map
          (fun reactions => reactions.map fun r => (r.zoneType, r.pivotBarIndex, r.confirmedBarIndex))
        = some [(.low, 15, 16), (.high, 18, 19)]
      ∧ ∃ before after,
        qualifiedReactions Digest.nested (bars.take 19) (some ((atrValues bars).take 19)) 0 = .ok before
          ∧ qualifiedReactions Digest.nested (bars.take 20) (some ((atrValues bars).take 20)) 0 = .ok after
          ∧ after.filter (fun r => decide (r.confirmedBarIndex ≤ 18))
            = before.filter fun r => decide (lookbackStart (bars.take 20) ≤ r.pivotBarIndex) := by
  have hvalid : validateSeries ((List.range 20).map waveBar) (some .m15) = .ok () := by decide +kernel
  have hatr : wilderAtr14Series ((List.range 20).map waveBar)
      = .ok (atrValues ((List.range 20).map waveBar)) := by decide +kernel
  exact ⟨hvalid, hatr, by decide +kernel, reactions_never_repaint Digest.nested hvalid hatr (by decide) (by decide)⟩

end TraderAssist
