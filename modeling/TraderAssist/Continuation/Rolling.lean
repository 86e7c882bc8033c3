/-
TraderAssist/Continuation/Rolling.lean

The rolling ATR beside `wilder_atr14_series`.

Both seed with the mean of the first fourteen true ranges and go on by Wilder's recursion, but
the series reports nothing at all where the seed is not positive, and the rolling ATR reports a
zero.  The seed is positive where the market moves in its first fifteen bars (`Moves`).
-/
import TraderAssist.Continuation.Window
import TraderAssist.Kernel.Identity

namespace TraderAssist

open Py

/-! ### The values of a rolling ATR -/

/-- What ingesting bars one by one returns. -/
def RollingAtr.values (a : RollingAtr) : List Bar → Except ContinuationError (List (Option ℚ))
  | [] => .ok []
  | bar :: bars => do
    let next ← a.ingest bar
    let rest ← next.values bars
    pure (next.value :: rest)

variable {bars : List Bar}

/-- **Every value is that of the bars so far.** -/
theorem RollingOf.values {a : RollingAtr} (h : RollingOf bars a) (more : List Bar) :
    a.values more = .ok ((List.range more.length).map fun i => atrValue (bars ++ more.take (i + 1))) := by
  induction more generalizing bars a with
  | nil => rfl
  | cons b more ih =>
    obtain ⟨next, hnext, hof⟩ := h.ingest b
    unfold RollingAtr.values
    rw [hnext]
    show (do let rest ← next.values more; pure (next.value :: rest) : Except _ _) = _
    rw [ih hof, List.length_cons, List.range_succ_eq_map, hof.value]
    simp [Function.comp_def]

/-- The series, value by value, where its seed is positive. -/
theorem atrValues_eq (hseed : PositiveSeed bars) :
    atrValues bars = (List.range bars.length).map fun i => atrValue (bars.take (i + 1)) := by
  induction bars using List.reverseRecOn with
  | nil => rfl
  | append_singleton bars b ih =>
    rw [atrValues_snoc hseed, ih hseed.left, List.length_append, List.length_singleton, List.range_succ,
      List.map_append, List.map_singleton]
    congr 1
    · refine List.map_congr_left fun i hi => ?_
      rw [List.take_append_of_le_length (List.mem_range.mp hi)]
    · rw [List.take_of_length_le (by simp)]

/-! ### Markets that move -/

/-- In its first fifteen bars the market leaves the close of the first one. -/
def Moves (bars : List Bar) : Prop :=
  ∃ first ∈ bars.head?, ∃ b ∈ (bars.take 15).tail, b.low ≠ first.close ∨ b.high ≠ first.close

instance (bars : List Bar) : Decidable (Moves bars) :=
  match bars with
  | [] => .isFalse fun ⟨_, h, _⟩ => by cases h
  | first :: rest =>
    decidable_of_iff (∃ b ∈ ((first :: rest).take 15).tail, b.low ≠ first.close ∨ b.high ≠ first.close)
      ⟨fun h => ⟨first, rfl, h⟩, fun ⟨_, hfirst, h⟩ => Option.some.inj hfirst ▸ h⟩

theorem csub_eq_zero {x y : ℚ} : csub x y = 0 ↔ x = y := by
  constructor
  · intro h
    unfold csub at h
    by_contra hne
    rcases lt_or_gt_of_ne (sub_ne_zero.mpr hne) with hneg | hpos
    · have := ctxRound_pos (neg_pos.mpr hneg)
      rw [ctxRound_neg, h] at this
      simp at this
    · exact absurd h (ctxRound_pos hpos).ne'
  · rintro rfl
    unfold csub
    rw [sub_self, ctxRound_zero]

theorem cabs_eq_zero {x : ℚ} : cabs x = 0 ↔ x = 0 := by
  constructor
  · intro h
    by_contra hne
    exact absurd h (ctxRound_pos (abs_pos.mpr hne)).ne'
  · rintro rfl
    unfold cabs
    rw [abs_zero, ctxRound_zero]

/-- A bar has no range where it stays at the close before it. -/
theorem trueRange_eq_zero {b : Bar} {previousClose : ℚ} :
    trueRange b previousClose = 0 ↔ b.low = previousClose ∧ b.high = previousClose := by
  unfold trueRange
  constructor
  · intro h
    have hhigh := h ▸ (le_max_right _ _).trans (le_max_left _ _)
    have hlow := h ▸ le_max_right _ _
    exact ⟨csub_eq_zero.mp (cabs_eq_zero.mp (le_antisymm hlow (cabs_nonneg _))),
      csub_eq_zero.mp (cabs_eq_zero.mp (le_antisymm hhigh (cabs_nonneg _)))⟩
  · rintro ⟨hlow, hhigh⟩
    rw [hlow, hhigh, csub_eq_zero.mpr rfl, cabs_eq_zero.mpr rfl]
    simp

/-- All bars after the first stay at its close where no bar has a range. -/
theorem trueRanges_eq_zero {first : Bar} {rest : List Bar} :
    (∀ x ∈ trueRanges (first :: rest), x = 0) ↔ ∀ b ∈ rest, b.low = first.close ∧ b.high = first.close := by
  induction rest generalizing first with
  | nil => simp [trueRanges]
  | cons b rest ih =>
    have hcons : trueRanges (first :: b :: rest) = trueRange b first.close :: trueRanges (b :: rest) := rfl
    rw [hcons, List.forall_mem_cons, List.forall_mem_cons, trueRange_eq_zero, ih]
    refine and_congr_right fun hb => ?_
    have hcl : b.close = first.close := le_antisymm (hb.2 ▸ b.close_le_high) (hb.1 ▸ b.low_le_close)
    rw [hcl]

theorem csum_eq_zero {l : List ℚ} (h : ∀ x ∈ l, 0 ≤ x) : csum l = 0 ↔ ∀ x ∈ l, x = 0 := by
  induction l using List.reverseRecOn with
  | nil => simp [csum]
  | append_singleton l x ih =>
    have hl : ∀ y ∈ l, 0 ≤ y := fun y hy => h y (List.mem_append_left _ hy)
    have hsum := csum_nonneg hl
    have hx := h x (by simp)
    rw [csum_snoc]
    constructor
    · intro hzero
      have hboth : csum l = 0 ∧ x = 0 := by
        by_contra hne
        have : 0 < csum l + x := by
          rcases hsum.lt_or_eq with hpos | heq
          · exact add_pos_of_pos_of_nonneg hpos hx
          · refine add_pos_of_nonneg_of_pos hsum (lt_of_le_of_ne hx fun h0 => hne ⟨heq.symm, h0.symm⟩)
        exact absurd hzero (ctxRound_pos this).ne'
      exact forall_mem_snoc ((ih hl).mp hboth.1) hboth.2
    · intro hall
      rw [(ih hl).mpr fun y hy => hall y (List.mem_append_left _ hy), hall x (by simp)]
      unfold cadd
      rw [add_zero, ctxRound_zero]

/-- **The seed is positive where the market moves.** -/
theorem atrSeed_pos_iff : 0 < atrSeed bars ↔ Moves bars := by
  have htake : (trueRanges bars).take 14 = trueRanges (bars.take 15) := by
    refine List.ext_getElem ?_ fun i hi hi' => ?_
    · simp only [List.length_take, length_trueRanges]
      omega
    · simp [trueRanges]
  have hnn : ∀ x ∈ trueRanges (bars.take 15), 0 ≤ x := trueRanges_nonneg
  have hsum : 0 < atrSeed bars ↔ csum (trueRanges (bars.take 15)) ≠ 0 := by
    unfold atrSeed
    rw [htake]
    constructor
    · intro hpos hzero
      rw [hzero] at hpos
      simp [cdiv] at hpos
    · intro hne
      exact cdiv_pos (lt_of_le_of_ne (csum_nonneg hnn) (Ne.symm hne)) (by norm_num)
  rw [hsum, Ne, csum_eq_zero hnn]
  cases bars with
  | nil => simp [Moves, trueRanges]
  | cons first rest =>
    rw [List.take_succ_cons, trueRanges_eq_zero]
    simp only [Moves, List.head?_cons, Option.mem_some_iff, exists_eq_left', List.take_succ_cons, List.tail_cons]
    rw [not_forall]
    refine exists_congr fun b => ?_
    rw [Classical.not_imp, not_and_or]

/-! ### The two forms of the ATR -/

/-- **Rolling and batch ATR agree**, value by value, exactly where there are fewer than fifteen
bars or the market moves in the first fifteen. -/
theorem rolling_atr_values_eq_series (hvalid : validateSeries bars = .ok ()) :
    (∃ values, RollingAtr.values {} bars = .ok values ∧ wilderAtr14Series bars = .ok values)
      ↔ bars.length < 15 ∨ Moves bars := by
  have hrolling := RollingOf.nil.values bars
  simp only [List.nil_append] at hrolling
  have hseries : wilderAtr14Series bars = .ok (atrValues bars) := by
    unfold wilderAtr14Series
    rw [hvalid]
    rfl
  rw [hrolling, hseries]
  constructor
  · rintro ⟨values, hvalues, hsame⟩
    rw [or_iff_not_imp_left]
    intro hlong
    rw [← atrSeed_pos_iff]
    by_contra hseed
    -- with a seed of zero the series has no value for the fifteenth bar
    have hequal := (Except.ok.inj hsame).trans (Except.ok.inj hvalues).symm
    unfold atrValues at hequal
    rw [if_neg hlong, if_pos (not_lt.mp hseed)] at hequal
    have hfifteenth := congrArg (fun l => l[14]?) hequal
    simp only [List.getElem?_replicate, List.getElem?_map] at hfifteenth
    rw [List.getElem?_range (by omega)] at hfifteenth
    simp [atrValue, show ¬ bars.length < 15 from hlong] at hfifteenth
  · intro hmoves
    have hseed : PositiveSeed bars := fun hlong =>
      atrSeed_pos_iff.mpr (hmoves.resolve_left (not_lt.mpr hlong))
    exact ⟨_, rfl, by rw [atrValues_eq hseed]⟩

/-- A market that stands still: the rolling ATR is zero at the fifteenth bar, where the series
has nothing. -/
theorem still_market_rolls_zero :
    let bars := (List.range 15).map fun k => centBar .m5 (k * 300000) 10000 10000 10000 10000 100 (by decide)
    validateSeries bars = .ok ()
      ∧ RollingAtr.values {} bars = .ok (List.replicate 14 none ++ [some 0])
      ∧ wilderAtr14Series bars = .ok (List.replicate 15 none) := by
  decide +kernel

/-- A market that swings. -/
theorem rolling_atr_values_eq_series_swing :
    let bars := (List.range 20).map swingBar
    validateSeries bars = .ok () ∧ Moves bars
      ∧ ∃ values, RollingAtr.values {} bars = .ok values ∧ wilderAtr14Series bars = .ok values := by
  have hvalid : validateSeries ((List.range 20).map swingBar) = .ok () := by decide +kernel
  have hmoves : Moves ((List.range 20).map swingBar) := by decide +kernel
  exact ⟨hvalid, hmoves, (rolling_atr_values_eq_series hvalid).mpr (.inr hmoves)⟩

end TraderAssist
