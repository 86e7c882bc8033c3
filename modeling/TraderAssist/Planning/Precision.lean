/-
TraderAssist/Planning/Precision.lean

Legal prices of the provider: the rounding of `planning.py` and `RegistryMarket.tick_round`,
and `minimum_tick`.

An integer is always legal.  Both roundings cut it to the significant figures all the same
once it has more of them (`round_provider_perp_price_iff`), and `minimum_tick` steps to the
next integer even where there is room for decimals (`minimum_tick_iff`).  The bridge of the
catalog looks for the other neighbour of a value on the grid that `tick_round` keeps
(`price_grid_neighbours`).
-/
import TraderAssist.Lib.Places
import TraderAssist.Lib.Rounding
import TraderAssist.Planning.Plan

namespace TraderAssist

open Py

/-! ### Prices of the provider -/

/-- `RegistryMarket.tick_round`, with the limits of the market and the default rounding. -/
def tickRound (price : ℚ) (priceMaxDecimals priceMaxSignificantFigures : ℤ) :
    Except PlanningError ℚ := do
  require (0 < price) .pricePrecision
  let decimalLimited ← quantizeDown price (-priceMaxDecimals)
  let significantQuantum := adjusted decimalLimited - priceMaxSignificantFigures + 1
  quantizeDown decimalLimited (max (-priceMaxDecimals) significantQuantum)

/-- `minimum_tick`. -/
def minimumTick (price : ℚ) (maxDecimals significantFigures : ℤ) : Except PlanningError ℚ := do
  require (0 < price) .pricePrecision
  require (0 ≤ maxDecimals ∧ 0 < significantFigures) .pricePrecision
  if price.den = 1 then pure 1
  else pure (max (pow10 (-maxDecimals)) (pow10 (adjusted price - significantFigures + 1)))

/-- The rule of the provider: an integer, or few enough decimals and figures. -/
def LegalPrice (maxDecimals significantFigures : ℤ) (price : ℚ) : Prop :=
  0 < price ∧ (price.den = 1 ∨ OnGrid (-maxDecimals) price ∧ Figures significantFigures price)

/-- The last place that a price of this magnitude may use. -/
def place (maxDecimals significantFigures : ℤ) (price : ℚ) : ℤ :=
  max (-maxDecimals) (adjusted price - significantFigures + 1)

variable {d s e a : ℤ} {v p q : ℚ}

theorem adjusted_spec (hv : 0 < v) : pow10 (adjusted v) ≤ v ∧ v < pow10 (adjusted v + 1) := by
  obtain ⟨-, hnum, hratio⟩ := ctxRound_of_pos hv
  have hden : (0 : ℚ) < v.den := by exact_mod_cast v.den_pos
  obtain ⟨hlo, hhi⟩ := magnitude_spec hnum v.den_ne_zero
  constructor
  · exact ((le_div_iff₀ hden).mpr hlo).trans_eq hratio.symm
  · exact hratio.trans_lt ((div_lt_iff₀ hden).mpr hhi)

theorem adjusted_unique (hlo : pow10 a ≤ v) (hhi : v < pow10 (a + 1)) : adjusted v = a := by
  obtain ⟨hlo', hhi'⟩ := adjusted_spec ((pow10_pos a).trans_le hlo)
  have := pow10_lt_iff.mp (hlo.trans_lt hhi')
  have := pow10_lt_iff.mp (hlo'.trans_lt hhi)
  omega

theorem le_adjusted (h : pow10 e ≤ v) : e ≤ adjusted v := by
  have := pow10_lt_iff.mp (h.trans_lt (adjusted_spec ((pow10_pos e).trans_le h)).2)
  omega

/-- Rounding down keeps the magnitude. -/
theorem adjusted_floorTo (h : e ≤ adjusted v) (hv : 0 < v) : adjusted (floorTo e v) = adjusted v := by
  obtain ⟨hlo, hhi⟩ := adjusted_spec hv
  exact adjusted_unique ((onGrid_pow10 h).le_floorTo hlo) (floorTo_le.trans_lt hhi)

theorem quantizeDown_eq (hv : 0 < v) :
    quantizeDown v e = if v < pow10 (28 + e) then .ok (floorTo e v) else .error .invalidOperation := by
  have hfloor : 0 ≤ ⌊v / pow10 e⌋ := Int.floor_nonneg.mpr (div_pos hv (pow10_pos e)).le
  have hdigits : 10 ^ ctxPrec ≤ ⌊v / pow10 e⌋.toNat ↔ ¬v < pow10 (28 + e) := by
    rw [not_lt, pow10_add, ← le_div_iff₀ (pow10_pos e), show pow10 28 = ((10 ^ 28 : ℤ) : ℚ) from rfl,
      ← Int.le_floor, ctxPrec]
    omega
  have hcast : (⌊v / pow10 e⌋.toNat : ℚ) = ⌊v / pow10 e⌋ := by
    exact_mod_cast Int.toNat_of_nonneg hfloor
  unfold quantizeDown
  simp only [abs_of_pos hv, hdigits, ite_not, if_neg hv.not_gt, hcast, floorTo]

/-- A price of the same magnitude with few decimals and figures uses no later place. -/
theorem onGrid_place (hp : OnGrid (-d) p) (hf : Figures s p) (hle : pow10 (adjusted v) ≤ p) :
    OnGrid (place d s v) p := by
  rcases max_choice (-d) (adjusted v - s + 1) with h | h
  · rw [place, h]
    exact hp
  · rw [place, h]
    exact hf.onGrid hle

theorem pow10_place : max (pow10 (-d)) (pow10 (adjusted v - s + 1)) = pow10 (place d s v) :=
  (Monotone.map_max fun _ _ => pow10_le_pow10).symm

/-- At the last place there are few enough figures, up to the next power of ten. -/
theorem figures_of_place (hs : 0 < s) (h : OnGrid (place d s v) p) (hpos : 0 ≤ p)
    (hle : p ≤ pow10 (adjusted v + 1)) : Figures s p := by
  rcases hle.eq_or_lt with heq | hlt
  · exact ⟨1, adjusted v + 1, by simpa using pow10_lt_iff.mpr hs, by simpa using heq⟩
  · refine h.figures hpos (hlt.trans_le (pow10_le_pow10 ?_))
    unfold place
    omega

section Rounding

variable (hs : 0 < s) (hv : pow10 (-d) ≤ v)
include hs hv

theorem place_le : place d s v ≤ adjusted v := by
  have := le_adjusted hv
  unfold place
  omega

theorem pow10_le_floorTo_place : pow10 (adjusted v) ≤ floorTo (place d s v) v :=
  (onGrid_pow10 (place_le hs hv)).le_floorTo (adjusted_spec ((pow10_pos _).trans_le hv)).1

theorem figures_floorTo_place : Figures s (floorTo (place d s v) v) :=
  figures_of_place hs onGrid_floorTo ((pow10_pos _).trans_le (pow10_le_floorTo_place hs hv)).le
    (floorTo_le.trans (adjusted_spec ((pow10_pos _).trans_le hv)).2.le)

omit hs hv in
theorem onGrid_floorTo_place : OnGrid (-d) (floorTo (place d s v) v) :=
  onGrid_floorTo.finer (le_max_left _ _)

omit hs in
/-- `tick_round` rounds down at the last place. -/
theorem tickRound_eq : tickRound v d s =
    if v < pow10 (28 - d) then .ok (floorTo (place d s v) v) else .error .invalidOperation := by
  have hpos := (pow10_pos _).trans_le hv
  have hlimited : 0 < floorTo (-d) v := (pow10_pos _).trans_le ((onGrid_pow10 le_rfl).le_floorTo hv)
  unfold tickRound
  simp only [require, if_pos hpos, quantizeDown_eq hpos, ← sub_eq_add_neg]
  split_ifs with hsmall
  · have hroom : floorTo (-d) v < pow10 (28 + place d s v) :=
      (floorTo_le.trans_lt hsmall).trans_le (pow10_le_pow10 (by unfold place; omega))
    show quantizeDown (floorTo (-d) v) (max (-d) (adjusted (floorTo (-d) v) - s + 1)) = _
    rw [adjusted_floorTo (le_adjusted hv) hpos, ← place, quantizeDown_eq hlimited, if_pos hroom,
      floorTo_floorTo (show -d ≤ place d s v from le_max_left _ _)]
  · rfl

/-- `round_provider_perp_price` does the same, except at integers. -/
theorem roundProviderPerpPrice_eq (hd : 0 ≤ d) : roundProviderPerpPrice v d s =
    if (floorTo (-d) v).den = 1 ∧ v < pow10 (28 - d) then .ok (floorTo (-d) v)
    else tickRound v d s := by
  have hpos := (pow10_pos _).trans_le hv
  unfold roundProviderPerpPrice tickRound
  simp only [require, if_pos (show 0 < v ∧ 0 ≤ d ∧ 0 < s from ⟨hpos, hd, hs⟩), if_pos hpos,
    quantizeDown_eq hpos, ← sub_eq_add_neg]
  by_cases hsmall : v < pow10 (28 - d)
  · simp only [hsmall, and_true]
    rfl
  · simp only [hsmall, and_false]
    rfl

/-- A price with few decimals and figures is not above the rounded value. -/
theorem le_floorTo_place (hp : OnGrid (-d) p) (hf : Figures s p) (hle : p ≤ v) :
    p ≤ floorTo (place d s v) v := by
  rcases lt_or_ge p (pow10 (adjusted v)) with hlt | hge
  · exact hlt.le.trans (pow10_le_floorTo_place hs hv)
  · exact (onGrid_place hp hf hge).le_floorTo hle

/-- A rounded value is left as it is. -/
theorem roundProviderPerpPrice_self (hd : 0 ≤ d) (hsmall : v < pow10 (28 - d)) :
    roundProviderPerpPrice (floorTo (place d s v) v) d s = .ok (floorTo (place d s v) v) := by
  have hv' := (pow10_le_pow10 (le_adjusted hv)).trans (pow10_le_floorTo_place hs hv)
  have hsmall' := floorTo_le.trans_lt hsmall (a := floorTo (place d s v) v)
  have hplace : place d s (floorTo (place d s v) v) = place d s v := by
    rw [place, adjusted_floorTo (place_le hs hv) ((pow10_pos _).trans_le hv), ← place]
  rw [roundProviderPerpPrice_eq hs hv' hd, tickRound_eq hv', if_pos hsmall', hplace,
    onGrid_floorTo.floorTo_eq, onGrid_floorTo_place.floorTo_eq, ite_self]

end Rounding

/-- **When prices are rounded to the greatest legal one.**  Both functions return it, and
leave it as it is, exactly when the value fits the context and its integer part has few
enough figures. -/
theorem round_provider_perp_price_iff (hd : 0 ≤ d) (hs : 0 < s) (hv : pow10 (-d) ≤ v) :
    (∃ p, roundProviderPerpPrice v d s = .ok p ∧ IsGreatest {q | LegalPrice d s q ∧ q ≤ v} p ∧
      roundProviderPerpPrice p d s = .ok p ∧ tickRound v d s = .ok p) ↔
    v < pow10 (28 - d) ∧ Figures s ⌊v⌋ := by
  have hpos := (pow10_pos _).trans_le hv
  have hint : OnGrid 0 (⌊v⌋ : ℚ) := ⟨⌊v⌋, by simp⟩
  have hpart : ∀ {q : ℚ}, OnGrid 0 q → q ≤ v → q ≤ ⌊v⌋ := by
    rintro q ⟨n, rfl⟩ hle
    rw [pow10_zero, mul_one] at hle ⊢
    exact_mod_cast Int.le_floor.mpr hle
  constructor
  · rintro ⟨p, -, hmax, -, htick⟩
    rw [tickRound_eq hv] at htick
    split_ifs at htick with hsmall
    cases htick
    refine ⟨hsmall, ?_⟩
    rcases (Int.floor_nonneg.mpr hpos.le).eq_or_lt with hzero | hfloor
    · exact ⟨0, 0, by simpa using pow10_pos s, by simp [← hzero]⟩
    rcases le_or_gt 0 (place d s v) with hplace | hplace
    · -- the rounded value is an integer, so it is the integer part
      have hle := hmax.2 ⟨⟨by exact_mod_cast hfloor, .inl (onGrid_zero_iff.mp hint)⟩, Int.floor_le v⟩
      rw [hle.antisymm (hpart (onGrid_floorTo.finer hplace) floorTo_le)]
      exact figures_floorTo_place hs hv
    · refine hint.figures (by exact_mod_cast hfloor.le) ?_
      refine ((Int.floor_le v).trans_lt (adjusted_spec hpos).2).trans_le (pow10_le_pow10 ?_)
      unfold place at hplace
      omega
  · rintro ⟨hsmall, hfigures⟩
    have hrounded := (pow10_pos _).trans_le (pow10_le_floorTo_place hs hv)
    have hmax : IsGreatest {q | LegalPrice d s q ∧ q ≤ v} (floorTo (place d s v) v) := by
      refine ⟨⟨⟨hrounded, .inr ⟨onGrid_floorTo_place, figures_floorTo_place hs hv⟩⟩, floorTo_le⟩, ?_⟩
      rintro q ⟨⟨-, hq | ⟨hgrid, hq⟩⟩, hle⟩
      · exact (hpart (onGrid_zero_iff.mpr hq) hle).trans
          (le_floorTo_place hs hv (hint.finer (by omega)) hfigures (Int.floor_le v))
      · exact le_floorTo_place hs hv hgrid hq hle
    have htick : tickRound v d s = .ok (floorTo (place d s v) v) := by
      rw [tickRound_eq hv, if_pos hsmall]
    refine ⟨_, ?_, hmax, roundProviderPerpPrice_self hs hv hd hsmall, htick⟩
    rw [roundProviderPerpPrice_eq hs hv hd, htick]
    split_ifs with hden
    · -- an integer is legal, so it is the greatest legal price too
      have hle : floorTo (place d s v) v ≤ floorTo (-d) v := onGrid_floorTo_place.le_floorTo floorTo_le
      have hge := hmax.2 ⟨⟨hrounded.trans_le hle, .inl hden.1⟩, floorTo_le⟩
      rw [hle.antisymm hge]
    · rfl

/-- Above the figures of the provider's rule an integer part is cut, although it is legal. -/
theorem round_provider_perp_price_btc :
    roundProviderPerpPrice (1234567 / 10) 1 5 = .ok 123450 ∧
      LegalPrice 1 5 123456 ∧ (123450 : ℚ) < 123456 ∧ (123456 : ℚ) ≤ 1234567 / 10 := by
  refine ⟨by decide +kernel, ⟨by norm_num, .inl rfl⟩, by norm_num, by norm_num⟩

theorem round_provider_perp_price_eth :
    ∃ p, roundProviderPerpPrice (24681357 / 10000) 4 5 = .ok p ∧
      IsGreatest {q | LegalPrice 4 5 q ∧ q ≤ 24681357 / 10000} p ∧
      roundProviderPerpPrice p 4 5 = .ok p ∧ tickRound (24681357 / 10000) 4 5 = .ok p :=
  (round_provider_perp_price_iff (by norm_num) (by norm_num) (by decide +kernel)).mpr
    ⟨by decide +kernel, 2468, 0, by decide +kernel, by decide +kernel⟩

/-! ### Increments -/

/-- At an integer the next integer is the next legal price unless there is room for a decimal. -/
theorem integer_gap_iff (hd : 0 ≤ d) (hs : 0 < s) (hpos : 0 < p) (hp : OnGrid 0 p) :
    (∀ q, LegalPrice d s q → ¬(p < q ∧ q < p + 1)) ↔ d = 0 ∨ pow10 (s - 1) ≤ p := by
  constructor
  · intro hgap
    by_contra! hcon
    have hnext : p + 1 ≤ pow10 (s - 1) := by
      simpa using hp.add_le (onGrid_pow10 (by omega)) hcon.2
    have htenth : pow10 (-1) = 1 / 10 := by norm_num [pow10_eq]
    have hgrid : OnGrid (-1) (p + pow10 (-1)) := by
      obtain ⟨n, rfl⟩ := hp
      exact ⟨10 * n + 1, by rw [htenth, pow10_zero]; push_cast; ring⟩
    have hlegal : LegalPrice d s (p + pow10 (-1)) := by
      refine ⟨by linarith, .inr ⟨hgrid.finer (by omega), hgrid.figures (by linarith) ?_⟩⟩
      rw [← sub_eq_add_neg]
      linarith
    exact hgap _ hlegal ⟨by linarith, by linarith⟩
  · rintro hroom q ⟨-, hq⟩ ⟨hlt, hgt⟩
    have hgrid : OnGrid 0 q := by
      rcases hq with hq | ⟨hdecimals, hfigures⟩
      · exact onGrid_zero_iff.mpr hq
      · rcases hroom with rfl | hlarge
        · simpa using hdecimals
        · simpa using hfigures.onGrid (hlarge.trans hlt.le)
    have := hp.add_le hgrid hlt
    rw [pow10_zero] at this
    linarith

/-- Between integers the next legal price is one unit of the last place away. -/
theorem next_legal (hs : 0 < s) (hpos : 0 < p) (hgrid : OnGrid (-d) p) (hfigures : Figures s p)
    (hden : p.den ≠ 1) : LegalPrice d s (p + pow10 (place d s p)) ∧
      ∀ q, LegalPrice d s q → ¬(p < q ∧ q < p + pow10 (place d s p)) := by
  obtain ⟨hlo, hhi⟩ := adjusted_spec hpos
  have hplace : OnGrid (place d s p) p := onGrid_place hgrid hfigures hlo
  have hneg : place d s p < 0 := by
    by_contra! h
    exact hden (onGrid_zero_iff.mp (hplace.finer h))
  have hsum : OnGrid (place d s p) (p + pow10 (place d s p)) := by
    obtain ⟨n, hn⟩ := hplace
    exact ⟨n + 1, by push_cast; linarith⟩
  have hpos' := add_pos hpos (pow10_pos (place d s p))
  have hle := hplace.add_le (onGrid_pow10 ((place_le hs (hgrid.pow10_le hpos)).trans (by omega))) hhi
  constructor
  · exact ⟨hpos', .inr ⟨hsum.finer (le_max_left _ _), figures_of_place hs hsum hpos'.le hle⟩⟩
  · rintro q ⟨-, hq⟩ ⟨hlt, hgt⟩
    have hq : OnGrid (place d s p) q := by
      rcases hq with hq | ⟨hdecimals, hfigures⟩
      · exact (onGrid_zero_iff.mpr hq).finer hneg.le
      · exact onGrid_place hdecimals hfigures (hlo.trans hlt.le)
    exact absurd (hplace.add_le hq hlt) hgt.not_ge

/-- **When `minimum_tick` is the smallest legal increment**: except at an integer that leaves
room for a decimal. -/
theorem minimum_tick_iff (hd : 0 ≤ d) (hs : 0 < s) (hp : LegalPrice d s p) :
    (∃ tick, minimumTick p d s = .ok tick ∧ LegalPrice d s (p + tick) ∧
      ∀ q, LegalPrice d s q → ¬(p < q ∧ q < p + tick)) ↔
    p.den ≠ 1 ∨ d = 0 ∨ pow10 (s - 1) ≤ p := by
  obtain ⟨hpos, hrule⟩ := hp
  by_cases hden : p.den = 1
  · have htick : minimumTick p d s = .ok 1 := by
      simp only [minimumTick, require, hpos, hd, hs, hden, and_self, if_true]
      rfl
    have hnext : OnGrid 0 (p + 1) := by
      obtain ⟨n, hn⟩ := onGrid_zero_iff.mpr hden
      exact ⟨n + 1, by rw [hn]; simp⟩
    have hlegal : LegalPrice d s (p + 1) := ⟨by linarith, .inl (onGrid_zero_iff.mp hnext)⟩
    simp only [htick, Except.ok.injEq, exists_eq_left', hlegal, true_and, hden, ne_eq,
      not_true, false_or, integer_gap_iff hd hs hpos (onGrid_zero_iff.mpr hden)]
  · have htick : minimumTick p d s = .ok (pow10 (place d s p)) := by
      simp only [minimumTick, require, hpos, hd, hs, hden, and_self, if_true, if_false, pow10_place]
      rfl
    obtain ⟨hgrid, hfigures⟩ := hrule.resolve_left hden
    exact iff_of_true ⟨_, htick, next_legal hs hpos hgrid hfigures hden⟩ (.inl hden)

/-- At 100 the increment is one, and a legal price is skipped. -/
theorem minimum_tick_hundred : LegalPrice 2 5 100 ∧ minimumTick 100 2 5 = .ok 1 ∧
    LegalPrice 2 5 (10001 / 100) ∧ (100 : ℚ) < 10001 / 100 ∧ (10001 / 100 : ℚ) < 100 + 1 := by
  refine ⟨⟨by norm_num, .inl rfl⟩, rfl, ⟨by norm_num, .inr ⟨⟨10001, ?_⟩, 10001, -2, ?_, ?_⟩⟩,
    by norm_num, by norm_num⟩
  all_goals norm_num [pow10_eq]

theorem minimum_tick_btc : ∃ tick, minimumTick 98765 1 5 = .ok tick ∧
    LegalPrice 1 5 (98765 + tick) ∧
      ∀ q, LegalPrice 1 5 q → ¬(98765 < q ∧ q < 98765 + tick) :=
  (minimum_tick_iff (by norm_num) (by norm_num) ⟨by norm_num, .inl rfl⟩).mpr
    (.inr (.inr (by norm_num [pow10_eq])))

/-! ### Neighbours on the price grid -/

/-- `tick_round` in exact arithmetic, where no value is too long for the context. -/
def exactTickRound (price : ℚ) (priceMaxDecimals priceMaxSignificantFigures : ℤ) :
    Except PlanningError ℚ := do
  require (0 < price) .pricePrecision
  let decimalLimited := floorTo (-priceMaxDecimals) price
  let significantQuantum := adjusted decimalLimited - priceMaxSignificantFigures + 1
  pure (floorTo (max (-priceMaxDecimals) significantQuantum) decimalLimited)

/-- The loop of `_least_legal_price_at_or_above`; `none` if the fuel is spent. -/
def leastLegalLoop (value : ℚ) (d s : ℤ) : ℕ → ℚ → List ℚ → Option (Option ℚ)
  | 0, _, _ => none
  | fuel + 1, candidate, seenQuantums =>
    let basis := max value candidate
    let quantum := max (pow10 (-d)) (pow10 (adjusted basis - s + 1))
    if quantum ∈ seenQuantums then
      let integerCandidate : ℚ := ⌈value⌉
      some (if 0 < integerCandidate ∧ exactTickRound integerCandidate d s = .ok integerCandidate then
        some integerCandidate else none)
    else
      let candidate := ⌈value / quantum⌉ * quantum
      if 0 < candidate ∧ exactTickRound candidate d s = .ok candidate ∧ value ≤ candidate then
        some (some candidate)
      else leastLegalLoop value d s fuel candidate (quantum :: seenQuantums)

/-- `_least_legal_price_at_or_above`. -/
def leastLegalPriceAtOrAbove (fuel : ℕ) (value : ℚ) (d s : ℤ) :
    Except PlanningError (Option (Option ℚ)) := do
  let rounded ← exactTickRound value d s
  if rounded = value then pure (some (some value))
  else pure (leastLegalLoop value d s fuel rounded [])

theorem exactTickRound_eq (hv : pow10 (-d) ≤ v) :
    exactTickRound v d s = .ok (floorTo (place d s v) v) := by
  have hpos := (pow10_pos _).trans_le hv
  simp only [exactTickRound, require, if_pos hpos, adjusted_floorTo (le_adjusted hv) hpos,
    floorTo_floorTo (le_max_left _ _)]
  rfl

/-- The context of the code only refuses values that are too long. -/
theorem tickRound_eq_exact (hv : pow10 (-d) ≤ v) :
    tickRound v d s = if v < pow10 (28 - d) then exactTickRound v d s else .error .invalidOperation := by
  rw [tickRound_eq hv, exactTickRound_eq hv]

/-- Below the first decimal place nothing is left. -/
theorem le_of_exactTickRound (h : exactTickRound v d s = .ok p) (hp : 0 < p) : pow10 (-d) ≤ v := by
  cases (require_bind_ok.mp h).2
  exact (onGrid_floorTo.pow10_le (hp.trans_le floorTo_le)).trans floorTo_le

/-- The fixed points of `tick_round`. -/
theorem exactTickRound_self_iff (hs : 0 < s) :
    exactTickRound p d s = .ok p ↔ 0 < p ∧ OnGrid (-d) p ∧ Figures s p := by
  constructor
  · intro h
    have hpos := (require_bind_ok.mp h).1
    have hp := le_of_exactTickRound h hpos
    have heq : floorTo (place d s p) p = p := Except.ok.inj ((exactTickRound_eq hp).symm.trans h)
    exact ⟨hpos, heq ▸ onGrid_floorTo_place, heq ▸ figures_floorTo_place hs hp⟩
  · rintro ⟨hpos, hgrid, hfigures⟩
    rw [exactTickRound_eq (hgrid.pow10_le hpos),
      (onGrid_place hgrid hfigures (adjusted_spec hpos).1).floorTo_eq]

/-- The first round of the loop finds the next price on the grid of the value. -/
theorem leastLegalLoop_first (hs : 0 < s) (hv : pow10 (-d) ≤ v) (hp : p ≤ v) (fuel : ℕ) :
    leastLegalLoop v d s (fuel + 1) p [] = some (some (ceilTo (place d s v) v)) ∧
      exactTickRound (ceilTo (place d s v) v) d s = .ok (ceilTo (place d s v) v) := by
  have hpos := (pow10_pos _).trans_le hv
  have hceil := hpos.trans_le (le_ceilTo (e := place d s v))
  have hle := (onGrid_pow10 ((place_le hs hv).trans (by omega))).ceilTo_le (adjusted_spec hpos).2.le
  have hlegal := (exactTickRound_self_iff hs (d := d)).mpr ⟨hceil, onGrid_ceilTo.finer (le_max_left _ _),
    figures_of_place hs onGrid_ceilTo hceil.le hle⟩
  refine ⟨?_, hlegal⟩
  simp only [leastLegalLoop, max_eq_left hp, pow10_place, List.not_mem_nil, if_false]
  exact if_pos ⟨hceil, hlegal, le_ceilTo⟩

/-- **Neighbours on the price grid.**  Of the prices that `tick_round` keeps it returns the
greatest one not above the value, and the loop of `_least_legal_price_at_or_above` ends at the
least one not below. -/
theorem price_grid_neighbours (hs : 0 < s) (h : exactTickRound v d s = .ok p) (hp : 0 < p) :
    IsGreatest {q | exactTickRound q d s = .ok q ∧ q ≤ v} p ∧
    ∃ q fuel, (∀ n, fuel ≤ n → leastLegalPriceAtOrAbove n v d s = .ok (some (some q))) ∧
      IsLeast {q | exactTickRound q d s = .ok q ∧ v ≤ q} q ∧
      (p = q ↔ exactTickRound v d s = .ok v) := by
  have hv := le_of_exactTickRound h hp
  obtain rfl : floorTo (place d s v) v = p := Except.ok.inj ((exactTickRound_eq hv).symm.trans h)
  have hself := (exactTickRound_self_iff hs).mpr ⟨hp, onGrid_floorTo_place, figures_floorTo_place hs hv⟩
  have hgreatest : IsGreatest {q | exactTickRound q d s = .ok q ∧ q ≤ v} (floorTo (place d s v) v) := by
    refine ⟨⟨hself, floorTo_le⟩, ?_⟩
    rintro q ⟨hq, hle⟩
    obtain ⟨-, hgrid, hfigures⟩ := (exactTickRound_self_iff hs).mp hq
    exact le_floorTo_place hs hv hgrid hfigures hle
  refine ⟨hgreatest, ?_⟩
  by_cases heq : floorTo (place d s v) v = v
  · rw [heq] at h
    refine ⟨v, 0, fun n _ => ?_, ⟨⟨h, le_rfl⟩, fun q hq => hq.2⟩, iff_of_true heq h⟩
    simp only [leastLegalPriceAtOrAbove, h]
    exact if_pos rfl
  · have hloop := leastLegalLoop_first hs hv (floorTo_le (e := place d s v))
    refine ⟨ceilTo (place d s v) v, 1, fun n hn => ?_, ⟨⟨(hloop 0).2, le_ceilTo⟩, ?_⟩, ?_⟩
    · obtain ⟨n, rfl⟩ := Nat.exists_eq_add_of_le' hn
      simp only [leastLegalPriceAtOrAbove, h]
      exact (if_neg heq).trans (by rw [(hloop n).1]; rfl)
    · rintro q ⟨hq, hle⟩
      obtain ⟨-, hgrid, hfigures⟩ := (exactTickRound_self_iff hs).mp hq
      exact (onGrid_place hgrid hfigures ((adjusted_spec ((pow10_pos _).trans_le hv)).1.trans hle)).ceilTo_le hle
    · refine iff_of_false (fun hceil => heq ?_) fun hkeep => heq (Except.ok.inj (h.symm.trans hkeep))
      exact floorTo_le.antisymm (hceil ▸ le_ceilTo)

theorem price_grid_neighbours_eth :
    IsGreatest {q | exactTickRound q 4 5 = .ok q ∧ q ≤ 24681357 / 10000} (24681 / 10) ∧
    ∃ q fuel, (∀ n, fuel ≤ n → leastLegalPriceAtOrAbove n (24681357 / 10000) 4 5 = .ok (some (some q))) ∧
      IsLeast {q | exactTickRound q 4 5 = .ok q ∧ 24681357 / 10000 ≤ q} q ∧
      (24681 / 10 = q ↔ exactTickRound (24681357 / 10000) 4 5 = .ok (24681357 / 10000)) :=
  price_grid_neighbours (by decide) (by decide +kernel) (by norm_num)

end TraderAssist
