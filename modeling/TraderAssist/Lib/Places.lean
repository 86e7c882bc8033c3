/-
TraderAssist/Lib/Places.lean

Values with finitely many decimal places or significant figures.

A value with at most `s` figures that reaches `10 ^ a` is a multiple of `10 ^ (a - s + 1)`
(`Figures.onGrid`), so rounding down to that place is rounding down to `s` figures.
-/
import TraderAssist.Lib.Decimal

namespace Py

variable {a e f s : ℤ} {x y : ℚ}

/-- A multiple of `10 ^ e`. -/
def OnGrid (e : ℤ) (x : ℚ) : Prop := ∃ n : ℤ, x = n * pow10 e

/-- At most `s` significant figures. -/
def Figures (s : ℤ) (x : ℚ) : Prop := ∃ (n : ℕ) (e : ℤ), (n : ℚ) < pow10 s ∧ x = n * pow10 e

/-- The greatest multiple of `10 ^ e` that is not above the value. -/
def floorTo (e : ℤ) (x : ℚ) : ℚ := ⌊x / pow10 e⌋ * pow10 e

theorem OnGrid.finer (hx : OnGrid f x) (h : e ≤ f) : OnGrid e x := by
  obtain ⟨n, rfl⟩ := hx
  refine ⟨n * 10 ^ (f - e).toNat, ?_⟩
  have hpow : pow10 f = (10 ^ (f - e).toNat : ℕ) * pow10 e := by
    rw [← pow10_natCast, ← pow10_add, Int.toNat_of_nonneg (by omega), sub_add_cancel]
  rw [hpow]
  push_cast
  ring

theorem onGrid_zero_iff : OnGrid 0 x ↔ x.den = 1 := by
  simp only [OnGrid, pow10_zero, mul_one]
  exact ⟨fun ⟨n, h⟩ => h ▸ Rat.den_intCast n, fun h => ⟨x.num, (Rat.coe_int_num_of_den_eq_one h).symm⟩⟩

theorem onGrid_pow10 (h : e ≤ a) : OnGrid e (pow10 a) :=
  OnGrid.finer ⟨1, by simp⟩ h

/-- Points of a grid are a step apart. -/
theorem OnGrid.add_le (hx : OnGrid e x) (hy : OnGrid e y) (h : x < y) : x + pow10 e ≤ y := by
  obtain ⟨m, rfl⟩ := hx
  obtain ⟨n, rfl⟩ := hy
  have hmn : m + 1 ≤ n := by exact_mod_cast lt_of_mul_lt_mul_right h (pow10_pos e).le
  calc (m : ℚ) * pow10 e + pow10 e = ((m + 1 : ℤ) : ℚ) * pow10 e := by push_cast; ring
    _ ≤ n * pow10 e := mul_le_mul_of_nonneg_right (by exact_mod_cast hmn) (pow10_pos e).le

theorem OnGrid.pow10_le (hx : OnGrid e x) (h : 0 < x) : pow10 e ≤ x := by
  simpa using OnGrid.add_le ⟨0, by simp⟩ hx h

theorem onGrid_floorTo : OnGrid e (floorTo e x) := ⟨_, rfl⟩

theorem floorTo_le : floorTo e x ≤ x :=
  (le_div_iff₀ (pow10_pos e)).mp (Int.floor_le _)

theorem OnGrid.le_floorTo (hy : OnGrid e y) (h : y ≤ x) : y ≤ floorTo e x := by
  obtain ⟨n, rfl⟩ := hy
  have hn : n ≤ ⌊x / pow10 e⌋ := Int.le_floor.mpr ((le_div_iff₀ (pow10_pos e)).mpr h)
  exact mul_le_mul_of_nonneg_right (by exact_mod_cast hn) (pow10_pos e).le

theorem OnGrid.floorTo_eq (hx : OnGrid e x) : floorTo e x = x :=
  floorTo_le.antisymm (hx.le_floorTo le_rfl)

/-- Rounded up at that place. -/
def ceilTo (e : ℤ) (x : ℚ) : ℚ := ⌈x / pow10 e⌉ * pow10 e

theorem onGrid_ceilTo : OnGrid e (ceilTo e x) := ⟨_, rfl⟩

theorem le_ceilTo : x ≤ ceilTo e x := (div_le_iff₀ (pow10_pos e)).mp (Int.le_ceil _)

theorem OnGrid.ceilTo_le (hy : OnGrid e y) (h : x ≤ y) : ceilTo e x ≤ y := by
  obtain ⟨n, rfl⟩ := hy
  have hn := Int.ceil_le.mpr ((div_le_iff₀ (pow10_pos e)).mpr h)
  exact mul_le_mul_of_nonneg_right (by exact_mod_cast hn) (pow10_pos e).le

theorem floorTo_floorTo (h : e ≤ f) : floorTo f (floorTo e x) = floorTo f x := by
  refine (onGrid_floorTo.le_floorTo (floorTo_le.trans floorTo_le)).antisymm ?_
  exact onGrid_floorTo.le_floorTo ((onGrid_floorTo.finer h).le_floorTo floorTo_le)

/-- A value with few figures lies on the grid of its magnitude. -/
theorem Figures.onGrid (hx : Figures s x) (ha : pow10 a ≤ x) : OnGrid (a - s + 1) x := by
  obtain ⟨n, e, hn, rfl⟩ := hx
  have hlt : pow10 a < pow10 (s + e) := by
    calc pow10 a ≤ n * pow10 e := ha
      _ < pow10 s * pow10 e := mul_lt_mul_of_pos_right hn (pow10_pos e)
      _ = pow10 (s + e) := (pow10_add s e).symm
  have := pow10_lt_iff.mp hlt
  exact OnGrid.finer ⟨n, by simp⟩ (by omega : a - s + 1 ≤ e)

theorem OnGrid.figures (hx : OnGrid e x) (hpos : 0 ≤ x) (h : x < pow10 (s + e)) : Figures s x := by
  obtain ⟨n, rfl⟩ := hx
  have hn : 0 ≤ n := by exact_mod_cast nonneg_of_mul_nonneg_left hpos (pow10_pos e)
  lift n to ℕ using hn
  rw [pow10_add] at h
  exact ⟨n, e, by exact_mod_cast lt_of_mul_lt_mul_right h (pow10_pos e).le, by simp⟩

end Py
