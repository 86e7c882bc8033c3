/-
TraderAssist/Lib/Rounding.lean

Context rounding keeps the order of values.

Rounding to an integer keeps the order because the result is nearest: two values in the
wrong order would have to coincide at the tie between them.  Rounding to 28 digits does it
at one place of the decimal expansion; values with different leading digits stay on the
two sides of a power of ten.
-/
import TraderAssist.Lib.Decimal

namespace Py

variable {a b c d : ℕ}

/-- The nearest integer is at most one half away. -/
theorem divHalfEven_near (hb : 0 < b) :
    2 * (divHalfEven a b * b) ≤ 2 * a + b ∧ 2 * a ≤ 2 * (divHalfEven a b * b) + b := by
  have hdiv : b * (a / b) + a % b = a := Nat.div_add_mod a b
  have hmod : a % b < b := Nat.mod_lt a hb
  have hmul : a / b * b = b * (a / b) := mul_comm _ _
  have hsucc : (a / b + 1) * b = b * (a / b) + b := by ring
  unfold divHalfEven
  dsimp only
  split_ifs
  · omega
  · omega
  · omega
  · omega

theorem divHalfEven_mono (hb : 0 < b) (hd : 0 < d) (h : a * d ≤ c * b) :
    divHalfEven a b ≤ divHalfEven c d := by
  by_contra hlt
  rw [not_le] at hlt
  have hup := Nat.mul_le_mul_right d (divHalfEven_near (a := a) hb).1
  have hdown := Nat.mul_le_mul_right b (divHalfEven_near (a := c) hd).2
  have hstep : (divHalfEven c d + 1) * (b * d) ≤ divHalfEven a b * (b * d) := Nat.mul_le_mul_right _ hlt
  -- the two values meet at the tie, so they are one value
  have heq : a * d = c * b := by
    refine h.antisymm ?_
    ring_nf at hup hdown hstep h ⊢
    omega
  have hcongr : divHalfEven a b = divHalfEven c d := divHalfEven_congr hb hd (by exact_mod_cast heq)
  omega

/-- The coefficient of a value that lies at or below an integer multiple of the quantum. -/
theorem scaled_le {e : ℤ} {n : ℕ} (hb : 0 < b) (h : (a : ℚ) ≤ n * (pow10 e * b)) : scaled a b e ≤ n := by
  rw [← divHalfEven_one n]
  refine divHalfEven_mono (by positivity) one_pos ?_
  have hpos : (0 : ℚ) < (10 ^ (-e).toNat : ℕ) := by positivity
  have hq : ((a * 10 ^ (-e).toNat * 1 : ℕ) : ℚ) ≤ (n * (b * 10 ^ e.toNat) : ℕ) := by
    calc ((a * 10 ^ (-e).toNat * 1 : ℕ) : ℚ) = a * (10 ^ (-e).toNat : ℕ) := by push_cast; ring
      _ ≤ n * (pow10 e * b) * (10 ^ (-e).toNat : ℕ) := mul_le_mul_of_nonneg_right h hpos.le
      _ = n * (b * (pow10 e * (10 ^ (-e).toNat : ℕ))) := by ring
      _ = (n * (b * 10 ^ e.toNat) : ℕ) := by rw [← toNat_pow_eq]; push_cast; ring
  exact_mod_cast hq

theorem le_scaled {e : ℤ} {n : ℕ} (hb : 0 < b) (h : (n : ℚ) * (pow10 e * b) ≤ a) : n ≤ scaled a b e := by
  rw [← divHalfEven_one n]
  refine divHalfEven_mono one_pos (by positivity) ?_
  have hq : pow10 e * ((n * b : ℕ) : ℚ) ≤ a := by
    push_cast
    linarith
  calc n * (b * 10 ^ e.toNat) = 10 ^ e.toNat * (n * b) := by ring
    _ ≤ a * 10 ^ (-e).toNat := (toNat_pow_mul_le_iff e).mpr hq
    _ = a * 10 ^ (-e).toNat * 1 := (mul_one _).symm

/-- A rounded value stays between the powers of ten around it. -/
theorem roundRatio_mem (ha : a ≠ 0) (hb : b ≠ 0) :
    pow10 (magnitude a b) ≤ roundRatio a b ∧ roundRatio a b ≤ pow10 (magnitude a b + 1) := by
  obtain ⟨hlo, hhi⟩ := magnitude_spec ha hb
  have hpos := pow10_pos (quantum a b)
  have hm : pow10 (magnitude a b) = (10 ^ 27 : ℕ) * pow10 (quantum a b) := by
    rw [← pow10_natCast, ← pow10_add]
    congr 1
    simp only [quantum, ctxPrec]
    omega
  have hm' : pow10 (magnitude a b + 1) = (10 ^ 28 : ℕ) * pow10 (quantum a b) := by
    rw [← pow10_natCast, ← pow10_add]
    congr 1
    simp only [quantum, ctxPrec]
    omega
  rw [hm, hm']
  constructor
  · refine mul_le_mul_of_nonneg_right ?_ hpos.le
    exact_mod_cast le_scaled (Nat.pos_of_ne_zero hb) (by rw [← mul_assoc, ← hm]; exact hlo)
  · refine mul_le_mul_of_nonneg_right ?_ hpos.le
    exact_mod_cast scaled_le (Nat.pos_of_ne_zero hb) (by rw [← mul_assoc, ← hm']; exact hhi.le)

theorem magnitude_mono (ha : a ≠ 0) (hb : b ≠ 0) (hc : c ≠ 0) (hd : d ≠ 0) (h : a * d ≤ c * b) :
    magnitude a b ≤ magnitude c d := by
  have hlo := (magnitude_spec ha hb).1
  have hhi := (magnitude_spec hc hd).2
  have hb' : (0 : ℚ) < b := by positivity
  have hd' : (0 : ℚ) < d := by positivity
  have hq : (a : ℚ) * d ≤ c * b := by exact_mod_cast h
  have hlt : pow10 (magnitude a b) * (b * d) < pow10 (magnitude c d + 1) * (b * d) := by
    calc pow10 (magnitude a b) * (b * d) = pow10 (magnitude a b) * b * d := by ring
      _ ≤ a * d := mul_le_mul_of_nonneg_right hlo hd'.le
      _ ≤ c * b := hq
      _ < pow10 (magnitude c d + 1) * d * b := mul_lt_mul_of_pos_right hhi hb'
      _ = pow10 (magnitude c d + 1) * (b * d) := by ring
  have := pow10_lt_iff.mp (lt_of_mul_lt_mul_right hlt (by positivity))
  omega

theorem roundRatio_mono (ha : a ≠ 0) (hb : b ≠ 0) (hc : c ≠ 0) (hd : d ≠ 0) (h : a * d ≤ c * b) :
    roundRatio a b ≤ roundRatio c d := by
  rcases (magnitude_mono ha hb hc hd h).eq_or_lt with heq | hlt
  · -- one place of the expansion
    have hquantum : quantum a b = quantum c d := by rw [quantum, quantum, heq]
    rw [roundRatio, hquantum]
    refine mul_le_mul_of_nonneg_right ?_ (pow10_pos _).le
    have hscal : scaled a b (quantum c d) ≤ scaled c d (quantum c d) := by
      refine divHalfEven_mono (by positivity) (by positivity) ?_
      calc a * 10 ^ (-quantum c d).toNat * (d * 10 ^ (quantum c d).toNat)
          = a * d * (10 ^ (-quantum c d).toNat * 10 ^ (quantum c d).toNat) := by ring
        _ ≤ c * b * (10 ^ (-quantum c d).toNat * 10 ^ (quantum c d).toNat) := Nat.mul_le_mul_right _ h
        _ = c * 10 ^ (-quantum c d).toNat * (b * 10 ^ (quantum c d).toNat) := by ring
    exact_mod_cast hscal
  · calc roundRatio a b ≤ pow10 (magnitude a b + 1) := (roundRatio_mem ha hb).2
      _ ≤ pow10 (magnitude c d) := pow10_le_pow10 hlt
      _ ≤ roundRatio c d := (roundRatio_mem hc hd).1

/-- A positive value and its rounding, as a ratio of naturals. -/
theorem ctxRound_of_pos {x : ℚ} (hx : 0 < x) : ctxRound x = roundRatio x.num.natAbs x.den ∧ x.num.natAbs ≠ 0 ∧
      x = (x.num.natAbs : ℚ) / x.den := by
  have hnum : 0 < x.num := Rat.num_pos.mpr hx
  refine ⟨by rw [ctxRound, if_neg hnum.ne', if_neg hnum.not_gt], by simpa using hnum.ne', ?_⟩
  rw [Nat.cast_natAbs, abs_of_pos hnum, Rat.num_div_den]

theorem ctxRound_mono_pos {x y : ℚ} (hx : 0 < x) (hxy : x ≤ y) : ctxRound x ≤ ctxRound y := by
  obtain ⟨hrx, hnx, hx'⟩ := ctxRound_of_pos hx
  obtain ⟨hry, hny, hy'⟩ := ctxRound_of_pos (hx.trans_le hxy)
  rw [hrx, hry]
  refine roundRatio_mono hnx x.den_ne_zero hny y.den_ne_zero ?_
  rw [hx', hy', div_le_div_iff₀ (by exact_mod_cast x.den_pos) (by exact_mod_cast y.den_pos)] at hxy
  exact_mod_cast hxy

/-- **Context rounding keeps the order.** -/
theorem ctxRound_mono {x y : ℚ} (hxy : x ≤ y) : ctxRound x ≤ ctxRound y := by
  rcases lt_trichotomy 0 x with hx | rfl | hx
  · exact ctxRound_mono_pos hx hxy
  · exact ctxRound_nonneg hxy
  · rcases le_or_gt 0 y with hy | hy
    · calc ctxRound x = -ctxRound (-x) := by rw [ctxRound_neg, neg_neg]
        _ ≤ 0 := neg_nonpos.mpr (ctxRound_nonneg (by linarith))
        _ ≤ ctxRound y := ctxRound_nonneg hy
    · have h := ctxRound_mono_pos (x := -y) (y := -x) (by linarith) (by linarith)
      rw [ctxRound_neg, ctxRound_neg] at h
      linarith

/-- Rounding never takes away half of a value. -/
theorem half_le_ctxRound {x : ℚ} (hx : 0 < x) : x / 2 ≤ ctxRound x := by
  obtain ⟨hrnd, hn, hx'⟩ := ctxRound_of_pos hx
  have hb : (0 : ℚ) < x.den := by exact_mod_cast x.den_pos
  set a := x.num.natAbs
  set b := x.den
  rw [hrnd, roundRatio]
  set e := quantum a b
  have hspec := (magnitude_spec hn x.den_ne_zero).1
  have hpow : pow10 e ≤ pow10 (magnitude a b) := pow10_le_pow10 (sub_le_self _ (by positivity))
  -- the coefficient is at least one, and nearest
  have hone : 1 ≤ scaled a b e := le_scaled x.den_pos (by
    rw [Nat.cast_one, one_mul]
    exact (mul_le_mul_of_nonneg_right hpow hb.le).trans hspec)
  have hnear := (divHalfEven_near (a := a * 10 ^ (-e).toNat) (b := b * 10 ^ e.toNat) (by positivity)).2
  have hle : a * 10 ^ (-e).toNat ≤ 2 * (scaled a b e * (b * 10 ^ e.toNat)) := by
    have hmul : 1 * (b * 10 ^ e.toNat) ≤ scaled a b e * (b * 10 ^ e.toNat) := Nat.mul_le_mul_right _ hone
    unfold scaled at hmul ⊢
    omega
  have hq : (a : ℚ) * (10 ^ (-e).toNat : ℕ) ≤
      2 * (scaled a b e * (b * (pow10 e * (10 ^ (-e).toNat : ℕ)))) := by
    rw [← toNat_pow_eq]
    exact_mod_cast hle
  have hpos : (0 : ℚ) < (10 ^ (-e).toNat : ℕ) := by positivity
  have hmain : (a : ℚ) ≤ 2 * (scaled a b e * pow10 e) * b := by
    refine le_of_mul_le_mul_right ?_ hpos
    calc (a : ℚ) * (10 ^ (-e).toNat : ℕ)
        ≤ 2 * (scaled a b e * (b * (pow10 e * (10 ^ (-e).toNat : ℕ)))) := hq
      _ = 2 * (scaled a b e * pow10 e) * b * (10 ^ (-e).toNat : ℕ) := by ring
  rw [hx', div_le_iff₀ two_pos, div_le_iff₀ hb]
  linarith

end Py
