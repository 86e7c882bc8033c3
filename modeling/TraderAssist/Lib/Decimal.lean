/-
TraderAssist/Lib/Decimal.lean

Finite decimal floating point with a 28 digit context and round-half-even,
as Python's `decimal` module has it by default.  Two levels:

* `Decimal` is the *representation*: sign, coefficient, exponent.  `1.0` and
  `1` are different representations of one number, and only the printed form
  of a number can tell them apart.
* `ℚ` is the *value*.  Comparison and arithmetic see only the value, so the
  operations of a context are functions on values: `cadd x y` is the exact
  sum, rounded by `ctxRound` to 28 significant digits.

`Decimal.add_toRat` connects the two: adding representations and then reading
the value is the context sum of the values.  The exponent limits of the
default context (`Emax = 999999`) are not modelled: no overflow is raised.
-/
import Mathlib.Data.Rat.Floor
import Mathlib.Algebra.Order.Field.Power
import Mathlib.Tactic.LinearCombination
import Mathlib.Tactic.Positivity

namespace Py

/-! ### The first of the greatest -/

/-- Going through a list with the best item so far. -/
theorem foldl_first_max {α κ : Type} [LinearOrder κ] {key : α → κ} (l : List α) (a : α) :
    l.foldl (fun best b => if key best < key b then b else best) a ∈ a :: l
      ∧ ∀ x ∈ a :: l, key x ≤ key (l.foldl (fun best b => if key best < key b then b else best) a) := by
  induction l using List.reverseRecOn with
  | nil => simp
  | append_singleton l b ih =>
    rw [List.foldl_append, List.foldl_cons]
    split_ifs with hb
    · refine ⟨by simp, List.forall_mem_append.mpr ⟨fun x hx => (ih.2 x hx).trans hb.le, ?_⟩⟩
      exact List.forall_mem_singleton.mpr le_rfl
    · refine ⟨List.mem_append_left _ ih.1, List.forall_mem_append.mpr ⟨ih.2, ?_⟩⟩
      exact List.forall_mem_singleton.mpr (not_lt.mp hb)

/-! ### Powers of ten and digit counts -/

/-- `10 ^ e` as a rational, by constructor so that closed terms evaluate. -/
def pow10 : ℤ → ℚ
  | .ofNat n => ((10 ^ n : ℕ) : ℚ)
  | .negSucc n => mkRat 1 (10 ^ (n + 1))

theorem pow10_eq (e : ℤ) : pow10 e = (10 : ℚ) ^ e := by
  cases e with
  | ofNat n => simp [pow10]
  | negSucc n =>
    rw [pow10, zpow_negSucc, Rat.mkRat_eq_div]
    push_cast
    rw [one_div]

theorem pow10_pos (e : ℤ) : 0 < pow10 e := by
  rw [pow10_eq]
  positivity

theorem pow10_add (a b : ℤ) : pow10 (a + b) = pow10 a * pow10 b := by
  simp only [pow10_eq]
  exact zpow_add₀ (by norm_num) a b

theorem pow10_le_pow10 {a b : ℤ} (h : a ≤ b) : pow10 a ≤ pow10 b := by
  simp only [pow10_eq]
  exact zpow_le_zpow_right₀ (by norm_num) h

theorem pow10_lt_iff {a b : ℤ} : pow10 a < pow10 b ↔ a < b := by
  simp only [pow10_eq]
  exact zpow_lt_zpow_iff_right₀ (by norm_num)

@[simp] theorem pow10_zero : pow10 0 = 1 := by simp [pow10_eq]

theorem pow10_natCast (n : ℕ) : pow10 (n : ℤ) = (10 ^ n : ℕ) := rfl

/-- Number of decimal digits of `n`; zero has one digit. -/
def numDigits (n : ℕ) : ℕ := (Nat.toDigits 10 n).length

theorem numDigits_pos (n : ℕ) : 0 < numDigits n := Nat.length_toDigits_pos

theorem lt_pow_numDigits (n : ℕ) : n < 10 ^ numDigits n :=
  (Nat.length_toDigits_le_iff (by norm_num) (numDigits_pos n)).mp le_rfl

theorem pow_numDigits_le {n : ℕ} (hn : n ≠ 0) : 10 ^ (numDigits n - 1) ≤ n := by
  by_contra hlt
  rw [not_le] at hlt
  rcases Nat.eq_zero_or_pos (numDigits n - 1) with h0 | h0
  · rw [h0] at hlt
    omega
  · have hle := (Nat.length_toDigits_le_iff (b := 10) (by norm_num) h0).mpr hlt
    change numDigits n ≤ _ at hle
    omega

/-- Raise `k` to the leading digit position of `n`, at most `fuel` times. -/
def climb (n : ℕ) : ℕ → ℕ → ℕ
  | 0, k => k
  | fuel + 1, k => if 10 ^ (k + 1) ≤ n then climb n fuel (k + 1) else k

/-- Position of the leading decimal digit, found from the binary logarithm. -/
def log10 (n : ℕ) : ℕ := climb n n.log2 (3 * n.log2 / 10)

theorem climb_spec {n : ℕ} : ∀ {fuel k : ℕ}, 10 ^ k ≤ n → n < 10 ^ (k + fuel + 1) →
    10 ^ climb n fuel k ≤ n ∧ n < 10 ^ (climb n fuel k + 1)
  | 0, k, hlo, hhi => ⟨hlo, hhi⟩
  | fuel + 1, k, hlo, hhi => by
    rw [climb]
    split_ifs with h
    · exact climb_spec h (by rwa [show k + 1 + fuel + 1 = k + (fuel + 1) + 1 by omega])
    · exact ⟨hlo, by omega⟩

theorem log10_spec {n : ℕ} (hn : n ≠ 0) : 10 ^ log10 n ≤ n ∧ n < 10 ^ (log10 n + 1) := by
  have hlog : 2 ^ n.log2 ≤ n := Nat.log2_self_le hn
  refine climb_spec ?_ ?_
  · -- `10 ^ (3 L / 10) ≤ 2 ^ L`, because `1000 ≤ 1024`
    have hpow : (10 ^ (3 * n.log2 / 10)) ^ 10 ≤ (2 ^ n.log2) ^ 10 := by
      calc (10 ^ (3 * n.log2 / 10)) ^ 10 = 10 ^ (3 * n.log2 / 10 * 10) := by rw [← pow_mul]
        _ ≤ 10 ^ (3 * n.log2) := Nat.pow_le_pow_right (by norm_num) (by omega)
        _ = (10 ^ 3) ^ n.log2 := by rw [← pow_mul]
        _ ≤ (2 ^ 10) ^ n.log2 := Nat.pow_le_pow_left (by norm_num) _
        _ = (2 ^ n.log2) ^ 10 := by rw [← pow_mul, ← pow_mul, mul_comm]
    exact (le_of_pow_le_pow_left₀ (by norm_num) (by positivity) hpow).trans hlog
  · calc n < 2 ^ (n.log2 + 1) := Nat.lt_log2_self
      _ ≤ 10 ^ (n.log2 + 1) := Nat.pow_le_pow_left (by norm_num) _
      _ ≤ 10 ^ (3 * n.log2 / 10 + n.log2 + 1) := Nat.pow_le_pow_right (by norm_num) (by omega)

/-! ### The context rounding of values -/

/-- Integer nearest to `a / b`, ties to even. -/
def divHalfEven (a b : ℕ) : ℕ :=
  let q := a / b
  let r := a % b
  if 2 * r < b then q
  else if b < 2 * r then q + 1
  else if q % 2 = 0 then q else q + 1

/-- Position of the leading digit of `a / b`: `10 ^ m ≤ a / b < 10 ^ (m + 1)`. -/
def magnitude (a b : ℕ) : ℤ :=
  let k : ℤ := (log10 a : ℤ) - log10 b
  if 10 ^ k.toNat * b ≤ a * 10 ^ (-k).toNat then k else k - 1

/-- Significant digits kept by the default context. -/
def ctxPrec : ℕ := 28

/-- Exponent of the last digit that the context keeps of `a / b`. -/
def quantum (a b : ℕ) : ℤ := magnitude a b - (ctxPrec - 1 : ℕ)

/-- Coefficient of `a / b` at the quantum `e`. -/
def scaled (a b : ℕ) (e : ℤ) : ℕ := divHalfEven (a * 10 ^ (-e).toNat) (b * 10 ^ e.toNat)

/-- `a / b`, rounded to `ctxPrec` significant digits. -/
def roundRatio (a b : ℕ) : ℚ := scaled a b (quantum a b) * pow10 (quantum a b)

/-- Round a value to `ctxPrec` significant digits. -/
def ctxRound (x : ℚ) : ℚ :=
  if x.num = 0 then 0
  else if x.num < 0 then -roundRatio x.num.natAbs x.den
  else roundRatio x.num.natAbs x.den

def cadd (x y : ℚ) : ℚ := ctxRound (x + y)
def csub (x y : ℚ) : ℚ := ctxRound (x - y)
def cmul (x y : ℚ) : ℚ := ctxRound (x * y)
def cdiv (x y : ℚ) : ℚ := ctxRound (x / y)
def cabs (x : ℚ) : ℚ := ctxRound |x|
def cneg (x : ℚ) : ℚ := ctxRound (-x)

/-- `sum(values, Decimal())`. -/
def csum (xs : List ℚ) : ℚ := xs.foldl cadd 0

/-! ### What rounding keeps: scale, sign -/

theorem divHalfEven_mul {a b t : ℕ} (ht : 0 < t) : divHalfEven (a * t) (b * t) = divHalfEven a b := by
  have hlt : 2 * (a % b * t) < b * t ↔ 2 * (a % b) < b := by
    rw [← mul_assoc]
    exact Nat.mul_lt_mul_right ht
  have hgt : b * t < 2 * (a % b * t) ↔ b < 2 * (a % b) := by
    rw [← mul_assoc]
    exact Nat.mul_lt_mul_right ht
  simp only [divHalfEven, Nat.mul_div_mul_right _ _ ht, Nat.mul_mod_mul_right, hlt, hgt]

variable {a b : ℕ}

theorem divHalfEven_pos (hb : 0 < b) (hab : b ≤ a) : 0 < divHalfEven a b := by
  have hq : 0 < a / b := Nat.div_pos hab hb
  unfold divHalfEven
  dsimp only
  split_ifs <;> omega

theorem toNat_pow_eq (e : ℤ) : ((10 ^ e.toNat : ℕ) : ℚ) = pow10 e * (10 ^ (-e).toNat : ℕ) := by
  rw [← pow10_natCast, ← pow10_natCast, ← pow10_add]
  congr 1
  omega

/-- The comparison `magnitude` makes on naturals is the one on values. -/
theorem toNat_pow_mul_le_iff (k : ℤ) : 10 ^ k.toNat * b ≤ a * 10 ^ (-k).toNat ↔ pow10 k * b ≤ a := by
  have hpos : (0 : ℚ) < (10 ^ (-k).toNat : ℕ) := by positivity
  rw [← Nat.cast_le (α := ℚ), Nat.cast_mul, Nat.cast_mul, toNat_pow_eq, mul_right_comm]
  exact mul_le_mul_iff_of_pos_right hpos

theorem magnitude_spec (ha : a ≠ 0) (hb : b ≠ 0) :
    pow10 (magnitude a b) * b ≤ a ∧ (a : ℚ) < pow10 (magnitude a b + 1) * b := by
  obtain ⟨ha₁, ha₂⟩ := log10_spec ha
  obtain ⟨hb₁, hb₂⟩ := log10_spec hb
  set i := log10 a
  set j := log10 b
  have ha₁' : pow10 (i : ℤ) ≤ a := by rw [pow10_natCast]; exact_mod_cast ha₁
  have ha₂' : (a : ℚ) < pow10 ((i : ℤ) + 1) := by
    rw [show (i : ℤ) + 1 = ((i + 1 : ℕ) : ℤ) by push_cast; rfl, pow10_natCast]
    exact_mod_cast ha₂
  have hb₁' : pow10 (j : ℤ) ≤ b := by rw [pow10_natCast]; exact_mod_cast hb₁
  have hb₂' : (b : ℚ) < pow10 ((j : ℤ) + 1) := by
    rw [show (j : ℤ) + 1 = ((j + 1 : ℕ) : ℤ) by push_cast; rfl, pow10_natCast]
    exact_mod_cast hb₂
  unfold magnitude
  simp only [toNat_pow_mul_le_iff]
  split_ifs with h
  · refine ⟨h, ha₂'.trans_le ?_⟩
    calc pow10 ((i : ℤ) + 1) = pow10 ((i : ℤ) - j + 1) * pow10 j := by
          rw [← pow10_add]; congr 1; ring
      _ ≤ pow10 ((i : ℤ) - j + 1) * b := mul_le_mul_of_nonneg_left hb₁' (pow10_pos _).le
  · refine ⟨?_, by rw [sub_add_cancel]; exact not_le.mp h⟩
    calc pow10 ((i : ℤ) - j - 1) * b ≤ pow10 ((i : ℤ) - j - 1) * pow10 ((j : ℤ) + 1) :=
          mul_le_mul_of_nonneg_left hb₂'.le (pow10_pos _).le
      _ = pow10 i := by rw [← pow10_add]; congr 1; ring
      _ ≤ a := ha₁'

theorem magnitude_unique {m : ℤ} (ha : a ≠ 0) (hb : b ≠ 0) (hlo : pow10 m * b ≤ a)
    (hhi : (a : ℚ) < pow10 (m + 1) * b) : magnitude a b = m := by
  obtain ⟨h₁, h₂⟩ := magnitude_spec ha hb
  have hb' : (0 : ℚ) < b := by positivity
  have hle : magnitude a b < m + 1 := pow10_lt_iff.mp (lt_of_mul_lt_mul_right (h₁.trans_lt hhi) hb'.le)
  have hge : m < magnitude a b + 1 := pow10_lt_iff.mp (lt_of_mul_lt_mul_right (hlo.trans_lt h₂) hb'.le)
  omega

theorem magnitude_mul {a b t : ℕ} (ha : a ≠ 0) (hb : b ≠ 0) (ht : t ≠ 0) :
    magnitude (a * t) (b * t) = magnitude a b := by
  obtain ⟨h₁, h₂⟩ := magnitude_spec ha hb
  have ht' : (0 : ℚ) < t := by positivity
  refine magnitude_unique (mul_ne_zero ha ht) (mul_ne_zero hb ht) ?_ ?_
  · push_cast
    rw [← mul_assoc]
    exact mul_le_mul_of_nonneg_right h₁ ht'.le
  · push_cast
    rw [← mul_assoc]
    exact mul_lt_mul_of_pos_right h₂ ht'

/-- Rounding sees only the ratio. -/
theorem roundRatio_mul {a b t : ℕ} (ha : a ≠ 0) (hb : b ≠ 0) (ht : t ≠ 0) :
    roundRatio (a * t) (b * t) = roundRatio a b := by
  have hq : quantum (a * t) (b * t) = quantum a b := by
    rw [quantum, quantum, magnitude_mul ha hb ht]
  rw [roundRatio, roundRatio, hq, scaled, scaled, mul_right_comm a, mul_right_comm b,
    divHalfEven_mul (Nat.pos_of_ne_zero ht)]

theorem roundRatio_pos (ha : a ≠ 0) (hb : b ≠ 0) : 0 < roundRatio a b := by
  have hspec := (magnitude_spec ha hb).1
  have hle : pow10 (quantum a b) * b ≤ a := by
    refine (mul_le_mul_of_nonneg_right (pow10_le_pow10 ?_) (by positivity)).trans hspec
    exact sub_le_self _ (by positivity)
  have hscal : 0 < scaled a b (quantum a b) := by
    refine divHalfEven_pos (by positivity) ?_
    rw [mul_comm b]
    exact (toNat_pow_mul_le_iff _).mpr hle
  exact mul_pos (by exact_mod_cast hscal) (pow10_pos _)

@[simp] theorem ctxRound_zero : ctxRound 0 = 0 := rfl

variable {x : ℚ}

theorem ctxRound_pos (hx : 0 < x) : 0 < ctxRound x := by
  have hnum : 0 < x.num := Rat.num_pos.mpr hx
  rw [ctxRound, if_neg hnum.ne', if_neg hnum.not_gt]
  exact roundRatio_pos (by simpa using hnum.ne') x.den_ne_zero

theorem ctxRound_nonneg (hx : 0 ≤ x) : 0 ≤ ctxRound x := by
  rcases hx.eq_or_lt with rfl | h
  · exact le_rfl
  · exact (ctxRound_pos h).le

theorem ctxRound_neg (x : ℚ) : ctxRound (-x) = -ctxRound x := by
  simp only [ctxRound, Rat.neg_num, Rat.neg_den, neg_eq_zero, Int.natAbs_neg]
  rcases lt_trichotomy x.num 0 with h | h | h
  · rw [if_neg h.ne, if_neg h.ne, if_neg (neg_pos.mpr h).not_gt, if_pos h, neg_neg]
  · rw [if_pos h, if_pos h, neg_zero]
  · rw [if_neg h.ne', if_neg h.ne', if_pos (neg_neg_iff_pos.mpr h), if_neg h.not_gt]

/-- The value of a ratio of naturals, rounded. -/
theorem ctxRound_div (ha : a ≠ 0) (hb : b ≠ 0) : ctxRound ((a : ℚ) / b) = roundRatio a b := by
  have hpos : (0 : ℚ) < (a : ℚ) / b := by positivity
  set x := (a : ℚ) / b with hx
  have hnum : 0 < x.num := Rat.num_pos.mpr hpos
  rw [ctxRound, if_neg hnum.ne', if_neg hnum.not_gt]
  -- both fractions are scalings of `x.num.natAbs * b = a * x.den`
  have hcross : x.num.natAbs * b = a * x.den := by
    have h : (x.num : ℚ) * b = a * x.den := by
      have hxq : (x.num : ℚ) / x.den = (a : ℚ) / b := by rw [Rat.num_div_den]
      field_simp at hxq
      linarith
    have hz : x.num * b = a * x.den := by exact_mod_cast h
    have habs := congrArg Int.natAbs hz
    simpa [Int.natAbs_mul] using habs
  have hn : x.num.natAbs ≠ 0 := by simpa using hnum.ne'
  calc roundRatio x.num.natAbs x.den
      = roundRatio (x.num.natAbs * b) (x.den * b) := (roundRatio_mul hn x.den_ne_zero hb).symm
    _ = roundRatio (a * x.den) (b * x.den) := by rw [hcross, mul_comm x.den b]
    _ = roundRatio a b := roundRatio_mul ha hb x.den_ne_zero

variable {y : ℚ}

theorem cadd_nonneg (hx : 0 ≤ x) (hy : 0 ≤ y) : 0 ≤ cadd x y :=
  ctxRound_nonneg (add_nonneg hx hy)

/-- A sum of numbers that are not negative. -/
theorem csum_nonneg {l : List ℚ} (h : ∀ x ∈ l, 0 ≤ x) : 0 ≤ csum l :=
  List.foldlRecOn l cadd le_rfl fun _ hx y hy => cadd_nonneg hx (h y hy)

theorem cadd_pos (hx : 0 < x) (hy : 0 ≤ y) : 0 < cadd x y :=
  ctxRound_pos (add_pos_of_pos_of_nonneg hx hy)

theorem cmul_pos (hx : 0 < x) (hy : 0 < y) : 0 < cmul x y :=
  ctxRound_pos (mul_pos hx hy)

theorem cdiv_pos (hx : 0 < x) (hy : 0 < y) : 0 < cdiv x y :=
  ctxRound_pos (div_pos hx hy)

theorem cdiv_nonneg (hx : 0 ≤ x) (hy : 0 ≤ y) : 0 ≤ cdiv x y :=
  ctxRound_nonneg (div_nonneg hx hy)

theorem cabs_nonneg (x : ℚ) : 0 ≤ cabs x := ctxRound_nonneg (abs_nonneg x)

/-! ### Representations -/

/-- A finite decimal: sign, coefficient, exponent. -/
structure Decimal where
  neg : Bool
  coeff : ℕ
  exp : ℤ
  deriving DecidableEq, Repr

namespace Decimal

/-- The value that a representation denotes. -/
def toRat (d : Decimal) : ℚ :=
  if d.neg then -(d.coeff * pow10 d.exp) else d.coeff * pow10 d.exp

/-- `Decimal()`. -/
def zero : Decimal := ⟨false, 0, 0⟩

/-- Signed coefficient of `d` at the exponent `e ≤ d.exp`. -/
def signedAt (d : Decimal) (e : ℤ) : ℤ :=
  let c : ℤ := (d.coeff * 10 ^ (d.exp - e).toNat : ℕ)
  if d.neg then -c else c

/-- Round a representation to the context: at most `ctxPrec` digits. -/
def fix (d : Decimal) : Decimal :=
  let n := numDigits d.coeff
  if n ≤ ctxPrec then d
  else
    let k := n - ctxPrec
    let c := divHalfEven d.coeff (10 ^ k)
    -- rounding up 99..9 leaves one digit too many
    if c = 10 ^ ctxPrec then ⟨d.neg, 10 ^ (ctxPrec - 1), d.exp + k + 1⟩
    else ⟨d.neg, c, d.exp + k⟩

/-- `a + b`: exact at the smaller exponent, then rounded. -/
def add (a b : Decimal) : Decimal :=
  let e := min a.exp b.exp
  let s := a.signedAt e + b.signedAt e
  fix ⟨decide (s < 0) || (decide (s = 0) && a.neg && b.neg), s.natAbs, e⟩

/-- `sum(values, Decimal())` on representations. -/
def sum (xs : List Decimal) : Decimal := xs.foldl add zero

/-- `max(xs)` for a nonempty `x :: xs`: the first of the largest. -/
def maxFirst (x : Decimal) (xs : List Decimal) : Decimal :=
  xs.foldl (fun acc y => if acc.toRat < y.toRat then y else acc) x

/-- `min(xs)` for a nonempty `x :: xs`: the first of the smallest. -/
def minFirst (x : Decimal) (xs : List Decimal) : Decimal :=
  xs.foldl (fun acc y => if y.toRat < acc.toRat then y else acc) x

end Decimal

/-! ### Representation arithmetic computes the context value -/

theorem divHalfEven_congr {a b c d : ℕ} (hb : 0 < b) (hd : 0 < d)
    (h : (a : ℚ) * d = c * b) : divHalfEven a b = divHalfEven c d := by
  have hnat : a * d = c * b := by exact_mod_cast h
  calc divHalfEven a b = divHalfEven (a * d) (b * d) := (divHalfEven_mul hd).symm
    _ = divHalfEven (c * b) (d * b) := by rw [hnat, mul_comm b d]
    _ = divHalfEven c d := divHalfEven_mul hb

theorem divHalfEven_one (a : ℕ) : divHalfEven a 1 = a := by
  simp [divHalfEven, Nat.mod_one]

namespace Decimal

theorem toRat_neg (c : ℕ) (e : ℤ) : toRat ⟨true, c, e⟩ = -toRat ⟨false, c, e⟩ := rfl

theorem toRat_pos (c : ℕ) (e : ℤ) : toRat ⟨false, c, e⟩ = c * pow10 e := rfl

@[simp] theorem toRat_zero : zero.toRat = 0 := by simp [zero, toRat]

/-- Unsigned value as the ratio of naturals that `roundRatio` works on. -/
theorem coeff_mul_pow10 (c : ℕ) (e : ℤ) :
    (c : ℚ) * pow10 e = ((c * 10 ^ e.toNat : ℕ) : ℚ) / ((10 ^ (-e).toNat : ℕ) : ℚ) := by
  have hpos : ((10 ^ (-e).toNat : ℕ) : ℚ) ≠ 0 := by positivity
  rw [eq_div_iff hpos]
  push_cast
  have h := toNat_pow_eq e
  push_cast at h
  rw [h]
  ring

theorem magnitude_coeff {c : ℕ} (hc : c ≠ 0) (e : ℤ) :
    magnitude (c * 10 ^ e.toNat) (10 ^ (-e).toNat) = e + numDigits c - 1 := by
  have hd := numDigits_pos c
  have hval := coeff_mul_pow10 c e
  have hpos : (0 : ℚ) < ((10 ^ (-e).toNat : ℕ) : ℚ) := by positivity
  have hlo : pow10 ((numDigits c - 1 : ℕ) : ℤ) ≤ c := by
    rw [pow10_natCast]; exact_mod_cast pow_numDigits_le hc
  have hhi : (c : ℚ) < pow10 (numDigits c : ℤ) := by
    rw [pow10_natCast]; exact_mod_cast lt_pow_numDigits c
  refine magnitude_unique (by positivity) (by positivity) ?_ ?_
  · rw [← le_div_iff₀ hpos, ← hval,
      show e + (numDigits c : ℤ) - 1 = ((numDigits c - 1 : ℕ) : ℤ) + e by omega, pow10_add]
    exact mul_le_mul_of_nonneg_right hlo (pow10_pos e).le
  · rw [← div_lt_iff₀ hpos, ← hval,
      show e + (numDigits c : ℤ) - 1 + 1 = (numDigits c : ℤ) + e by omega, pow10_add]
    exact mul_lt_mul_of_pos_right hhi (pow10_pos e)

/-- The coefficient the context keeps is the half-even quotient of the exact one. -/
theorem scaled_coeff {c : ℕ} (e q : ℤ) {C D : ℕ} (hD : 0 < D) (h : (c : ℚ) * pow10 e * D = C * pow10 q) :
    scaled (c * 10 ^ e.toNat) (10 ^ (-e).toNat) q = divHalfEven C D := by
  refine divHalfEven_congr (by positivity) hD ?_
  have hq := toNat_pow_eq q
  have he := toNat_pow_eq e
  push_cast at hq he ⊢
  rw [hq, he]
  linear_combination (10 : ℚ) ^ (-e).toNat * 10 ^ (-q).toNat * h

theorem roundRatio_coeff {c : ℕ} (hc : c ≠ 0) (e : ℤ) :
    roundRatio (c * 10 ^ e.toNat) (10 ^ (-e).toNat) = (fix ⟨false, c, e⟩).toRat := by
  have hquant : quantum (c * 10 ^ e.toNat) (10 ^ (-e).toNat) = e + numDigits c - ctxPrec := by
    rw [quantum, magnitude_coeff hc]
    simp only [ctxPrec]
    omega
  rw [roundRatio, hquant]
  by_cases hn : numDigits c ≤ ctxPrec
  · -- short coefficients are padded with zeros and stay as they are
    obtain ⟨k, hk⟩ := Nat.exists_eq_add_of_le hn
    have hq : e + (numDigits c : ℤ) - ctxPrec = e - k := by rw [hk]; push_cast; ring
    have hspl : pow10 e = pow10 (k : ℤ) * pow10 (e - k) := by
      rw [← pow10_add]; congr 1; ring
    have hsc : scaled (c * 10 ^ e.toNat) (10 ^ (-e).toNat) (e - k) = c * 10 ^ k := by
      rw [scaled_coeff (C := c * 10 ^ k) (D := 1) e (e - k) one_pos ?_, divHalfEven_one]
      rw [hspl, pow10_natCast]
      push_cast
      ring
    simp only [fix, hn, if_true]
    rw [toRat_pos, hq, hsc, hspl, pow10_natCast]
    push_cast
    ring
  · obtain ⟨k, hk⟩ := Nat.exists_eq_add_of_le (not_le.mp hn).le
    have hq : e + (numDigits c : ℤ) - ctxPrec = e + k := by rw [hk]; push_cast; ring
    have hk' : numDigits c - ctxPrec = k := by omega
    have hsc : scaled (c * 10 ^ e.toNat) (10 ^ (-e).toNat) (e + k) = divHalfEven c (10 ^ k) := by
      refine scaled_coeff e (e + k) (by positivity) ?_
      rw [pow10_add, pow10_natCast]
      ring
    rw [hq, hsc]
    simp only [fix, hn, if_false, hk']
    split_ifs with hcarry
    · -- the carry moves one power of ten into the exponent
      rw [toRat_pos, hcarry, pow10_add (e + k) 1, show pow10 1 = 10 from rfl]
      simp only [ctxPrec]
      ring
    · rw [toRat_pos]

theorem fix_neg (c : ℕ) (e : ℤ) : (fix ⟨true, c, e⟩).toRat = -(fix ⟨false, c, e⟩).toRat := by
  simp only [fix]
  split_ifs <;> rfl

/-- **Rounding a representation rounds its value.** -/
theorem fix_toRat (d : Decimal) : (fix d).toRat = ctxRound d.toRat := by
  obtain ⟨neg, c, e⟩ := d
  have hpos : (fix ⟨false, c, e⟩).toRat = ctxRound (toRat ⟨false, c, e⟩) := by
    rcases eq_or_ne c 0 with rfl | hc
    · simp [fix, numDigits, ctxPrec, toRat]
    · rw [← roundRatio_coeff hc, ← ctxRound_div (by positivity) (by positivity), ← coeff_mul_pow10]
      simp [toRat]
  cases neg with
  | false => exact hpos
  | true => rw [fix_neg, toRat_neg, ctxRound_neg, hpos]

theorem signedAt_mul (d : Decimal) {e : ℤ} (he : e ≤ d.exp) : (d.signedAt e : ℚ) * pow10 e = d.toRat := by
  have hpow : ((10 ^ (d.exp - e).toNat : ℕ) : ℚ) * pow10 e = pow10 d.exp := by
    rw [← pow10_natCast, ← pow10_add]
    congr 1
    omega
  unfold signedAt toRat
  rw [← hpow]
  cases d.neg <;> (simp; ring)

/-- **Adding representations is the context sum of the values.** -/
theorem add_toRat (a b : Decimal) : (add a b).toRat = cadd a.toRat b.toRat := by
  have hsum : ((a.signedAt (min a.exp b.exp) + b.signedAt (min a.exp b.exp) : ℤ) : ℚ)
      * pow10 (min a.exp b.exp) = a.toRat + b.toRat := by
    push_cast
    rw [add_mul, signedAt_mul a (min_le_left _ _), signedAt_mul b (min_le_right _ _)]
  unfold add
  rw [fix_toRat, cadd, ← hsum]
  set s := a.signedAt (min a.exp b.exp) + b.signedAt (min a.exp b.exp)
  unfold toRat
  rcases lt_trichotomy s 0 with h | h | h
  · have habs : ((s.natAbs : ℕ) : ℚ) = -(s : ℚ) := by
      rw [← Int.cast_natCast, Int.ofNat_natAbs_of_nonpos h.le, Int.cast_neg]
    simp [h, habs]
  · simp [h]
  · have habs : ((s.natAbs : ℕ) : ℚ) = (s : ℚ) := by
      rw [← Int.cast_natCast, Int.natAbs_of_nonneg h.le]
    simp [h.not_gt, h.ne', habs]

theorem sum_toRat_nonneg {xs : List Decimal} (h : ∀ x ∈ xs, 0 ≤ x.toRat) : 0 ≤ (sum xs).toRat := by
  refine List.foldlRecOn (motive := fun acc => 0 ≤ acc.toRat) xs add toRat_zero.ge fun acc hacc y hy => ?_
  rw [add_toRat]
  exact cadd_nonneg hacc (h y hy)

theorem maxFirst_spec (x : Decimal) (xs : List Decimal) :
    maxFirst x xs ∈ x :: xs ∧ ∀ y ∈ x :: xs, y.toRat ≤ (maxFirst x xs).toRat :=
  foldl_first_max xs x

theorem minFirst_spec (x : Decimal) (xs : List Decimal) :
    minFirst x xs ∈ x :: xs ∧ ∀ y ∈ x :: xs, (minFirst x xs).toRat ≤ y.toRat :=
  -- the greatest in the dual order
  @foldl_first_max _ ℚᵒᵈ _ toRat xs x

/-- The shortest representation of a number that some decimal denotes. -/
def ofRat? (x : ℚ) : Option Decimal :=
  ((List.range (x.den.log2 + 1)).find? fun k => 10 ^ k % x.den = 0).map fun (k : ℕ) =>
    ⟨x.num < 0, x.num.natAbs * (10 ^ k / x.den), -(k : ℤ)⟩

theorem ofRat?_toRat {x : ℚ} {d : Decimal} (h : ofRat? x = some d) : d.toRat = x := by
  obtain ⟨k, hk, rfl⟩ := Option.map_eq_some_iff.mp (show Option.map _ _ = _ from h)
  have hdvd : x.den ∣ 10 ^ k := Nat.dvd_of_mod_eq_zero (by simpa using List.find?_some hk)
  have hden : (x.den : ℚ) ≠ 0 := by exact_mod_cast x.den_nz
  have hscale : ((10 ^ k / x.den : ℕ) : ℚ) * pow10 (-(k : ℤ)) = 1 / x.den := by
    have hpow : pow10 (k : ℤ) * pow10 (-(k : ℤ)) = 1 := by
      rw [← pow10_add, add_neg_cancel, pow10_zero]
    obtain ⟨m, hm⟩ := hdvd
    rw [pow10_natCast, hm, Nat.cast_mul] at hpow
    rw [hm, Nat.mul_div_cancel_left m x.den_pos, eq_div_iff hden, ← hpow]
    ring
  have habs : ((x.num.natAbs * (10 ^ k / x.den) : ℕ) : ℚ) * pow10 (-(k : ℤ)) = x.num.natAbs / x.den := by
    rw [Nat.cast_mul, mul_assoc, hscale, mul_one_div]
  have hx : (x.num : ℚ) / x.den = x := Rat.num_div_den x
  unfold toRat
  rw [habs]
  rcases lt_or_ge x.num 0 with hneg | hpos
  · have hcast : ((x.num.natAbs : ℕ) : ℚ) = -(x.num : ℚ) := by
      rw [Nat.cast_natAbs, abs_of_neg hneg]
      rfl
    rw [if_pos (by simpa using hneg), hcast, neg_div, neg_neg, hx]
  · have hcast : ((x.num.natAbs : ℕ) : ℚ) = (x.num : ℚ) := by
      rw [Nat.cast_natAbs, abs_of_nonneg hpos]
    rw [if_neg (by simpa using hpos), hcast, hx]

end Decimal

end Py
