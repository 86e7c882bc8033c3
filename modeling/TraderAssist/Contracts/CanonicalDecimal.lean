/-
TraderAssist/Contracts/CanonicalDecimal.lean

The canonical decimal strings of `contracts/common.py`.

`decimal_to_canonical_string` strips the zeros after the point, so equal numbers
get equal strings; what `Decimal(...)` reads back is the number in the
representation `canonical`, which need not be the one that was written.  Writing
it again changes nothing (`canonical_canonical`).
-/
import TraderAssist.Lib.DecimalText

namespace TraderAssist

open Py

def maxDecimalWireLength : ℕ := 80
def maxDecimalSignificantDigits : ℕ := 80
def maxDecimalScale : ℕ := 80
def maxDecimalIntegerDigits : ℕ := 80

structure DecimalShape where
  sign : Bool
  coefficient : ℕ
  exponent : ℤ
  significantDigits : ℕ
  integerDigits : ℕ
  scale : ℕ
  projectedLength : ℕ
deriving DecidableEq, Repr

/-- A bound that is exceeded, with the actual size. -/
inductive BoundFailure
  | significantDigits (actual : ℕ)
  | scale (actual : ℕ)
  | integerDigits (actual : ℕ)
  | wireLength (projected : ℕ)
deriving DecidableEq, Repr

/-- `rstrip("0")` on the digits of a number, of which there are at most `fuel`:
what is left, and how many zeros went. -/
def stripZeros : ℕ → ℕ → ℕ × ℕ
  | 0, c => (c, 0)
  | fuel + 1, c =>
    if c % 10 = 0 then ((stripZeros fuel (c / 10)).1, (stripZeros fuel (c / 10)).2 + 1) else (c, 0)

/-- `_trim_decimal_coefficient`. -/
def trimDecimalCoefficient (d : Decimal) : Decimal :=
  if d.coeff = 0 then ⟨false, 0, 0⟩
  else if d.exp < 0 then
    let stripped := stripZeros (numDigits d.coeff) d.coeff
    ⟨d.neg, stripped.1, d.exp + stripped.2⟩
  else d

def analyzeDecimalShape (d : Decimal) : DecimalShape :=
  let t := trimDecimalCoefficient d
  if t.coeff = 0 then ⟨false, 0, 0, 0, 1, 0, 1⟩
  else
    let coefficientLength := numDigits t.coeff
    let signLength := if t.neg then 1 else 0
    if 0 ≤ t.exp then
      let length := coefficientLength + t.exp.toNat
      ⟨t.neg, t.coeff, t.exp, coefficientLength, length, 0, length + signLength⟩
    else
      let split : ℤ := coefficientLength + t.exp
      let scale := (-t.exp).toNat
      if 0 < split then
        ⟨t.neg, t.coeff, t.exp, coefficientLength, split.toNat, scale,
          coefficientLength + 1 + signLength⟩
      else ⟨t.neg, t.coeff, t.exp, coefficientLength, 1, scale, 2 + scale + signLength⟩

/-- `_raise_for_decimal_bounds`: the bounds that are exceeded, in order. -/
def boundFailures (shape : DecimalShape) : List BoundFailure :=
  (if maxDecimalSignificantDigits < shape.significantDigits then
      [.significantDigits shape.significantDigits] else [])
    ++ (if maxDecimalScale < shape.scale then [.scale shape.scale] else [])
    ++ (if maxDecimalIntegerDigits < shape.integerDigits then
      [.integerDigits shape.integerDigits] else [])
    ++ (if maxDecimalWireLength < shape.projectedLength then
      [.wireLength shape.projectedLength] else [])

/-- The text of a shape within the bounds. -/
def renderShape (shape : DecimalShape) : Text :=
  let digits := natText shape.coefficient
  if shape.coefficient = 0 then ['0']
  else if 0 ≤ shape.exponent then pointText shape.sign (digits ++ zeros shape.exponent.toNat) []
  else
    let split : ℤ := digits.length + shape.exponent
    if 0 < split then pointText shape.sign (digits.take split.toNat) (digits.drop split.toNat)
    else pointText shape.sign ['0'] (zeros (-split).toNat ++ digits)

def decimalToCanonicalString (d : Decimal) : Except (List BoundFailure) Text :=
  let shape := analyzeDecimalShape d
  if boundFailures shape = [] then .ok (renderShape shape) else .error (boundFailures shape)

/-- What is read back: the trimmed number, a positive exponent written out. -/
def canonical (d : Decimal) : Decimal := (trimDecimalCoefficient d).plain

/-! ### Stripping zeros -/

theorem stripZeros_value (fuel c : ℕ) : (stripZeros fuel c).1 * 10 ^ (stripZeros fuel c).2 = c := by
  induction fuel generalizing c with
  | zero => simp [stripZeros]
  | succ fuel ih =>
    unfold stripZeros
    split_ifs with hc
    · rw [pow_succ, ← mul_assoc, ih]
      omega
    · simp

/-- With enough fuel no zero is left at the end. -/
theorem stripZeros_mod {fuel c : ℕ} (hc : c ≠ 0) (hfuel : c < 10 ^ fuel) :
    (stripZeros fuel c).1 % 10 ≠ 0 := by
  induction fuel generalizing c with
  | zero =>
    omega
  | succ fuel ih =>
    unfold stripZeros
    split_ifs with hmod
    · exact ih (by omega) (by omega)
    · exact hmod

theorem stripZeros_of_mod {fuel c : ℕ} (hc : c % 10 ≠ 0) : stripZeros fuel c = (c, 0) := by
  cases fuel with
  | zero => rfl
  | succ fuel => simp [stripZeros, hc]

theorem trim_toRat (d : Decimal) : (trimDecimalCoefficient d).toRat = d.toRat := by
  unfold trimDecimalCoefficient
  split_ifs with hzero hexp
  · simp [Decimal.toRat, hzero]
  · have hvalue := stripZeros_value (numDigits d.coeff) d.coeff
    have hcast : ((stripZeros (numDigits d.coeff) d.coeff).1 : ℚ)
        * pow10 (stripZeros (numDigits d.coeff) d.coeff).2 = d.coeff := by
      rw [pow10_natCast]
      exact_mod_cast hvalue
    have hmul : ((stripZeros (numDigits d.coeff) d.coeff).1 : ℚ)
        * pow10 (d.exp + (stripZeros (numDigits d.coeff) d.coeff).2) = d.coeff * pow10 d.exp := by
      rw [pow10_add, ← hcast]
      ring
    simp only [Decimal.toRat, hmul]
  · rfl

/-- **The number is kept.** -/
theorem canonical_toRat (d : Decimal) : (canonical d).toRat = d.toRat := by
  rw [canonical, Decimal.plain_toRat, trim_toRat]

/-! ### Reading back -/

/-- The string is `format(..., 'f')` of the trimmed number. -/
theorem renderShape_eq (d : Decimal) :
    renderShape (analyzeDecimalShape d) = (trimDecimalCoefficient d).formatF := by
  generalize ht : trimDecimalCoefficient d = t
  have hshape : t.coeff ≠ 0 → (analyzeDecimalShape d).sign = t.neg
      ∧ (analyzeDecimalShape d).coefficient = t.coeff
      ∧ (analyzeDecimalShape d).exponent = t.exp := by
    intro hne
    unfold analyzeDecimalShape
    simp only [ht, if_neg hne]
    split_ifs <;> exact ⟨rfl, rfl, rfl⟩
  by_cases hzero : t.coeff = 0
  · have hz : t = ⟨false, 0, 0⟩ := by
      rw [← ht] at hzero ⊢
      unfold trimDecimalCoefficient at hzero ⊢
      split_ifs at hzero ⊢ with hc hexp
      · rfl
      · have hvalue := stripZeros_value (numDigits d.coeff) d.coeff
        dsimp only at hzero
        rw [hzero, zero_mul] at hvalue
        exact absurd hvalue.symm hc
      · exact absurd hzero hc
    unfold analyzeDecimalShape
    simp only [ht, hz, if_true]
    rfl
  · obtain ⟨hsign, hcoeff, hexp⟩ := hshape hzero
    unfold renderShape Decimal.formatF
    simp only [hsign, hcoeff, hexp, hzero, if_false, false_and]
    have hlen : 0 < (natText t.coeff).length := List.length_pos_iff.mpr (natText_ne_nil _)
    by_cases hpos : 0 ≤ t.exp
    · rw [if_pos hpos, if_neg (by omega)]
      by_cases hp : 0 < t.exp
      · rw [if_pos (by omega)]
        congr 3
        omega
      · have h0 : t.exp = 0 := by omega
        rw [h0]
        simp [zeros]
    · rw [if_neg hpos]
      by_cases hspl : 0 < ((natText t.coeff).length : ℤ) + t.exp
      · rw [if_pos hspl, if_neg (by omega), if_neg (by omega), Int.add_comm]
      · rw [if_neg hspl, if_pos (by omega), Int.add_comm]

variable {d : Decimal}

/-- **What is written is read back as the canonical representation.** -/
theorem parse_canonicalString {t : Text} (h : decimalToCanonicalString d = .ok t) :
    Decimal.parse? t = some (canonical d) := by
  unfold decimalToCanonicalString at h
  dsimp only at h
  split_ifs at h
  cases h
  rw [renderShape_eq, Decimal.parse_formatF, canonical]

theorem trim_of_exp (hc : d.coeff ≠ 0) (he : 0 ≤ d.exp) : trimDecimalCoefficient d = d := by
  simp [trimDecimalCoefficient, hc, he.not_gt]

theorem trim_of_mod (hmod : d.coeff % 10 ≠ 0) : trimDecimalCoefficient d = d := by
  have hc : d.coeff ≠ 0 := fun h => hmod (by rw [h])
  unfold trimDecimalCoefficient
  rw [if_neg hc, stripZeros_of_mod hmod]
  split_ifs
  · simp
  · rfl

theorem canonical_of_exp (hc : d.coeff ≠ 0) (he : 0 ≤ d.exp) :
    canonical (Decimal.plain d) = Decimal.plain d := by
  unfold Decimal.plain
  split_ifs with hpos
  · have hne : d.coeff * 10 ^ d.exp.toNat ≠ 0 := by positivity
    rw [canonical, trim_of_exp hne le_rfl]
    rfl
  · rw [canonical, trim_of_exp hc he, Decimal.plain_of_nonpos (by omega)]

/-- **A canonical representation is written and read back as it is.** -/
theorem canonical_canonical (d : Decimal) : canonical (canonical d) = canonical d := by
  have hdef : canonical d = (trimDecimalCoefficient d).plain := rfl
  by_cases hc : d.coeff = 0
  · have hzero : canonical d = ⟨false, 0, 0⟩ := by
      rw [hdef, trimDecimalCoefficient, if_pos hc]
      rfl
    rw [hzero]
    rfl
  · by_cases hexp : d.exp < 0
    · have hmod := stripZeros_mod hc (lt_pow_numDigits d.coeff)
      rw [hdef]
      unfold trimDecimalCoefficient
      rw [if_neg hc, if_pos hexp]
      generalize stripZeros (numDigits d.coeff) d.coeff = stripped at hmod ⊢
      rcases lt_or_ge (d.exp + stripped.2) 0 with hneg | hpos
      · rw [Decimal.plain_of_nonpos hneg.le, canonical, trim_of_mod hmod,
          Decimal.plain_of_nonpos hneg.le]
      · have hne : stripped.1 ≠ 0 := fun h => hmod (by rw [h])
        exact canonical_of_exp hne hpos
    · rw [hdef, trim_of_exp hc (by omega)]
      exact canonical_of_exp hc (by omega)

end TraderAssist
