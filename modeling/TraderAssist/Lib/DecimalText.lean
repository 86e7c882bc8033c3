/-
TraderAssist/Lib/DecimalText.lean

Printed forms of finite decimals: `str(d)`, `format(d, 'f')`, and the reader
`Decimal(text)`.  Texts are lists of characters, so that closed ones evaluate.

The positional forms all have one shape, `pointText`: sign, integer digits,
and a fraction after a point unless it is empty.  `parse_pointText` reads that
shape back, and the round trip of `format(d, 'f')` follows from it:

    Decimal.parse? d.formatF = some d.plain

where `plain` writes a positive exponent out in zeros.  So the value always
survives, and the representation does exactly when the exponent is not
positive.
-/
import Mathlib.Data.List.TakeWhile
import TraderAssist.Lib.Decimal

namespace Py

abbrev Text := List Char

instance : LawfulBEq Text := inferInstance

/-- `str(n)` for a natural number. -/
def natText (n : ℕ) : Text := Nat.toDigits 10 n

def zeros (n : ℕ) : Text := List.replicate n '0'

/-- `"%+d" % z`. -/
def signedText (z : ℤ) : Text := (if z < 0 then '-' else '+') :: natText z.natAbs

/-- `sep.join(parts)` for a one character separator. -/
def joinText (sep : Char) : List Text → Text
  | [] => []
  | [t] => t
  | t :: ts => t ++ sep :: joinText sep ts

/-- Sign, integer digits, and the fraction after a point when there is one. -/
def pointText (neg : Bool) (ip fp : Text) : Text :=
  (if neg then ['-'] else []) ++ ip ++ (if fp = [] then [] else '.' :: fp)

namespace Decimal

/-- `str(d)`: positional when the exponent is not positive and the number is
not too small, scientific otherwise. -/
def str (d : Decimal) : Text :=
  let digits := natText d.coeff
  let leftdigits : ℤ := d.exp + digits.length
  let dotplace : ℤ := if d.exp ≤ 0 ∧ -6 < leftdigits then leftdigits else 1
  let body :=
    if dotplace ≤ 0 then '0' :: '.' :: (zeros (-dotplace).toNat ++ digits)
    else if (digits.length : ℤ) ≤ dotplace then digits ++ zeros (dotplace - digits.length).toNat
    else digits.take dotplace.toNat ++ '.' :: digits.drop dotplace.toNat
  let expPart := if leftdigits = dotplace then [] else 'E' :: signedText (leftdigits - dotplace)
  (if d.neg then ['-'] else []) ++ body ++ expPart

/-- `format(d, 'f')`. -/
def formatF (d : Decimal) : Text :=
  -- a zero with a positive exponent is rescaled to exponent zero first
  let e := if d.coeff = 0 ∧ 0 < d.exp then 0 else d.exp
  let digits := natText d.coeff
  let dotplace : ℤ := e + digits.length
  if dotplace ≤ 0 then pointText d.neg ['0'] (zeros (-dotplace).toNat ++ digits)
  else if (digits.length : ℤ) < dotplace then
    pointText d.neg (digits ++ zeros (dotplace - digits.length).toNat) []
  else pointText d.neg (digits.take dotplace.toNat) (digits.drop dotplace.toNat)

/-- Reads an exponent such as `+12`. -/
def parseExp? (t : Text) : Option ℤ :=
  let (neg, ds) := match t with
    | '-' :: r => (true, r)
    | '+' :: r => (false, r)
    | r => (false, r)
  if ds = [] ∨ ¬ ds.all Char.isDigit then none
  else
    let n : ℤ := Nat.ofDigitChars 10 ds 0
    some (if neg then -n else n)

/-- Digits before and after the point, and what follows them. -/
def splitPoint (t : Text) : Text × Text × Text :=
  let ip := t.takeWhile Char.isDigit
  match t.dropWhile Char.isDigit with
  | '.' :: r => (ip, r.takeWhile Char.isDigit, r.dropWhile Char.isDigit)
  | r => (ip, [], r)

/-- Unsigned part of the reader. -/
def parseUnsigned? (neg : Bool) (t : Text) : Option Decimal :=
  let (ip, fp, rest) := splitPoint t
  if ip = [] ∧ fp = [] then none
  else
    let d : Decimal := ⟨neg, Nat.ofDigitChars 10 (ip ++ fp) 0, -(fp.length : ℤ)⟩
    match rest with
    | [] => some d
    | c :: r =>
      if c = 'E' ∨ c = 'e' then (parseExp? r).map fun e => { d with exp := d.exp + e }
      else none

/-- `Decimal(text)` on the finite numerals; `none` where the constructor raises. -/
def parse? (t : Text) : Option Decimal :=
  match t with
  | '-' :: r => parseUnsigned? true r
  | '+' :: r => parseUnsigned? false r
  | r => parseUnsigned? false r

/-- The representation with a positive exponent written out in zeros. -/
def plain (d : Decimal) : Decimal :=
  if 0 < d.exp then ⟨d.neg, d.coeff * 10 ^ d.exp.toNat, 0⟩ else d

end Decimal

/-! ### Digit texts -/

/-- Only decimal digits. -/
def AllDigits (t : Text) : Prop := ∀ c ∈ t, c.isDigit = true

theorem allDigits_natText (n : ℕ) : AllDigits (natText n) := fun _ hc =>
  Nat.isDigit_of_mem_toDigits (by norm_num) (by norm_num) hc

theorem allDigits_zeros (n : ℕ) : AllDigits (zeros n) := by
  intro c hc
  rw [List.eq_of_mem_replicate hc]
  rfl

theorem AllDigits.append {s t : Text} (hs : AllDigits s) (ht : AllDigits t) : AllDigits (s ++ t) := by
  intro c hc
  rcases List.mem_append.mp hc with h | h
  · exact hs c h
  · exact ht c h

theorem AllDigits.take {t : Text} (h : AllDigits t) (n : ℕ) : AllDigits (t.take n) :=
  fun c hc => h c (List.mem_of_mem_take hc)

theorem AllDigits.drop {t : Text} (h : AllDigits t) (n : ℕ) : AllDigits (t.drop n) :=
  fun c hc => h c (List.mem_of_mem_drop hc)

theorem natText_ne_nil (n : ℕ) : natText n ≠ [] := Nat.toDigits_ne_nil

theorem natText_injective : Function.Injective natText := by
  intro m n h
  have hm := Nat.ofDigitChars_ten_toDigits (n := m)
  have hn := Nat.ofDigitChars_ten_toDigits (n := n)
  rw [← hm, ← hn]
  exact congrArg (fun t => Nat.ofDigitChars 10 t 0) h

/-- A digit text followed by a non-digit determines both parts. -/
theorem AllDigits.append_cons_inj {s t u v : Text} {c : Char} (hs : AllDigits s)
    (ht : AllDigits t) (hc : c.isDigit = false) (h : s ++ c :: u = t ++ c :: v) : s = t ∧ u = v := by
  have hspan : ∀ {x y : Text}, AllDigits x → (x ++ c :: y).takeWhile Char.isDigit = x := by
    intro x y hx
    rw [List.takeWhile_append_of_pos hx, List.takeWhile_cons_of_neg (by simp [hc]), List.append_nil]
  have hst : s = t := by rw [← hspan (y := u) hs, h, hspan ht]
  subst hst
  exact ⟨rfl, by simpa using h⟩

/-! ### Reading positional texts back -/

namespace Decimal

theorem splitPoint_pointText {ip fp : Text} (hi : AllDigits ip) (hf : AllDigits fp) :
    splitPoint (pointText false ip fp) = (ip, fp, []) := by
  have hdrop : ∀ {t : Text}, AllDigits t → t.dropWhile Char.isDigit = [] := by
    intro t ht
    exact List.dropWhile_eq_nil_iff.mpr ht
  have htake : ∀ {t : Text}, AllDigits t → t.takeWhile Char.isDigit = t := by
    intro t ht
    exact List.takeWhile_eq_self_iff.mpr ht
  by_cases hnil : fp = []
  · subst hnil
    simp [pointText, splitPoint, htake hi, hdrop hi]
  · have ht : (ip ++ '.' :: fp).takeWhile Char.isDigit = ip := by
      rw [List.takeWhile_append_of_pos hi]
      simp
    have hd : (ip ++ '.' :: fp).dropWhile Char.isDigit = '.' :: fp := by
      rw [List.dropWhile_append_of_pos hi]
      simp
    simp [pointText, splitPoint, hnil, ht, hd, htake hf, hdrop hf]

theorem parse_pointText {neg : Bool} {ip fp : Text} (hne : ip ≠ []) (hi : AllDigits ip) (hf : AllDigits fp) :
    parse? (pointText neg ip fp) = some ⟨neg, Nat.ofDigitChars 10 (ip ++ fp) 0, -(fp.length : ℤ)⟩ := by
  have hun : parseUnsigned? neg (pointText false ip fp)
      = some ⟨neg, Nat.ofDigitChars 10 (ip ++ fp) 0, -(fp.length : ℤ)⟩ := by
    simp [parseUnsigned?, splitPoint_pointText hi hf, hne]
  cases neg with
  | true => exact hun
  | false =>
    -- the first character is a digit, so no sign is taken off
    obtain ⟨c, cs, rfl⟩ := List.exists_cons_of_ne_nil hne
    have hc : c.isDigit = true := hi c (.head _)
    have hm : c ≠ '-' := by rintro rfl; exact absurd hc (by decide)
    have hp : c ≠ '+' := by rintro rfl; exact absurd hc (by decide)
    rw [← hun]
    unfold parse?
    split
    · rename_i heq; exact absurd (List.cons.inj heq).1 hm
    · rename_i heq; exact absurd (List.cons.inj heq).1 hp
    · rfl

theorem plain_toRat (d : Decimal) : d.plain.toRat = d.toRat := by
  unfold plain
  split_ifs with h
  · have hpow : pow10 d.exp = ((10 ^ d.exp.toNat : ℕ) : ℚ) := by
      rw [← pow10_natCast, Int.toNat_of_nonneg h.le]
    cases hneg : d.neg <;> simp [toRat, hneg, hpow]
  · rfl

theorem plain_of_nonpos {d : Decimal} (h : d.exp ≤ 0) : d.plain = d := by
  simp [plain, h.not_gt]

/-- Fractions shorter than the coefficient and the padding before it. -/
theorem ofDigitChars_zero_cons (n : ℕ) (c : ℕ) :
    Nat.ofDigitChars 10 (['0'] ++ (zeros n ++ natText c)) 0 = c := by
  have hz : ['0'] ++ (zeros n ++ natText c) = zeros (n + 1) ++ natText c := by
    simp [zeros, List.replicate_succ]
  rw [hz, Nat.ofDigitChars_append, zeros, Nat.ofDigitChars_replicate_zero]
  exact Nat.ofDigitChars_ten_toDigits

theorem ofDigitChars_zeros (n : ℕ) (c : ℕ) : Nat.ofDigitChars 10 (natText c ++ zeros n) 0 = c * 10 ^ n := by
  have hdig : Nat.ofDigitChars 10 (natText c) 0 = c := Nat.ofDigitChars_ten_toDigits
  rw [Nat.ofDigitChars_append, hdig, zeros, Nat.ofDigitChars_replicate_zero, mul_comm]

/-- **Round trip of `format(d, 'f')`**: the reader returns the representation
with a positive exponent written out. -/
theorem parse_formatF (d : Decimal) : parse? d.formatF = some d.plain := by
  obtain ⟨neg, c, e⟩ := d
  set n := (natText c).length with hn
  have hdig : Nat.ofDigitChars 10 (natText c) 0 = c := Nat.ofDigitChars_ten_toDigits
  unfold formatF
  dsimp only
  by_cases hz : c = 0 ∧ 0 < e
  · -- zero: one digit, exponent reset
    obtain ⟨rfl, he⟩ := hz
    have h1 : (natText 0).length = 1 := rfl
    simp only [he, and_self, if_true, h1, zero_add, Nat.cast_one, Int.toNat_one]
    rw [if_neg (by norm_num), if_neg (by norm_num)]
    have htake : (natText 0).take 1 = ['0'] := rfl
    have hdrop : (natText 0).drop 1 = [] := rfl
    have hz : AllDigits ['0'] := allDigits_zeros 1
    have hnil : AllDigits ([] : Text) := by simp [AllDigits]
    rw [htake, hdrop, parse_pointText (by simp) hz hnil]
    simp [plain, he, Nat.ofDigitChars]
  · rw [if_neg hz]
    by_cases h₁ : e + (n : ℤ) ≤ 0
    · have h0 : AllDigits ['0'] := allDigits_zeros 1
      rw [if_pos h₁, parse_pointText (by simp) h0
        ((allDigits_zeros _).append (allDigits_natText c)), ofDigitChars_zero_cons]
      have he : e ≤ 0 := by omega
      rw [plain_of_nonpos he]
      simp only [List.length_append, zeros, List.length_replicate, ← hn]
      congr 2
      omega
    · rw [if_neg h₁]
      by_cases h₂ : (n : ℤ) < e + n
      · have he : 0 < e := by omega
        rw [if_pos h₂, parse_pointText (by simp [natText_ne_nil])
          ((allDigits_natText c).append (allDigits_zeros _)) (by simp [AllDigits]),
          List.append_nil, ofDigitChars_zeros]
        simp [plain, he]
      · rw [if_neg h₂, parse_pointText ?_ ((allDigits_natText c).take _)
          ((allDigits_natText c).drop _), List.take_append_drop, hdig]
        · have he : e ≤ 0 := by omega
          rw [plain_of_nonpos he]
          simp only [List.length_drop, ← hn]
          congr 2
          omega
        · intro hnil
          have hlen := congrArg List.length hnil
          simp only [List.length_take, ← hn, List.length_nil] at hlen
          omega

end Decimal

end Py
