/-
TraderAssist/Lib/Datetime.lean

UTC date-times, as Python's `datetime` has them: civil fields, compared field by
field, and written in ISO form.

`isoformat` writes the microseconds only if there are any.  So texts of times do
not compare as the times do: by `isoText_le_iff` the comparison is wrong exactly
for two times of one second of which one lies on the full second.
-/
import Mathlib.Data.Char
import Mathlib.Data.Prod.Lex
import TraderAssist.Lib.DecimalText

namespace Py

/-! ### Numbers of a fixed width -/

/-- The last `w` decimal digits of a number. -/
def digits : ℕ → ℕ → Text
  | 0, _ => []
  | w + 1, n => Nat.digitChar (n / 10 ^ w % 10) :: digits w n

theorem length_digits (w n : ℕ) : (digits w n).length = w := by
  induction w with
  | zero => rfl
  | succ w ih => rw [digits, List.length_cons, ih]

theorem digitChar_lt_iff {a b : ℕ} (ha : a < 10) (hb : b < 10) :
    Nat.digitChar a < Nat.digitChar b ↔ a < b := by
  have h : ∀ a b : Fin 10, Nat.digitChar a < Nat.digitChar b ↔ a < b := by decide
  exact h ⟨a, ha⟩ ⟨b, hb⟩

theorem digitChar_inj {a b : ℕ} (ha : a < 10) (hb : b < 10) : Nat.digitChar a = Nat.digitChar b ↔ a = b := by
  have h : ∀ a b : Fin 10, Nat.digitChar a = Nat.digitChar b ↔ a = b := by decide
  exact (h ⟨a, ha⟩ ⟨b, hb⟩).trans Fin.mk_eq_mk

/-- Two numbers with a leading digit. -/
theorem leading_lt_iff {p a b r s : ℕ} (hr : r < p) (hs : s < p) :
    r + p * a < s + p * b ↔ a < b ∨ a = b ∧ r < s := by
  rcases lt_trichotomy a b with h | rfl | h
  · have : p * (a + 1) ≤ p * b := Nat.mul_le_mul_left p h
    rw [Nat.mul_succ] at this
    exact ⟨fun _ => .inl h, fun _ => by omega⟩
  · simp
  · have : p * (b + 1) ≤ p * a := Nat.mul_le_mul_left p h
    rw [Nat.mul_succ] at this
    constructor
    · intro _
      omega
    · rintro (h' | ⟨h', -⟩) <;> omega

variable {x y : Text}

theorem cons_le_iff {c d : Char} : c :: x ≤ d :: y ↔ c < d ∨ c = d ∧ x ≤ y := by
  rw [← not_lt, ← not_lt (a := y)]
  exact List.cons_le_cons_iff

/-- **Texts that start with numbers of one width compare as the numbers do.** -/
theorem digits_append_le_iff (w : ℕ) {n m : ℕ} : digits w n ++ x ≤ digits w m ++ y
      ↔ n % 10 ^ w < m % 10 ^ w ∨ n % 10 ^ w = m % 10 ^ w ∧ x ≤ y := by
  induction w with
  | zero => simp [digits, Nat.mod_one]
  | succ w ih =>
    have hn := Nat.mod_lt (n / 10 ^ w) (show 0 < 10 by norm_num)
    have hm := Nat.mod_lt (m / 10 ^ w) (show 0 < 10 by norm_num)
    have hrn := Nat.mod_lt n (show 0 < 10 ^ w by positivity)
    have hrm := Nat.mod_lt m (show 0 < 10 ^ w by positivity)
    rw [digits, digits, List.cons_append, List.cons_append, cons_le_iff, digitChar_lt_iff hn hm, digitChar_inj hn hm, Nat.mod_pow_succ, Nat.mod_pow_succ, leading_lt_iff hrn hrm]
    have heq : n % 10 ^ w + 10 ^ w * (n / 10 ^ w % 10) = m % 10 ^ w + 10 ^ w * (m / 10 ^ w % 10)
        ↔ n / 10 ^ w % 10 = m / 10 ^ w % 10 ∧ n % 10 ^ w = m % 10 ^ w := by
      constructor
      · intro h
        have h₁ := (@leading_lt_iff _ (n / 10 ^ w % 10) (m / 10 ^ w % 10) _ _ hrn hrm).not.mp h.not_lt
        have h₂ := (@leading_lt_iff _ (m / 10 ^ w % 10) (n / 10 ^ w % 10) _ _ hrm hrn).not.mp h.not_gt
        omega
      · rintro ⟨h, h'⟩
        rw [h, h']
    tauto

/-! ### Civil times -/

def isLeap (y : ℕ) : Bool := y % 4 = 0 ∧ (y % 100 ≠ 0 ∨ y % 400 = 0)

def daysInMonth (y m : ℕ) : ℕ :=
  if m = 2 then if isLeap y then 29 else 28
  else if m ∈ [4, 6, 9, 11] then 30 else 31

/-- A UTC `datetime`. -/
structure Datetime where
  year : ℕ
  month : ℕ
  day : ℕ
  hour : ℕ
  minute : ℕ
  second : ℕ
  microsecond : ℕ
  valid : (1 ≤ year ∧ year ≤ 9999) ∧ (1 ≤ month ∧ month ≤ 12) ∧ (1 ≤ day ∧ day ≤ daysInMonth year month)
    ∧ hour < 24 ∧ minute < 60 ∧ second < 60 ∧ microsecond < 1000000
deriving DecidableEq

namespace Datetime

/-- The fields down to the second. -/
def toSecond (d : Datetime) : ℕ ×ₗ ℕ ×ₗ ℕ ×ₗ ℕ ×ₗ ℕ ×ₗ ℕ :=
  toLex (d.year, toLex (d.month, toLex (d.day, toLex (d.hour, toLex (d.minute, d.second)))))

def fields (d : Datetime) : (ℕ ×ₗ ℕ ×ₗ ℕ ×ₗ ℕ ×ₗ ℕ ×ₗ ℕ) ×ₗ ℕ := toLex (d.toSecond, d.microsecond)

theorem fields_injective : Function.Injective fields := by
  rintro ⟨⟩ ⟨⟩ h
  obtain ⟨⟨rfl, rfl, rfl, rfl, rfl, rfl⟩, rfl⟩ := h
  rfl

/-- Times in UTC are compared field by field. -/
instance : LinearOrder Datetime := LinearOrder.lift' fields fields_injective

variable {a b : Datetime}

theorem le_iff : a ≤ b ↔ a.toSecond < b.toSecond
    ∨ a.toSecond = b.toSecond ∧ a.microsecond ≤ b.microsecond :=
  Prod.Lex.toLex_le_toLex

/-! ### Calendar arithmetic -/

def make? (year month day hour minute second microsecond : ℕ) : Option Datetime :=
  if h : (1 ≤ year ∧ year ≤ 9999) ∧ (1 ≤ month ∧ month ≤ 12) ∧ (1 ≤ day ∧ day ≤ daysInMonth year month)
      ∧ hour < 24 ∧ minute < 60 ∧ second < 60 ∧ microsecond < 1000000 then
    some ⟨year, month, day, hour, minute, second, microsecond, h⟩
  else none

def daysBeforeMonth (y m : ℕ) : ℕ := ((List.range m).drop 1).foldl (fun n k => n + daysInMonth y k) 0

/-- Days since the day before 0001-01-01. -/
def toOrdinal (y m d : ℕ) : ℕ :=
  (y - 1) * 365 + (y - 1) / 4 - (y - 1) / 100 + (y - 1) / 400 + daysBeforeMonth y m + d

/-- `_ord2ymd`. -/
def fromOrdinal (ordinal : ℕ) : ℕ × ℕ × ℕ :=
  let n := ordinal - 1
  let n400 := n / 146097
  let n := n % 146097
  let n100 := n / 36524
  let n := n % 36524
  let n4 := n / 1461
  let n := n % 1461
  let n1 := n / 365
  let n := n % 365
  let year := n400 * 400 + 1 + n100 * 100 + n4 * 4 + n1
  if n1 = 4 ∨ n100 = 4 then (year - 1, 12, 31)
  else
    let month := (n + 50) / 32
    let month := if n < daysBeforeMonth year month then month - 1 else month
    (year, month, n - daysBeforeMonth year month + 1)

/-- `now + timedelta(seconds=seconds)`; nothing beyond the year 9999. -/
def addSeconds (d : Datetime) (seconds : ℕ) : Option Datetime :=
  let total := toOrdinal d.year d.month d.day * 86400 + d.hour * 3600 + d.minute * 60 + d.second
    + seconds
  let (year, month, day) := fromOrdinal (total / 86400)
  let rest := total % 86400
  make? year month day (rest / 3600) (rest % 3600 / 60) (rest % 60) d.microsecond

/-- `datetime.fromtimestamp(seconds, UTC)`. -/
def ofEpochSeconds (seconds : ℕ) : Option Datetime :=
  (make? 1970 1 1 0 0 0 0).bind fun epoch => epoch.addSeconds seconds

example : (ofEpochSeconds 1709210096).map (fun d => (d.year, d.month, d.day, d.hour, d.minute, d.second))
    = some (2024, 2, 29, 12, 34, 56) := by decide +kernel

/-! ### Timestamps -/

/-- The double nearest to a number, ties to even, within the range of the normal ones. -/
def double (x : ℚ) : ℚ :=
  let a := x.num.natAbs
  let b := x.den
  let k : ℤ := (a.log2 : ℤ) - b.log2
  let k := if 2 ^ k.toNat * b ≤ a * 2 ^ (-k).toNat then k else k - 1
  let e := k - 52
  let m := divHalfEven (a * 2 ^ (-e).toNat) (b * 2 ^ e.toNat)
  (if x.num < 0 then -1 else 1) * (m * 2 ^ e.toNat : ℕ) / (2 ^ (-e).toNat : ℕ)

/-- Microseconds since the epoch. -/
def epochMicroseconds (d : Datetime) : ℤ :=
  ((((toOrdinal d.year d.month d.day : ℤ) - 719163) * 24 + d.hour) * 60 + d.minute) * 60000000
    + d.second * 1000000 + d.microsecond

/-- `int(d.timestamp() * 1000)`, in doubles. -/
def timestampMs (d : Datetime) : ℤ :=
  let ms := double (double (d.epochMicroseconds / 1000000) * 1000)
  ms.num.tdiv ms.den

/-- The start of 2026. -/
def newYear : Datetime := ⟨2026, 1, 1, 0, 0, 0, 0, by decide⟩

example : timestampMs newYear = 1767225600000 := by decide +kernel

/-! ### ISO text -/

/-- The text down to the second. -/
def secondText (d : Datetime) : Text :=
  digits 4 d.year ++ '-' :: (digits 2 d.month ++ '-' :: (digits 2 d.day ++ 'T' ::
    (digits 2 d.hour ++ ':' :: (digits 2 d.minute ++ ':' :: digits 2 d.second))))

/-- The microseconds, if there are any. -/
def fractionText (d : Datetime) : Text :=
  if d.microsecond = 0 then [] else '.' :: digits 6 d.microsecond

/-- `isoformat().replace("+00:00", "Z")`. -/
def isoText (d : Datetime) : Text := d.secondText ++ (d.fractionText ++ ['Z'])

theorem small (d : Datetime) : d.year < 10 ^ 4 ∧ d.month < 10 ^ 2 ∧ d.day < 10 ^ 2
    ∧ d.hour < 10 ^ 2 ∧ d.minute < 10 ^ 2 ∧ d.second < 10 ^ 2 := by
  have hday : daysInMonth d.year d.month ≤ 31 := by
    unfold daysInMonth
    split_ifs <;> omega
  have hval := d.valid
  omega

/-- A field of a text, with the separator after it. -/
theorem field_le_iff {w n m : ℕ} (hn : n < 10 ^ w) (hm : m < 10 ^ w) {c : Char} :
    digits w n ++ c :: x ≤ digits w m ++ c :: y ↔ n < m ∨ n = m ∧ x ≤ y := by
  rw [digits_append_le_iff, Nat.mod_eq_of_lt hn, Nat.mod_eq_of_lt hm, cons_le_iff]
  simp

theorem lex_step {α β : Type} [LinearOrder α] [LinearOrder β] {a a' : α} {b b' : β} {R : Prop} :
    (toLex (a, b) < toLex (a', b') ∨ toLex (a, b) = toLex (a', b') ∧ R)
      ↔ a < a' ∨ a = a' ∧ (b < b' ∨ b = b' ∧ R) := by
  rw [Prod.Lex.toLex_lt_toLex, toLex_inj, Prod.mk.injEq]
  tauto

theorem secondText_append_le_iff : a.secondText ++ x ≤ b.secondText ++ y
      ↔ a.toSecond < b.toSecond ∨ a.toSecond = b.toSecond ∧ x ≤ y := by
  obtain ⟨hy, hmo, hd, hh, hmi, hs⟩ := a.small
  obtain ⟨hy', hmo', hd', hh', hmi', hs'⟩ := b.small
  simp only [secondText, toSecond, List.append_assoc, List.cons_append]
  rw [field_le_iff hy hy', field_le_iff hmo hmo', field_le_iff hd hd', field_le_iff hh hh',
    field_le_iff hmi hmi', digits_append_le_iff, Nat.mod_eq_of_lt hs, Nat.mod_eq_of_lt hs',
    lex_step, lex_step, lex_step, lex_step, lex_step]

/-! ### Compact text -/

/-- `strftime("%Y%m%dT%H%M%SZ")`, for years of four digits. -/
def compactText (d : Datetime) : Text :=
  digits 4 d.year ++ digits 2 d.month ++ digits 2 d.day ++ 'T' ::
    (digits 2 d.hour ++ digits 2 d.minute ++ digits 2 d.second ++ ['Z'])

theorem length_compactText (d : Datetime) : d.compactText.length = 16 := by
  simp [compactText, length_digits]

theorem slash_not_mem_digits (w n : ℕ) : '/' ∉ digits w n := by
  induction w with
  | zero => exact List.not_mem_nil
  | succ w ih =>
    rw [digits, List.mem_cons, not_or]
    refine ⟨?_, ih⟩
    have h : ∀ a : Fin 10, '/' ≠ Nat.digitChar a := by decide
    exact h ⟨_, Nat.mod_lt _ (by norm_num)⟩

theorem slash_not_mem_compactText (d : Datetime) : '/' ∉ d.compactText := by
  simp [compactText, slash_not_mem_digits]

/-! ### The order of texts -/

/-- Later than `now`, in the same second, while `now` lies on the full second: the
text is less. -/
def Early (a now : Datetime) : Prop :=
  a.toSecond = now.toSecond ∧ now.microsecond = 0 ∧ a.microsecond ≠ 0

/-- On the full second, and `now` in the same second after it: the text is greater. -/
def Late (a now : Datetime) : Prop :=
  a.toSecond = now.toSecond ∧ a.microsecond = 0 ∧ now.microsecond ≠ 0

instance (a now : Datetime) : Decidable (Early a now) := inferInstanceAs (Decidable (_ ∧ _ ∧ _))

instance (a now : Datetime) : Decidable (Late a now) := inferInstanceAs (Decidable (_ ∧ _ ∧ _))

theorem Early.lt {a now : Datetime} (h : Early a now) : now < a := by
  rw [← not_le, le_iff]
  obtain ⟨hsec, hnow, ha⟩ := h
  rw [hsec]
  rintro (hlt | ⟨-, hle⟩)
  · exact lt_irrefl _ hlt
  · omega

theorem Late.lt {a now : Datetime} (h : Late a now) : a < now :=
  Early.lt ⟨h.1.symm, h.2.1, h.2.2⟩

/-- **The order of the texts.** -/
theorem isoText_le_iff : a.isoText ≤ b.isoText ↔ (a ≤ b ∧ ¬ Late a b) ∨ Early a b := by
  have hdigits : ∀ d : Datetime, d.microsecond < 10 ^ 6 := fun d => by
    have := d.valid
    omega
  unfold isoText
  rw [secondText_append_le_iff, le_iff]
  by_cases hsec : a.toSecond = b.toSecond
  · -- one second: the fractions decide
    simp only [hsec, lt_irrefl, false_or, true_and, Late, Early, fractionText]
    by_cases ha : a.microsecond = 0 <;> by_cases hb : b.microsecond = 0
    · simp [ha, hb]
    · simp only [ha, hb, if_true, if_false, List.nil_append, List.cons_append]
      simp [cons_le_iff, hb]
    · simp only [ha, hb, if_true, if_false, List.nil_append, List.cons_append]
      simp [cons_le_iff, ha]
    · simp only [ha, hb, if_false, List.cons_append, cons_le_iff, digits_append_le_iff,
        Nat.mod_eq_of_lt (hdigits a), Nat.mod_eq_of_lt (hdigits b)]
      simp
      omega
  · simp [hsec, Late, Early]

end Datetime

end Py
