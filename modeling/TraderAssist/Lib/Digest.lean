/-
TraderAssist/Lib/Digest.lean

Hash identities over concatenated strings.

A preimage is a text in which hex digests may stand; digests come from an
arbitrary type `δ`, and a hash is any function from preimages to `δ`.  A
digest is one symbol here: its hexadecimal form has a fixed length, so where it
starts and ends in a concatenation is never in doubt, while the texts around it
are really concatenated.

"No collisions" is `Function.Injective`.  It can be met: `nested` below is an
injective hash, which also evaluates, so that hypotheses of this form can be
discharged on concrete data.
-/
import TraderAssist.Lib.DecimalText

namespace Py

/-- A text with digests in it. -/
abbrev Preimage (δ : Type) := List (Char ⊕ δ)

variable {δ : Type}

def lit (t : Text) : Preimage δ := t.map Sum.inl

def hex (d : δ) : Preimage δ := [Sum.inr d]

theorem lit_injective : Function.Injective (lit : Text → Preimage δ) :=
  List.map_injective_iff.mpr Sum.inl_injective

/-- The text before the first digest, that digest and the rest are determined. -/
theorem lit_hex_inj {s t : Text} {d e : δ} {u v : Preimage δ}
    (h : lit s ++ (hex d ++ u) = lit t ++ (hex e ++ v)) : s = t ∧ d = e ∧ u = v := by
  induction s generalizing t with
  | nil =>
    cases t with
    | nil => simpa [lit, hex] using h
    | cons c t => simp [lit, hex] at h
  | cons c s ih =>
    cases t with
    | nil => simp [lit, hex] at h
    | cons c' t =>
      simp only [lit, List.map_cons, List.cons_append, List.cons.injEq, Sum.inl.injEq] at h
      obtain ⟨hs, hd, hu⟩ := ih h.2
      exact ⟨by rw [h.1, hs], hd, hu⟩

/-! ### A hash without collisions -/

namespace Digest

/-- One symbol, tagged, with the length of a digest in front of it. -/
def symbol : Char ⊕ List ℕ → List ℕ
  | .inl c => [0, c.toNat]
  | .inr d => 1 :: d.length :: d

/-- An injective hash into lists of numbers. -/
def nested (p : Preimage (List ℕ)) : List ℕ := p.flatMap symbol

theorem symbol_append_inj {a b : Char ⊕ List ℕ} {u v : List ℕ}
    (h : symbol a ++ u = symbol b ++ v) : a = b ∧ u = v := by
  rcases a with c | d <;> rcases b with c' | d'
  · simp only [symbol, List.cons_append, List.nil_append, List.cons.injEq, true_and] at h
    exact ⟨congrArg Sum.inl (Char.toNat_inj.mp h.1), h.2⟩
  · simp [symbol] at h
  · simp [symbol] at h
  · simp only [symbol, List.cons_append, List.cons.injEq, true_and] at h
    obtain ⟨rfl, huv⟩ := List.append_inj h.2 h.1
    exact ⟨rfl, huv⟩

theorem nested_injective : Function.Injective nested := by
  intro p
  induction p with
  | nil =>
    rintro (- | ⟨b, q⟩) h
    · rfl
    · rcases b with c | d <;> simp [nested, symbol] at h
  | cons a p ih =>
    rintro (- | ⟨b, q⟩) h
    · rcases a with c | d <;> simp [nested, symbol] at h
    · obtain ⟨rfl, hpq⟩ := symbol_append_inj (u := nested p) (v := nested q) h
      rw [ih hpq]

end Digest

end Py
