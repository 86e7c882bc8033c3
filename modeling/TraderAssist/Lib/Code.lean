/-
TraderAssist/Lib/Code.lean

Codes that know where they end.

A code writes a value as a list of numbers such that the value and what follows it can be
told apart.  Pairs, sums and lists of coded values are coded by concatenation, so every
structured value has a code; a code is an injective function into `List ℕ`, which
evaluates.  That is a hash without collisions for the values it codes, also where these
contain such hashes.
-/
import Mathlib.Data.Char
import TraderAssist.Lib.DecimalText

namespace Py

/-- A code of the values of `α`. -/
structure Code (α : Type) where
  encode : α → List ℕ
  append_inj : ∀ {a b : α} {u v : List ℕ}, encode a ++ u = encode b ++ v → a = b ∧ u = v

namespace Code

variable {α β : Type}

theorem injective (c : Code α) : Function.Injective c.encode := by
  intro a b h
  have h' : c.encode a ++ [] = c.encode b ++ [] := by rw [h]
  exact (c.append_inj h').1

def nat : Code ℕ where
  encode n := [n]
  append_inj h := by simpa using h

/-- The code of the image under an injective function. -/
def comap (c : Code β) (f : α → β) (hf : Function.Injective f) : Code α where
  encode a := c.encode (f a)
  append_inj h := ⟨hf (c.append_inj h).1, (c.append_inj h).2⟩

def prod (c : Code α) (d : Code β) : Code (α × β) where
  encode p := c.encode p.1 ++ d.encode p.2
  append_inj {p q u v} h := by
    rw [List.append_assoc, List.append_assoc] at h
    obtain ⟨h₁, hrest⟩ := c.append_inj h
    obtain ⟨h₂, huv⟩ := d.append_inj hrest
    exact ⟨Prod.ext h₁ h₂, huv⟩

def sum (c : Code α) (d : Code β) : Code (α ⊕ β) where
  encode
    | .inl a => 0 :: c.encode a
    | .inr b => 1 :: d.encode b
  append_inj {p q u v} h := by
    rcases p with a | b <;> rcases q with a' | b'
    · simp only [List.cons_append, List.cons.injEq, true_and] at h
      exact ⟨congrArg Sum.inl (c.append_inj h).1, (c.append_inj h).2⟩
    · simp at h
    · simp at h
    · simp only [List.cons_append, List.cons.injEq, true_and] at h
      exact ⟨congrArg Sum.inr (d.append_inj h).1, (d.append_inj h).2⟩

/-- A list, with a `1` before each element and a `0` after the last one. -/
def encodeList (c : Code α) : List α → List ℕ
  | [] => [0]
  | a :: l => 1 :: (c.encode a ++ encodeList c l)

theorem encodeList_append_inj (c : Code α) : ∀ {l m : List α} {u v : List ℕ},
    c.encodeList l ++ u = c.encodeList m ++ v → l = m ∧ u = v
  | [], [], _, _, h => ⟨rfl, by simpa [encodeList] using h⟩
  | [], _ :: _, _, _, h => by simp [encodeList] at h
  | _ :: _, [], _, _, h => by simp [encodeList] at h
  | a :: l, b :: m, u, v, h => by
    simp only [encodeList, List.cons_append, List.cons.injEq, true_and, List.append_assoc] at h
    obtain ⟨hab, hrest⟩ := c.append_inj h
    obtain ⟨hlm, huv⟩ := c.encodeList_append_inj hrest
    exact ⟨by rw [hab, hlm], huv⟩

def list (c : Code α) : Code (List α) := ⟨c.encodeList, c.encodeList_append_inj⟩

def bool : Code Bool := nat.comap Bool.toNat (by decide)

def int : Code ℤ :=
  (nat.sum nat).comap (fun z => match z with
    | .ofNat n => .inl n
    | .negSucc n => .inr n) (by
      rintro (m | m) (n | n) h <;> simp_all)

def text : Code Text := (nat.comap Char.toNat fun _ _ => Char.toNat_inj.mp).list

/-- The code of what was coded before. -/
def digest : Code (List ℕ) := nat.list

end Code

end Py
