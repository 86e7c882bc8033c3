/-
TraderAssist/Lib/Grid.lean

Sets of points on a grid of step `d`.

`Gapless d P` says that `P` holds of every grid point between two of its points.  For the
points of a list without repetitions this is what `max - min = (count - 1) * d` tests
(`span_eq_iff_gapless`), and what makes the sorted list go up in steps of `d`
(`Gapless.chain`).  A point that is at most one step beyond either end leaves no gap
(`Gapless.insert`).
-/
import Mathlib.Data.List.MinMax
import Mathlib.Order.Interval.Finset.Nat
import Mathlib.Tactic.Linarith
import Mathlib.Tactic.Ring

namespace Py

variable {d : ℕ} {P : ℕ → Prop}

/-- Every grid point between two points of `P` is one. -/
def Gapless (d : ℕ) (P : ℕ → Prop) : Prop :=
  ∀ ⦃x y z : ℕ⦄, P x → P y → x ≤ z → z ≤ y → d ∣ z → P z

/-- Grid points are at least a step apart. -/
theorem add_step_le {x z : ℕ} (hx : d ∣ x) (hz : d ∣ z) (h : x < z) : x + d ≤ z := by
  obtain ⟨a, rfl⟩ := hx
  obtain ⟨b, rfl⟩ := hz
  have hab : a < b := lt_of_mul_lt_mul_left h (Nat.zero_le d)
  calc d * a + d = d * (a + 1) := (Nat.mul_succ d a).symm
    _ ≤ d * b := Nat.mul_le_mul_left d hab

namespace Gapless

theorem congr {P' : ℕ → Prop} (h : Gapless d P) (hP : ∀ z, P' z ↔ P z) : Gapless d P' :=
  fun _ _ _ hx hy hxz hzy hz => (hP _).mpr (h ((hP _).mp hx) ((hP _).mp hy) hxz hzy hz)

/-- A set that goes on from each of its points but the last. -/
theorem of_next (hd : 0 < d) (hgrid : ∀ x, P x → d ∣ x)
    (h : ∀ x y, P x → P y → x < y → P (x + d)) : Gapless d P := by
  intro x y z hx hy hxz hzy hz
  obtain ⟨k, hk⟩ := (Nat.dvd_sub hz (hgrid x hx) : d ∣ z - x)
  obtain rfl : z = x + d * k := by omega
  clear hk hxz hz
  induction k with
  | zero => exact hx
  | succ k ih =>
    rw [Nat.mul_succ, ← Nat.add_assoc] at hzy ⊢
    exact h _ y (ih (by omega)) hy (by omega)

/-- A point at most one step below the points, and at most one step above them. -/
theorem insert {lo hi o : ℕ} (h : Gapless d P) (hlo : P lo) (hhi : P hi) (ho : d ∣ o)
    (hbelow : lo ≤ o + d) (habove : o ≤ hi + d) : Gapless d fun z => P z ∨ z = o := by
  rintro x y z (hx | rfl) (hy | rfl) hxz hzy hz
  · exact .inl (h hx hy hxz hzy hz)
  · -- `z` comes before the new point
    rcases hzy.eq_or_lt with rfl | hlt
    · exact .inr rfl
    · have := add_step_le hz ho hlt
      exact .inl (h hx hhi hxz (by omega) hz)
  · rcases hxz.eq_or_lt with rfl | hlt
    · exact .inr rfl
    · have := add_step_le ho hz hlt
      exact .inl (h hlo hy (by omega) hzy hz)
  · exact .inr (le_antisymm hzy hxz)

/-- The sorted points go up step by step. -/
theorem chain {l : List ℕ} (hsrt : l.Pairwise (· < ·)) (hgrid : ∀ x ∈ l, d ∣ x)
    (h : Gapless d (· ∈ l)) (hd : 0 < d) : l.IsChain fun x y => y = x + d := by
  induction l with
  | nil => exact .nil
  | cons x l ih =>
    obtain ⟨hx, hl⟩ := List.pairwise_cons.mp hsrt
    have hrest : Gapless d (· ∈ l) := by
      intro a b z ha hb haz hzb hz
      have hmem := h (.tail _ ha) (.tail _ hb) haz hzb hz
      exact (List.mem_cons.mp hmem).resolve_left fun hzx => absurd (hx a ha) (by omega)
    have ih := ih hl (fun y hy => hgrid y (.tail _ hy)) hrest
    cases l with
    | nil => exact .singleton x
    | cons y l =>
      refine List.isChain_cons_cons.mpr ⟨?_, ih⟩
      have hxy := hx y (.head _)
      have hstep := add_step_le (hgrid x (.head _)) (hgrid y (by simp)) hxy
      -- the next grid point is in the list, so it is not before `y`
      have hmem : x + d ∈ x :: y :: l := h (.head _) (.tail _ List.mem_cons_self)
        (by omega) hstep ((Nat.dvd_add_right (hgrid x (.head _))).mpr dvd_rfl)
      rcases List.mem_cons.mp hmem with heq | hmem
      · omega
      · rcases List.mem_cons.mp hmem with heq | hmem
        · exact heq.symm
        · exact ((List.pairwise_cons.mp hl).1 _ hmem).le.antisymm hstep

/-- Points that go up step by step leave no gap. -/
theorem of_chain {l : List ℕ} (hsrt : l.Pairwise (· < ·)) (hgrid : ∀ x ∈ l, d ∣ x)
    (h : l.IsChain fun x y => y = x + d) (hd : 0 < d) : Gapless d (· ∈ l) := by
  refine of_next hd hgrid fun x y hx hy hlt => ?_
  induction l with
  | nil => cases hx
  | cons a l ih =>
    obtain ⟨ha, hl⟩ := List.pairwise_cons.mp hsrt
    -- `y` is not the first point, since `x` comes before it
    replace hy : y ∈ l := by
      rcases List.mem_cons.mp hy with rfl | hy
      · rcases List.mem_cons.mp hx with rfl | hx
        · exact absurd hlt (lt_irrefl x)
        · exact absurd hlt (ha x hx).le.not_gt
      · exact hy
    rcases List.mem_cons.mp hx with rfl | hx
    · cases l with
      | nil => cases hy
      | cons b l =>
        rw [(List.isChain_cons_cons.mp h).1]
        exact .tail _ (.head _)
    · exact .tail _ (ih hl (fun x hx => hgrid x (.tail _ hx)) h.tail hx hy)

theorem iff_chain {l : List ℕ} (hsrt : l.Pairwise (· < ·)) (hgrid : ∀ x ∈ l, d ∣ x) (hd : 0 < d) :
    Gapless d (· ∈ l) ↔ l.IsChain fun x y => y = x + d :=
  ⟨fun h => h.chain hsrt hgrid hd, fun h => of_chain hsrt hgrid h hd⟩

end Gapless

/-- The ends of a list that goes up in steps of `d`. -/
theorem getLast_of_chain {α : Type} {f : α → ℕ} {a b : α} {l : List α}
    (h : (a :: l).IsChain fun x y => f y = f x + d) (hlast : (a :: l).getLast? = some b) :
    f b = f a + l.length * d := by
  induction l generalizing a with
  | nil =>
    obtain rfl : a = b := by simpa using hlast
    simp
  | cons c l ih =>
    obtain ⟨hac, hrest⟩ := List.isChain_cons_cons.mp h
    rw [ih hrest (by simpa using hlast), hac, List.length_cons]
    ring

/-! ### Counting -/

/-- The grid points from `lo` in `n` steps. -/
def gridPoints (d lo n : ℕ) : Finset ℕ := (Finset.range (n + 1)).image fun i => lo + i * d

theorem card_gridPoints (hd : 0 < d) (lo n : ℕ) : (gridPoints d lo n).card = n + 1 := by
  rw [gridPoints, Finset.card_image_of_injective, Finset.card_range]
  intro i j hij
  exact Nat.eq_of_mul_eq_mul_right hd (Nat.add_left_cancel hij)

theorem mem_gridPoints {lo n z : ℕ} (hd : 0 < d) (hlo : d ∣ lo) :
    z ∈ gridPoints d lo n ↔ d ∣ z ∧ lo ≤ z ∧ z ≤ lo + n * d := by
  rw [gridPoints, Finset.mem_image]
  constructor
  · rintro ⟨i, hi, rfl⟩
    have hi : i ≤ n := Nat.lt_succ_iff.mp (Finset.mem_range.mp hi)
    exact ⟨(Nat.dvd_add_right hlo).mpr (Nat.dvd_mul_left d i), Nat.le_add_right _ _,
      Nat.add_le_add_left (Nat.mul_le_mul_right d hi) lo⟩
  · rintro ⟨hz, hle, hub⟩
    obtain ⟨i, hi⟩ := (Nat.dvd_sub hz hlo : d ∣ z - lo)
    have hz' : z = lo + i * d := by
      rw [Nat.mul_comm] at hi
      omega
    refine ⟨i, Finset.mem_range.mpr (Nat.lt_succ_iff.mpr ?_), hz'.symm⟩
    rw [hz'] at hub
    exact Nat.le_of_mul_le_mul_right (Nat.le_of_add_le_add_left hub) hd

/-- **The count tells gaps**: distinct grid points from `lo` to `hi`. -/
theorem span_eq_iff_gapless {l : List ℕ} {lo hi : ℕ} (hd : 0 < d) (hnd : l.Nodup)
    (hgrid : ∀ x ∈ l, d ∣ x) (hlo : lo ∈ l ∧ ∀ x ∈ l, lo ≤ x) (hhi : hi ∈ l ∧ ∀ x ∈ l, x ≤ hi) :
    hi - lo = (l.length - 1) * d ↔ Gapless d (· ∈ l) := by
  obtain ⟨n, hn⟩ := (Nat.dvd_sub (hgrid hi hhi.1) (hgrid lo hlo.1) : d ∣ hi - lo)
  have hn : hi = lo + n * d := by
    have := hlo.2 hi hhi.1
    rw [Nat.mul_comm] at hn
    omega
  have hpos : 0 < l.length := List.length_pos_of_mem hlo.1
  have hcard : l.toFinset.card = l.length := List.toFinset_card_of_nodup hnd
  have hmem := @mem_gridPoints d lo n
  have hsub : l.toFinset ⊆ gridPoints d lo n := by
    intro z hz
    rw [List.mem_toFinset] at hz
    exact (hmem hd (hgrid lo hlo.1)).mpr ⟨hgrid z hz, hlo.2 z hz, hn ▸ hhi.2 z hz⟩
  have hfull : hi - lo = (l.length - 1) * d ↔ (gridPoints d lo n).card = l.toFinset.card := by
    rw [card_gridPoints hd, hcard, hn, Nat.add_sub_cancel_left]
    constructor
    · intro h
      have := Nat.eq_of_mul_eq_mul_right hd h
      omega
    · intro h
      rw [← h, Nat.add_sub_cancel]
  rw [hfull]
  constructor
  · intro h x y z hx hy hxz hzy hz
    rw [← List.mem_toFinset, Finset.eq_of_subset_of_card_le hsub h.le]
    exact (hmem hd (hgrid lo hlo.1)).mpr ⟨hz, (hlo.2 x hx).trans hxz, hn ▸ hzy.trans (hhi.2 y hy)⟩
  · intro h
    congr 1
    refine Finset.Subset.antisymm (fun z hz => ?_) hsub
    obtain ⟨hdvd, hle, hub⟩ := (hmem hd (hgrid lo hlo.1)).mp hz
    exact List.mem_toFinset.mpr (h hlo.1 hhi.1 hle (hn ▸ hub) hdvd)

end Py
