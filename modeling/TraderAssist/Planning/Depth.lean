/-
TraderAssist/Planning/Depth.lean

How `assess_l2` consumes the book (`planning.py`).

A book with less quote value than the reference order is used up and found
insufficient.  A deeper one splits where the order is filled: the levels before
are taken whole and the one there in part (`exists_split`), and what comes after
is not read.  The average price of what was taken lies beyond the touch because
every accepted level does.
-/
import TraderAssist.Planning.Plan
import Mathlib.Algebra.Order.BigOperators.Group.List
import Mathlib.Algebra.BigOperators.Ring.List
import Mathlib.Tactic.Linarith

namespace TraderAssist

open Py

variable {levels full rest : List (ℚ × ℚ)} {price size q : ℚ} {fill : BookFill}

/-- The quote value of some levels. -/
def depthOf (levels : List (ℚ × ℚ)) : ℚ := (levels.map fun level => level.1 * level.2).sum

/-- The quantity on some levels. -/
def baseOf (levels : List (ℚ × ℚ)) : ℚ := (levels.map Prod.snd).sum

/-- A level as it is retained, with its quantity rounded. -/
def retained (level : ℚ × ℚ) : ℚ × ℚ := (level.1, cdiv level.2.num level.2.den)

/-- The levels of one side that `assess_l2` accepts. -/
structure Accepts (side : Side) (bestBid bestAsk : ℚ) (levels : List (ℚ × ℚ)) : Prop where
  positive : ∀ level ∈ levels, 0 < level.1 ∧ 0 < level.2
  asks : side = .long → (∀ level ∈ levels, bestAsk ≤ level.1) ∧ (levels.map Prod.fst).IsChain (· ≤ ·)
  bids : side = .short → (∀ level ∈ levels, level.1 ≤ bestBid) ∧ (levels.map Prod.fst).IsChain (· ≥ ·)

@[simp] theorem depthOf_cons : depthOf ((price, size) :: levels) = price * size + depthOf levels := by
  simp [depthOf]

/-! ### The loop -/

/-- A level that does not use up what remains is taken as a whole. -/
theorem consumeLevels_cons (hprice : 0 < price) (hsize : 0 < size) (h : price * size < fill.remaining) :
    consumeLevels fill ((price, size) :: levels) = consumeLevels
      { remaining := fill.remaining - price * size
        quote := fill.quote + price * size
        base := fill.base + size
        consumed := fill.consumed ++ [retained (price, size)] } levels := by
  have htake : ¬ price * size ≤ 0 := (mul_pos hprice hsize).not_ge
  have hleft : fill.remaining - price * size ≠ 0 := by linarith
  rw [consumeLevels, min_eq_left h.le]
  simp only [htake, hleft, if_false, mul_div_cancel_left₀ size hprice.ne']
  rfl

section Loop

variable (hpos : ∀ level ∈ levels, 0 < level.1 ∧ 0 < level.2)
include hpos

theorem depthOf_nonneg : 0 ≤ depthOf levels := by
  refine List.sum_nonneg fun x hx => ?_
  obtain ⟨level, hlevel, rfl⟩ := List.mem_map.mp hx
  exact (mul_pos (hpos level hlevel).1 (hpos level hlevel).2).le

/-- A book that is too thin is used up. -/
theorem consumeLevels_thin (h : depthOf levels < fill.remaining) :
    (consumeLevels fill levels).remaining = fill.remaining - depthOf levels := by
  induction levels generalizing fill with
  | nil => simp [consumeLevels, depthOf]
  | cons level levels ih =>
    obtain ⟨⟨hp, ht⟩, hpos⟩ := List.forall_mem_cons.mp hpos
    have hrest := depthOf_nonneg hpos
    rw [depthOf_cons] at h ⊢
    rw [consumeLevels_cons hp ht (by linarith), ih hpos]
    · ring
    · linarith

/-- A book that is deep enough is used level by level, the last one in part. -/
theorem consumeLevels_deep (hprice : 0 < price) (hq : 0 < q) (hsize : q ≤ size)
    (h : depthOf levels + price * q = fill.remaining) :
    consumeLevels fill (levels ++ (price, size) :: rest) =
      { remaining := 0
        quote := fill.quote + fill.remaining
        base := fill.base + (baseOf levels + q)
        consumed := fill.consumed ++ (levels ++ [(price, q)]).map retained } := by
  have hpart : 0 < price * q := mul_pos hprice hq
  induction levels generalizing fill with
  | nil =>
    have htake : min (price * size) fill.remaining = price * q := by
      rw [← h, depthOf, List.map_nil, List.sum_nil, zero_add]
      exact min_eq_right (mul_le_mul_of_nonneg_left hsize hprice.le)
    have hleft : fill.remaining = price * q := by simpa [depthOf] using h.symm
    rw [List.nil_append, consumeLevels, htake]
    simp [hpart.not_ge, hleft, mul_div_cancel_left₀ q hprice.ne', baseOf, retained]
  | cons level levels ih =>
    obtain ⟨⟨hp, ht⟩, hpos⟩ := List.forall_mem_cons.mp hpos
    have hrest := depthOf_nonneg hpos
    rw [depthOf_cons] at h
    rw [List.cons_append, consumeLevels_cons hp ht (by linarith), ih hpos (by dsimp only; linarith)]
    simp [baseOf]
    ring_nf

/-- Where a deep book is used up. -/
theorem exists_split {r : ℚ} (hr : 0 < r) (h : r ≤ depthOf levels) :
    ∃ full price size rest q, levels = full ++ (price, size) :: rest ∧ 0 < q ∧ q ≤ size ∧
      depthOf full + price * q = r := by
  induction levels generalizing r with
  | nil => exact absurd (hr.trans_le h) (lt_irrefl _)
  | cons level levels ih =>
    obtain ⟨p, t⟩ := level
    obtain ⟨⟨hp, -⟩, hpos⟩ := List.forall_mem_cons.mp hpos
    rw [depthOf_cons] at h
    rcases le_or_gt r (p * t) with hle | hlt
    · refine ⟨[], p, t, levels, r / p, rfl, div_pos hr hp, (div_le_iff₀' hp).mpr hle, ?_⟩
      simp [depthOf, mul_div_cancel₀ r hp.ne']
    · obtain ⟨full, p', t', rest, q, rfl, hq, hle, hsum⟩ := @ih hpos (r - p * t) (by linarith) (by linarith)
      exact ⟨(p, t) :: full, p', t', rest, q, rfl, hq, hle, by rw [depthOf_cons]; linarith⟩

end Loop

/-! ### The assessment -/

section Assessment

variable {marketId coin provenanceHash : Text} {side : Side} {observedAtMs : ℤ} {bestBid bestAsk : ℚ}
  (hbbo : 0 < bestBid ∧ bestBid < bestAsk ∧ 0 ≤ observedAtMs)
  (hid : marketId ≠ [] ∧ coin ≠ [] ∧ provenanceHash ≠ [])

/-- Prices beyond the touch average to one beyond the touch. -/
theorem Accepts.direction (h : Accepts side bestBid bestAsk (full ++ (price, size) :: rest)) (hq : 0 < q) :
    0 ≤ side.pick (depthOf full + price * q - bestAsk * (baseOf full + q))
      (bestBid * (baseOf full + q) - (depthOf full + price * q)) := by
  have hsum : ∀ c, c * baseOf full = (full.map fun level => c * level.2).sum := fun c =>
    (List.sum_map_mul_left full Prod.snd c).symm
  have hpos : ∀ level ∈ full, 0 ≤ level.2 := fun level hl => (h.positive level (by simp [hl])).2.le
  cases side with
  | long =>
    have hask := (h.asks rfl).1
    have hfull : bestAsk * baseOf full ≤ depthOf full := by
      rw [hsum]
      exact List.sum_le_sum fun level hl => mul_le_mul_of_nonneg_right (hask level (by simp [hl])) (hpos level hl)
    have hlast := mul_le_mul_of_nonneg_right (hask (price, size) (by simp)) hq.le
    show 0 ≤ _ - _
    linarith
  | short =>
    have hbid := (h.bids rfl).1
    have hfull : depthOf full ≤ bestBid * baseOf full := by
      rw [hsum]
      exact List.sum_le_sum fun level hl => mul_le_mul_of_nonneg_right (hbid level (by simp [hl])) (hpos level hl)
    have hlast := mul_le_mul_of_nonneg_right (hbid (price, size) (by simp)) hq.le
    show 0 ≤ _ - _
    linarith

include hbbo hid

/-- What is assessed of an accepted book is what the loop leaves. -/
theorem assessL2_congr (h : Accepts side bestBid bestAsk levels) {levels' : List (ℚ × ℚ)}
    (h' : Accepts side bestBid bestAsk levels') (hfill : consumeLevels {} levels' = consumeLevels {} levels) :
    assessL2 marketId coin side observedAtMs bestBid bestAsk levels' provenanceHash =
      assessL2 marketId coin side observedAtMs bestBid bestAsk levels provenanceHash := by
  unfold assessL2
  simp only [require, if_pos hbbo, if_pos hid, if_pos h.positive, if_pos h.asks, if_pos h.bids,
    if_pos h'.positive, if_pos h'.asks, if_pos h'.bids, hfill]

/-- **The book is consumed exactly.** -/
theorem assess_l2_exact (h : Accepts side bestBid bestAsk levels) :
    ∃ a, assessL2 marketId coin side observedAtMs bestBid bestAsk levels provenanceHash = .ok a ∧
      (a.sufficientDepth = true ↔ 1000 ≤ depthOf levels) ∧
      (a.sufficientDepth = true → let fill := consumeLevels {} levels
        fill.quote = 1000 ∧
        (∃ full price size rest q, levels = full ++ (price, size) :: rest ∧ 0 < q ∧ q ≤ size ∧
          fill.quote = depthOf full + price * q ∧ fill.base = baseOf full + q ∧
          a.depthConsumed = (full ++ [(price, q)]).map retained) ∧
        side.pick (bestAsk ≤ fill.quote / fill.base) (fill.quote / fill.base ≤ bestBid) ∧
        ∀ more, Accepts side bestBid bestAsk (levels ++ more) →
          assessL2 marketId coin side observedAtMs bestBid bestAsk (levels ++ more) provenanceHash = .ok a) := by
  rcases lt_or_ge (depthOf levels) 1000 with hthin | hdeep
  · have hleft : 0 < (consumeLevels {} levels).remaining := by
      rw [consumeLevels_thin h.positive hthin]
      exact sub_pos.mpr hthin
    have hrun : ∃ a, assessL2 marketId coin side observedAtMs bestBid bestAsk levels provenanceHash = .ok a ∧
        a.sufficientDepth = false := by
      unfold assessL2
      simp only [require, if_pos hbbo, if_pos hid, if_pos h.positive, if_pos h.asks, if_pos h.bids,
        if_pos (Or.inl hleft)]
      exact ⟨_, rfl, rfl⟩
    obtain ⟨a, ha, hshort⟩ := hrun
    exact ⟨a, ha, by simp [hshort, hthin], fun h => by simp [hshort] at h⟩
  · obtain ⟨full, price, size, rest, q, rfl, hq, hsize, hsum⟩ :=
      exists_split h.positive (show (0 : ℚ) < 1000 by norm_num) hdeep
    have hpos : ∀ level ∈ full, 0 < level.1 ∧ 0 < level.2 := fun level hl => h.positive level (by simp [hl])
    have hprice : 0 < price := (h.positive (price, size) (by simp)).1
    have hfill : ∀ rest, consumeLevels {} (full ++ (price, size) :: rest) =
        ⟨0, 0 + 1000, 0 + (baseOf full + q), [] ++ (full ++ [(price, q)]).map retained⟩ := fun rest =>
      consumeLevels_deep hpos hprice hq hsize hsum
    have hbase : 0 < baseOf full + q := by
      refine add_pos_of_nonneg_of_pos (List.sum_nonneg fun x hx => ?_) hq
      obtain ⟨level, hl, rfl⟩ := List.mem_map.mp hx
      exact (hpos level hl).2.le
    have hdirection := h.direction hq
    rw [hsum] at hdirection
    have hside : 0 ≤ side.pick (1000 / (baseOf full + q) - side.pick bestAsk bestBid)
        (side.pick bestAsk bestBid - 1000 / (baseOf full + q)) := by
      cases side with
      | long => exact sub_nonneg.mpr ((le_div_iff₀ hbase).mpr (sub_nonneg.mp hdirection))
      | short => exact sub_nonneg.mpr ((div_le_iff₀ hbase).mpr (sub_nonneg.mp hdirection))
    have hrun : ∃ a, assessL2 marketId coin side observedAtMs bestBid bestAsk (full ++ (price, size) :: rest)
        provenanceHash = .ok a ∧ a.sufficientDepth = true ∧
          a.depthConsumed = (full ++ [(price, q)]).map retained := by
      unfold assessL2
      simp only [require, if_pos hbbo, if_pos hid, if_pos h.positive, if_pos h.asks, if_pos h.bids, hfill,
        zero_add, lt_irrefl, hbase.ne', or_self, if_false, if_pos hside]
      exact ⟨_, rfl, rfl, rfl⟩
    obtain ⟨a, ha, hdeep', hconsumed⟩ := hrun
    refine ⟨a, ha, iff_of_true hdeep' hdeep, fun _ => ?_⟩
    rw [hfill]
    refine ⟨by norm_num, ⟨full, price, size, rest, q, rfl, hq, hsize, by rw [hsum, zero_add], zero_add _, hconsumed⟩,
      ?_, fun more hmore => ?_⟩
    · simp only [zero_add]
      cases side with
      | long => exact sub_nonneg.mp hside
      | short => exact sub_nonneg.mp hside
    · rw [← ha]
      refine assessL2_congr hbbo hid h hmore ?_
      rw [hfill, List.append_assoc, List.cons_append, hfill]

end Assessment

theorem assess_l2_exact_asks : ∃ a, assessL2 ['m'] ['c'] .long 0 99 100 [(100, 5), (101, 6)] ['h'] = .ok a ∧
    a.sufficientDepth = true := by
  have hbook : Accepts .long 99 100 [(100, 5), (101, 6)] := by
    refine ⟨by simp, fun _ => ?_, nofun⟩
    norm_num
  obtain ⟨a, ha, hdepth, -⟩ := assess_l2_exact (show (0 : ℚ) < 99 ∧ (99 : ℚ) < 100 ∧ (0 : ℤ) ≤ 0 by norm_num)
    (show ['m'] ≠ [] ∧ ['c'] ≠ [] ∧ ['h'] ≠ [] by simp) hbook
  exact ⟨a, ha, hdepth.mpr (by norm_num [depthOf])⟩

end TraderAssist
