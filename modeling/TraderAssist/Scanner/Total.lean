/-
TraderAssist/Scanner/Total.lean

When a cross section raises.

The inputs are built from a market's history: the number of its bars, the value of its rolling
ATR, and its last bars.  A rolling ATR is zero as long as the market stands still, and the moves
of a mature market are divided by it; nothing else can raise.
-/
import TraderAssist.Continuation.Replay
import TraderAssist.Continuation.Rolling
import TraderAssist.Scanner.Lifetime

namespace TraderAssist

open Py

variable {δ : Type} {bars : List Bar} {history : List Bar}

/-! ### The ATR of a market that stands still -/

/-- No bar leaves the close of the first one. -/
def Still (history : List Bar) : Prop :=
  ∀ first ∈ history.head?, ∀ b ∈ history.tail, b.low = first.close ∧ b.high = first.close

instance (history : List Bar) : Decidable (Still history) :=
  match history with
  | [] => .isTrue fun _ h => by cases h
  | first :: rest =>
    decidable_of_iff (∀ b ∈ rest, b.low = first.close ∧ b.high = first.close)
      ⟨fun h _ hfirst => Option.some.inj hfirst ▸ h, fun h => h first rfl⟩

theorem still_iff : Still history ↔ ∀ x ∈ trueRanges history, x = 0 := by
  cases history with
  | nil => simp [Still, trueRanges]
  | cons first rest =>
    rw [trueRanges_eq_zero]
    simp [Still]

theorem wilderStep_eq_zero {current range : ℚ} (hcur : 0 ≤ current) (hrange : 0 ≤ range) :
    wilderStep current range = 0 ↔ current = 0 ∧ range = 0 := by
  constructor
  · intro h
    rcases hcur.lt_or_eq with hpos | rfl
    · exact absurd h (wilderStep_pos hpos hrange).ne'
    · refine ⟨rfl, ?_⟩
      rcases hrange.lt_or_eq with hpos | hzero
      · have hsum : 0 < cadd (cmul 13 0) range := by
          unfold cmul cadd
          rw [mul_zero, ctxRound_zero, zero_add]
          exact ctxRound_pos hpos
        exact absurd h (cdiv_pos hsum (by norm_num)).ne'
      · exact hzero.symm
  · rintro ⟨rfl, rfl⟩
    unfold wilderStep cdiv cadd cmul
    simp

theorem foldl_wilderStep_eq_zero {ranges : List ℚ} (hrngs : ∀ x ∈ ranges, 0 ≤ x) :
    ∀ {current : ℚ}, 0 ≤ current →
      (ranges.foldl wilderStep current = 0 ↔ current = 0 ∧ ∀ x ∈ ranges, x = 0) := by
  induction ranges with
  | nil => simp
  | cons x ranges ih =>
    intro current hcur
    have hx := hrngs x (.head _)
    have hnext : 0 ≤ wilderStep current x :=
      cdiv_nonneg (cadd_nonneg (ctxRound_nonneg (mul_nonneg (by norm_num) hcur)) hx) (by norm_num)
    rw [List.foldl_cons, ih (fun y hy => hrngs y (.tail _ hy)) hnext,
      wilderStep_eq_zero hcur hx, List.forall_mem_cons, and_assoc]

/-- **The rolling ATR is zero as long as the market stands still.** -/
theorem atrNow_eq_zero : atrNow history = 0 ↔ Still history := by
  have hnn : ∀ x ∈ trueRanges history, 0 ≤ x := trueRanges_nonneg
  have htake : ∀ x ∈ (trueRanges history).take 14, 0 ≤ x := fun x hx => hnn x (List.mem_of_mem_take hx)
  have hseed : atrSeed history = 0 ↔ ∀ x ∈ (trueRanges history).take 14, x = 0 := by
    rw [← csum_eq_zero htake]
    unfold atrSeed
    constructor
    · intro h
      by_contra hne
      exact absurd h (cdiv_pos (lt_of_le_of_ne (csum_nonneg htake) (Ne.symm hne)) (by norm_num)).ne'
    · intro h
      rw [h]
      simp [cdiv]
  have hseed_nonneg : 0 ≤ atrSeed history := cdiv_nonneg (csum_nonneg htake) (by norm_num)
  unfold atrNow
  rw [foldl_wilderStep_eq_zero (fun x hx => hnn x (List.mem_of_mem_drop hx)) hseed_nonneg, hseed, still_iff]
  constructor
  · rintro ⟨hfst, hrest⟩ x hx
    rw [← List.take_append_drop 14 (trueRanges history)] at hx
    rcases List.mem_append.mp hx with hx | hx
    · exact hfst x hx
    · exact hrest x hx
  · exact fun h => ⟨fun x hx => h x (List.mem_of_mem_take hx), fun x hx => h x (List.mem_of_mem_drop hx)⟩

/-! ### Inputs of one cadence -/

/-- An input as `scan_finalized` builds it from a history. -/
structure Built (item : ScannerMarketInput) (history : List Bar) : Prop where
  chronological : ∃ market, Chronological market .m5 item.bars5m
  nonempty : item.bars5m ≠ []
  count : item.historyCount = some history.length
  atr : ∃ a, history.foldlM RollingAtr.ingest {} = .ok a ∧ item.exactWilderAtr5m = a.value
  long : 288 ≤ history.length → 37 ≤ item.bars5m.length

theorem RollingOf.foldlM {a : RollingAtr} (h : RollingOf bars a) (more : List Bar) :
    ∃ a', more.foldlM RollingAtr.ingest a = .ok a' ∧ RollingOf (bars ++ more) a' := by
  induction more generalizing bars a with
  | nil => exact ⟨a, rfl, by simpa using h⟩
  | cons b more ih =>
    obtain ⟨next, hnext, hof⟩ := h.ingest b
    obtain ⟨last, hlast, hofLast⟩ := ih hof
    refine ⟨last, ?_, by simpa using hofLast⟩
    rw [List.foldlM_cons, hnext]
    exact hlast

section Item

variable {item : ScannerMarketInput} {history : List Bar}

theorem Built.length (h : Built item history) : item.history = history.length := by
  unfold ScannerMarketInput.history
  rw [h.count]
  rfl

/-- A mature market has its ATR. -/
theorem Built.exactAtr (h : Built item history) (hlong : 288 ≤ history.length) :
    item.exactAtr = .ok (atrNow history) := by
  obtain ⟨a, ha, hvalue⟩ := h.atr
  obtain ⟨a', ha', hof⟩ := RollingOf.nil.foldlM history
  obtain rfl : a = a' := Except.ok.inj (ha.symm.trans ha')
  unfold ScannerMarketInput.exactAtr
  rw [hvalue, hof.value, List.nil_append, atrValue, if_neg (by omega)]
  rfl

/-! ### What cannot raise -/

theorem barBack_returns {offset : ℕ} (h : offset < bars.length) :
    Sat (barBack bars offset) (fun bar => 0 < bar.close) fun _ => False := by
  unfold barBack
  rw [List.getElem?_eq_getElem (by simpa using h)]
  exact Bar.close_pos _

theorem require_returns {p : Prop} [Decidable p] {err : ScannerError} (h : p) :
    Sat (require p err) (fun _ => True) fun _ => False := by
  unfold require
  rw [if_pos h]
  trivial

theorem divideBy_returns {x y : ℚ} (h : y ≠ 0) : Sat (divideBy x y) (fun _ => True) fun _ => False := by
  unfold divideBy
  rw [if_neg h]
  trivial

theorem overHorizons_returns {f : ℕ → Except ScannerError ℚ}
    (h : ∀ offset ≤ 12, Sat (f offset) (fun _ => True) fun _ => False) :
    Sat (overHorizons f) (fun _ => True) fun _ => False := by
  refine (h 3 (by decide)).bind fun _ _ => ?_
  refine (h 6 (by decide)).bind fun _ _ => ?_
  exact (h 12 (by decide)).bind fun _ _ => trivial

theorem closeReturns_returns (h : 13 ≤ bars.length) :
    Sat (closeReturns bars) (fun _ => True) fun _ => False := by
  refine (require_returns h).bind fun _ _ => ?_
  refine (barBack_returns (by omega)).bind fun current _ => ?_
  refine overHorizons_returns fun offset hoffset => ?_
  refine (barBack_returns (by omega)).bind fun earlier hearl => ?_
  exact (divideBy_returns hearl.ne').bind fun _ _ => trivial

theorem efficiency_returns {offset : ℕ} (h : offset < bars.length) :
    Sat (efficiency bars offset) (fun _ => True) fun _ => False := by
  refine (barBack_returns (by omega)).bind fun last _ => ?_
  exact (barBack_returns h).bind fun first _ => trivial

theorem prior_returns (h : bars ≠ []) :
    Sat (priorHigh bars) (fun _ => True) (fun _ => False) ∧ Sat (priorLow bars) (fun _ => True) fun _ => False := by
  cases bars with
  | nil => exact absurd rfl h
  | cons bar bars => exact ⟨trivial, trivial⟩

section

variable (h : Built item history)
include h

/-- **The metrics of a mature market that has moved.** -/
theorem Built.metrics_returns (hlong : 288 ≤ history.length) (hmoved : ¬ Still history)
    (medians : ℚ × ℚ × ℚ) : Sat (metricsOf item medians) (fun _ => True) fun _ => False := by
  have hbars := h.long hlong
  have hatr : atrNow history ≠ 0 := fun hzero => hmoved (atrNow_eq_zero.mp hzero)
  obtain ⟨market, hchr⟩ := h.chronological
  have hm20 : medianPrevious20Volume item.bars5m = .ok (previous20Median item.bars5m) := by
    unfold medianPrevious20Volume
    rw [(hchr.validate h.nonempty).2, if_neg (by omega),
      if_neg (not_lt.mpr (previous20Median_nonneg item.bars5m))]
    rfl
  have hpri : ∀ n, 2 ≤ n → (lastN n item.bars5m).dropLast ≠ [] := by
    intro n hn hnil
    have := congrArg List.length hnil
    rw [List.length_dropLast, length_lastN, List.length_nil] at this
    omega
  unfold metricsOf
  dsimp only
  rw [h.exactAtr hlong, hm20]
  refine (require_returns hbars).bind fun _ _ => ?_
  refine Sat.bind (Q := fun atr => atr ≠ 0) hatr fun atr hatr => ?_
  refine (closeReturns_returns (by omega)).bind fun returns _ => ?_
  refine (barBack_returns (by omega)).bind fun current _ => ?_
  refine (overHorizons_returns fun offset hoffset => ?_).bind fun moves _ => ?_
  · refine (barBack_returns (by omega)).bind fun earlier _ => ?_
    exact divideBy_returns hatr
  refine Sat.bind (Q := fun _ => True) trivial fun m20 _ => ?_
  refine (overHorizons_returns fun offset hoffset => efficiency_returns (by omega)).bind fun er _ => ?_
  refine (prior_returns (hpri 13 (by decide))).1.bind fun _ _ => ?_
  refine (prior_returns (hpri 13 (by decide))).2.bind fun _ _ => ?_
  refine (prior_returns (hpri 37 (by decide))).1.bind fun _ _ => ?_
  exact (prior_returns (hpri 37 (by decide))).2.bind fun _ _ => trivial

/-- The moves of a market that stands still are divided by zero. -/
theorem Built.metrics_raise (hlong : 288 ≤ history.length) (hstill : Still history)
    (medians : ℚ × ℚ × ℚ) : metricsOf item medians = .error .divisionByZero := by
  have hbars := h.long hlong
  have hrais : Sat (metricsOf item medians) (fun _ => False) fun e => e = .divisionByZero := by
    unfold metricsOf
    rw [h.exactAtr hlong]
    refine ((require_returns hbars).mono (fun _ h => h) fun _ h => h.elim).bind fun _ _ => ?_
    refine Sat.bind (Q := fun atr => atr = 0) (atrNow_eq_zero.mpr hstill) fun atr hatr => ?_
    refine ((closeReturns_returns (by omega)).mono (fun _ h => h) fun _ h => h.elim).bind fun returns _ => ?_
    refine ((barBack_returns (by omega)).mono (fun _ h => h) fun _ h => h.elim).bind fun current _ => ?_
    refine Sat.bind (Q := fun _ => False) ?_ fun _ h => h.elim
    refine Sat.bind (Q := fun _ => False) ?_ fun _ h => h.elim
    refine ((barBack_returns (by omega)).mono (fun _ h => h) fun _ h => h.elim).bind fun earlier _ => ?_
    unfold divideBy
    rw [if_pos hatr]
    rfl
  rcases hmet : metricsOf item medians with e | metrics
  · rw [hrais.of_error hmet]
  · exact (hrais.of_ok hmet).elim

/-- **One market**, unless it is mature, liquid and has never moved. -/
theorem Built.observe_returns (sha256 : Preimage δ → δ) (standing : Text → Standing)
    (hmoved : 288 ≤ history.length → item.liquidityHealthy = true → ¬ Still history) :
    Sat (observe sha256 standing item) (fun o => o.marketId = item.marketId) fun _ => False := by
  have hlast := barBack_returns (List.length_pos_of_ne_nil h.nonempty)
  unfold observe
  rw [h.length]
  split_ifs with hyoung hnew
  · rfl
  · exact hlast.bind fun current _ => rfl
  · have hlong : 288 ≤ history.length := not_lt.mp hnew
    have hliq : item.liquidityHealthy = true := by
      by_contra hnot
      exact hyoung (.inr (by simpa using hnot))
    have hstill := hmoved hlong hliq
    refine (h.metrics_returns hlong hstill _).bind fun metrics _ => ?_
    refine Sat.bind (Q := fun _ => True) (discover_sat trivial (fun _ _ _ _ _ => trivial) ?_ ?_ ?_ metrics _)
      fun candidate _ => rfl
    · exact fun e he => hlast.of_error he
    · intro e he
      rw [h.exactAtr hlong] at he
      cases he
    · intro metrics side
      refine hlast.bind fun current _ => ?_
      rw [h.exactAtr hlong]
      refine Sat.bind (Q := fun atr => atr ≠ 0) (fun hzero => hstill (atrNow_eq_zero.mp hzero)) fun atr hatr => ?_
      dsimp only
      split
      · exact (divideBy_returns hatr).bind fun distance _ => trivial
      · trivial

/-- A mature and liquid market that stands still, alone. -/
theorem Built.scan_raises (sha256 : Preimage δ → δ) (hlong : 288 ≤ history.length)
    (hliq : item.liquidityHealthy = true) (hstill : Still history) :
    scanCrossSection sha256 [item] = .error .divisionByZero := by
  have hrais : Sat (scanCrossSection sha256 [item]) (fun _ => False) fun e => e = .divisionByZero := by
    refine Sat.bind (Q := fun _ => True) (Sat.mono (Sat.mapM (P := fun _ _ => True)
      (E := fun _ => False) fun a hmem => ?_) (fun _ _ => trivial) fun _ h => h.elim) fun returns _ => ?_
    · have husb := of_decide_eq_true (List.mem_filter.mp hmem).2
      exact (closeReturns_returns husb.2.2).bind fun _ _ => trivial
    · refine Sat.bind (Q := fun _ => False) ?_ fun _ h => h.elim
      unfold observe
      rw [h.length, if_neg (by simp [hliq]; omega), if_neg (by omega), h.metrics_raise hlong hstill]
      rfl
  rcases hscan : scanCrossSection sha256 [item] with e | observations
  · rw [hrais.of_error hscan]
  · exact (hrais.of_ok hscan).elim

end

end Item

/-! ### The cross section -/

/-- **A cross section returns one observation per market exactly where no mature and liquid market
has stood still since its first bar.** -/
theorem cross_section_returns_iff (sha256 : Preimage δ → δ) {inputs : List (ScannerMarketInput × List Bar)}
    (hbuilt : ∀ p ∈ inputs, Built p.1 p.2) :
    (∃ observations, scanCrossSection sha256 (inputs.map Prod.fst) = .ok observations
        ∧ observations.map ScannerObservation.marketId
          = (sortBy ScannerMarketInput.marketId (inputs.map Prod.fst)).map ScannerMarketInput.marketId)
      ↔ ∀ p ∈ inputs, 288 ≤ p.2.length → p.1.liquidityHealthy = true → ¬ Still p.2 := by
  have hitem : ∀ item ∈ sortBy ScannerMarketInput.marketId (inputs.map Prod.fst), ∃ p ∈ inputs, p.1 = item := by
    intro item h
    exact List.mem_map.mp (mem_sortBy.mp h)
  constructor
  · rintro ⟨observations, hscan, -⟩ p hp hlong hliquid hstill
    obtain ⟨returns, -, hobserve⟩ := of_bind hscan
    obtain ⟨o, ho⟩ := exists_ok_of_mapM hobserve (mem_sortBy.mpr (List.mem_map_of_mem hp))
    unfold observe at ho
    rw [(hbuilt p hp).length, if_neg (by simp [hliquid]; omega), if_neg (by omega),
      (hbuilt p hp).metrics_raise hlong hstill] at ho
    cases ho
  · intro hmoved
    have hreturns : Sat (scanCrossSection sha256 (inputs.map Prod.fst))
        (fun observations => List.Forall₂ (fun (item : ScannerMarketInput) o => ScannerObservation.marketId o = item.marketId)
          (sortBy ScannerMarketInput.marketId (inputs.map Prod.fst)) observations) fun _ => False := by
      unfold scanCrossSection
      refine Sat.bind (Q := fun _ => True) (Sat.mono (Sat.mapM (P := fun _ _ => True) fun item hmem => ?_)
        (fun _ _ => trivial) fun _ h => h) fun returns _ => Sat.mapM fun item hmem => ?_
      · have husable := of_decide_eq_true (List.mem_filter.mp hmem).2
        exact (closeReturns_returns husable.2.2).bind fun _ _ => trivial
      · obtain ⟨p, hp, rfl⟩ := hitem item hmem
        exact (hbuilt p hp).observe_returns sha256 _ (hmoved p hp)
    obtain ⟨observations, hscan, hall⟩ := hreturns.returns
    refine ⟨observations, hscan, ?_⟩
    clear hscan hitem
    generalize sortBy ScannerMarketInput.marketId (inputs.map Prod.fst) = items at hall
    induction hall with
    | nil => rfl
    | cons h _ ih => rw [List.map_cons, List.map_cons, h, ih]

/-! ### A market that stands still for a day -/

/-- What `scan_finalized` builds from a history. -/
def builtInput (history : List Bar) : ScannerMarketInput where
  marketId := ['M']
  bars5m := lastN 37 history
  minimumTick := 1 / 100
  currentSpreadPrice := 1 / 100
  liquidityHealthy := true
  historyCount := some history.length
  exactWilderAtr5m := (history.foldlM RollingAtr.ingest {}).toOption.bind RollingAtr.value

theorem built_builtInput {market : Text} (h : Chronological market .m5 history)
    (hne : history ≠ []) : Built (builtInput history) history where
  chronological := ⟨market, h.lastN 37⟩
  nonempty hnil := by
    have := congrArg List.length hnil
    rw [show (builtInput history).bars5m = lastN 37 history from rfl, length_lastN, List.length_nil] at this
    have := List.length_pos_of_ne_nil hne
    omega
  count := rfl
  atr := by
    obtain ⟨a, ha, -⟩ := RollingOf.nil.foldlM history
    refine ⟨a, ha, ?_⟩
    unfold builtInput
    rw [ha]
    rfl
  long hlong := by
    rw [show (builtInput history).bars5m = lastN 37 history from rfl, length_lastN]
    omega

/-- So many bars at 100, then one at 100.70. -/
def stillThenJump (n : ℕ) (jumps : Bool) : List Bar :=
  (List.range n).map restBar ++ if jumps then [jumpBar n] else []

theorem chronological_stillBars (n : ℕ) :
    Chronological ['M'] .m5 ((List.range n).map restBar) := by
  induction n with
  | zero => exact .nil
  | succ n ih =>
    rw [List.range_succ, List.map_append]
    refine Chronological.snoc_iff.mpr ⟨ih, ⟨rfl, rfl, Nat.mul_mod_left _ _⟩, fun a ha => ?_⟩
    rw [List.getLast?_map, List.getLast?_range] at ha
    split at ha
    · cases ha
    · cases ha
      show n * 300000 = (n - 1) * 300000 + 300000
      omega

theorem chronological_stillThenJump (n : ℕ) (jumps : Bool) : Chronological ['M'] .m5
    (stillThenJump n jumps) := by
  unfold stillThenJump
  cases jumps with
  | false => simpa using chronological_stillBars n
  | true =>
    have hnext := chronological_stillBars (n + 1)
    rw [List.range_succ, List.map_append] at hnext
    obtain ⟨hbars, -, hlast⟩ := Chronological.snoc_iff.mp hnext
    exact Chronological.snoc_iff.mpr ⟨hbars, ⟨rfl, rfl, Nat.mul_mod_left _ _⟩, hlast⟩

/-- A day at one price, and the cross section divides by zero. -/
theorem still_market_divides_by_zero : Built (builtInput (stillThenJump 288 false)) (stillThenJump 288 false)
      ∧ scanCrossSection rollingHash [builtInput (stillThenJump 288 false)] = .error .divisionByZero := by
  have hbuilt := built_builtInput (chronological_stillThenJump 288 false) (by decide +kernel)
  refine ⟨hbuilt, hbuilt.scan_raises rollingHash (by simp [stillThenJump]) rfl fun first hfirst b hb => ?_⟩
  have hbars : ∀ b ∈ stillThenJump 288 false, ∃ k, b = restBar k := by
    intro b hb
    simp only [stillThenJump, Bool.false_eq_true, if_false, List.append_nil] at hb
    obtain ⟨k, -, rfl⟩ := List.mem_map.mp hb
    exact ⟨k, rfl⟩
  obtain ⟨k, rfl⟩ := hbars first (List.mem_of_mem_head? hfirst)
  obtain ⟨k', rfl⟩ := hbars b (List.mem_of_mem_tail hb)
  exact ⟨rfl, rfl⟩

/-- A day with one move at its end. -/
theorem cross_section_returns_jump :
    ∃ observations, scanCrossSection rollingHash [builtInput (stillThenJump 287 true)] = .ok observations
      ∧ observations.map ScannerObservation.marketId = [['M']] := by
  have hbuilt : ∀ p ∈ [(builtInput (stillThenJump 287 true), stillThenJump 287 true)], Built p.1 p.2 := by
    intro p hp
    obtain rfl := List.mem_singleton.mp hp
    exact built_builtInput (chronological_stillThenJump 287 true) (by decide +kernel)
  refine (cross_section_returns_iff rollingHash hbuilt).mpr fun p hp _ _ => ?_
  obtain rfl := List.mem_singleton.mp hp
  decide +kernel

end TraderAssist
