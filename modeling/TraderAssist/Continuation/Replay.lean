/-
TraderAssist/Continuation/Replay.lean

Incremental replay against full-history replay.

`StateOf` says what a continuation state holds in terms of the bars it has
ingested; ingesting keeps it (`StateOf.ingest`).  A state of a history then
gives the kernel the readings the whole history gives it (`evaluation_same`),
and the pruned ledger goes through the passes like the whole one, so the two
routes agree bar by bar (`incremental_replay_agrees`).
-/
import TraderAssist.Continuation.Window
import TraderAssist.Continuation.Pruning
import TraderAssist.Lib.Simulation

namespace TraderAssist

open Py

variable {δ : Type}

/-! ### The state of a history -/

/-- What the state holds after these 5m bars, whose derived bars are `m15` and
`h1`. -/
structure StateOf (market : Text) (bars m15 h1 : List Bar) (s : IncrementalStrategyState δ) :
    Prop where
  marketId : s.marketId = market
  bars5m : s.bars5m = lastN 21 bars
  bars15m : s.bars15m = lastN 98 m15
  atr15mValues : s.atr15mValues = lastN 98 (atrValues m15)
  bars1h : s.bars1h = lastN 10 h1
  atr5m : RollingOf bars s.atr5m
  atr15m : RollingOf m15 s.atr15m
  atr1h : RollingOf h1 s.atr1h
  total5m : s.total5m = bars.length
  total15m : s.total15m = m15.length
  total1h : s.total1h = h1.length
  pivotHighs1h : s.pivotHighs1h = lastN 2 (pivotPrices isPivotHigh Bar.high h1)
  pivotLows1h : s.pivotLows1h = lastN 2 (pivotPrices isPivotLow Bar.low h1)
  last : s.lastSourceOpenTimeMs = bars.getLast?.map Bar.openTimeMs

namespace StateOf

variable {market : Text} {bars m15 h1 : List Bar} {b : Bar} {s : IncrementalStrategyState δ}

theorem nil : StateOf market [] [] [] ({ marketId := market } : IncrementalStrategyState δ) :=
  ⟨rfl, rfl, rfl, rfl, rfl, .nil, .nil, .nil, rfl, rfl, rfl, rfl, rfl, rfl⟩

section

variable (h : StateOf market bars m15 h1 s)
include h

theorem ledger (l : EventLedger δ) :
    StateOf market bars m15 h1 { s with ledger := l } := by
  cases h
  constructor <;> assumption

/-- The 5m part of an ingestion. -/
theorem ingest5m (b : Bar) : ∃ s', s.ingest5m b = .ok s' ∧ StateOf market (bars ++ [b]) m15 h1 s'
      ∧ s'.ledger = s.ledger := by
  obtain ⟨atr, hatr, hroll⟩ := h.atr5m.ingest b
  unfold IncrementalStrategyState.ingest5m
  rw [hatr]
  refine ⟨_, rfl, { h with
      bars5m := ?_, atr5m := hroll, total5m := ?_, last := ?_ }, rfl⟩
  · simp only [h.bars5m, lastN_snoc (show 0 < 21 by decide)]
  · simp [h.total5m]
  · simp

/-- A new 15m bar. -/
theorem push15m {value : Bar} (hseed : PositiveSeed (m15 ++ [value])) :
    ∃ s', s.push15m value = .ok s' ∧ StateOf market bars (m15 ++ [value]) h1 s' ∧ s'.ledger = s.ledger := by
  obtain ⟨atr, hatr, hroll⟩ := h.atr15m.ingest value
  unfold IncrementalStrategyState.push15m
  rw [hatr]
  refine ⟨_, rfl, { h with
      bars15m := ?_, atr15mValues := ?_, atr15m := hroll, total15m := ?_ }, rfl⟩
  · simp only [h.bars15m, lastN_snoc (show 0 < 98 by decide)]
  · simp only [h.atr15mValues, hroll.value, lastN_snoc (show 0 < 98 by decide), atrValues_snoc hseed]
  · simp [h.total15m]

/-- A new 1h bar. -/
theorem push1h (value : Bar) : ∃ s', s.push1h value = .ok s' ∧ StateOf market bars m15 (h1 ++ [value]) s'
      ∧ s'.ledger = s.ledger := by
  obtain ⟨atr, hatr, hroll⟩ := h.atr1h.ingest value
  unfold IncrementalStrategyState.push1h
  rw [hatr]
  refine ⟨_, rfl, { h with
      bars1h := ?_, atr1h := hroll, total1h := ?_, pivotHighs1h := ?_, pivotLows1h := ?_ }, rfl⟩
  · simp only [h.bars1h, lastN_snoc (show 0 < 10 by decide)]
  · simp [h.total1h]
  · simp only [h.bars1h, h.pivotHighs1h, pivotsAfter_eq (show 2 ≤ 10 by decide)]
  · simp only [h.bars1h, h.pivotLows1h, pivotsAfter_eq (show 2 ≤ 10 by decide)]

end

theorem ingest15m (h : StateOf market (bars ++ [b]) m15 h1 s)
    (hchr : Chronological market .m5 (bars ++ [b])) (hd : Derived market 15 3 .m15 bars m15)
    (hseed : ∀ d, Derived market 15 3 .m15 (bars ++ [b]) d → PositiveSeed d) :
    ∃ s' m15', s.ingest15m b = .ok s' ∧ Derived market 15 3 .m15 (bars ++ [b]) m15'
      ∧ StateOf market (bars ++ [b]) m15' h1 s' ∧ s'.ledger = s.ledger := by
  have hsnoc := hd.snoc (.inl ⟨rfl, rfl, rfl⟩) hchr
  have htotal : s.total5m = bars.length + 1 := by simpa using h.total5m
  unfold IncrementalStrategyState.ingest15m
  rw [htotal]
  by_cases hcase : 3 ≤ bars.length + 1 ∧ completes 3 b = true
  · rw [if_pos hcase] at hsnoc ⊢
    obtain ⟨value, hv, hagg⟩ := hsnoc
    obtain ⟨s', hok, hs', hldg⟩ := h.push15m (hseed _ hv)
    rw [h.bars5m, lastN_lastN (show 3 ≤ 21 by decide), hagg]
    exact ⟨s', _, hok, hv, hs', hldg⟩
  · rw [if_neg hcase] at hsnoc ⊢
    exact ⟨s, m15, rfl, hsnoc, h, rfl⟩

theorem ingest1h (h : StateOf market (bars ++ [b]) m15 h1 s)
    (hchr : Chronological market .m5 (bars ++ [b])) (hd : Derived market 60 12 .h1 bars h1) :
    ∃ s' h1', s.ingest1h b = .ok s' ∧ Derived market 60 12 .h1 (bars ++ [b]) h1'
      ∧ StateOf market (bars ++ [b]) m15 h1' s' ∧ s'.ledger = s.ledger := by
  have hsnoc := hd.snoc (.inr ⟨rfl, rfl, rfl⟩) hchr
  have htotal : s.total5m = bars.length + 1 := by simpa using h.total5m
  unfold IncrementalStrategyState.ingest1h
  rw [htotal]
  by_cases hcase : 12 ≤ bars.length + 1 ∧ completes 12 b = true
  · rw [if_pos hcase] at hsnoc ⊢
    obtain ⟨value, hv, hagg⟩ := hsnoc
    obtain ⟨s', hok, hs', hldg⟩ := h.push1h value
    rw [h.bars5m, lastN_lastN (show 12 ≤ 21 by decide), hagg]
    exact ⟨s', _, hok, hv, hs', hldg⟩
  · rw [if_neg hcase] at hsnoc ⊢
    exact ⟨s, h1, rfl, hsnoc, h, rfl⟩

/-- **Ingesting the next bar.** -/
theorem ingest (h : StateOf market bars m15 h1 s)
    (hchr : Chronological market .m5 (bars ++ [b])) (hd15 : Derived market 15 3 .m15 bars m15)
    (hd1 : Derived market 60 12 .h1 bars h1)
    (hseed : ∀ d, Derived market 15 3 .m15 (bars ++ [b]) d → PositiveSeed d) :
    ∃ s' m15' h1', s.ingest b = .ok s' ∧ Derived market 15 3 .m15 (bars ++ [b]) m15'
      ∧ Derived market 60 12 .h1 (bars ++ [b]) h1'
      ∧ StateOf market (bars ++ [b]) m15' h1' s' ∧ s'.ledger = s.ledger := by
  obtain ⟨-, ⟨hm, hi, -⟩, hstep⟩ := Chronological.snoc_iff.mp hchr
  have hnext : ¬ (s.lastSourceOpenTimeMs.any fun last => b.openTimeMs ≠ last + 300000) = true := by
    rw [h.last]
    rcases e : bars.getLast? with - | a
    · simp
    · have hopen : b.openTimeMs = a.openTimeMs + 300000 := hstep a e
      simp [hopen]
  obtain ⟨s₁, hok₁, hs₁, hl₁⟩ := h.ingest5m b
  obtain ⟨s₂, m15', hok₂, hd15', hs₂, hl₂⟩ := hs₁.ingest15m hchr hd15 hseed
  obtain ⟨s₃, h1', hok₃, hd1', hs₃, hl₃⟩ := hs₂.ingest1h hchr hd1
  refine ⟨s₃, m15', h1', ?_, hd15', hd1', hs₃, by rw [hl₃, hl₂, hl₁]⟩
  unfold IncrementalStrategyState.ingest
  rw [if_neg (by simp [hm, hi, h.marketId]), if_neg hnext, hok₁]
  simp only [bind, Except.bind, hok₂, hok₃]

end StateOf

/-! ### Evaluations of a history -/

/-- A history with its derived bars, whose ATR seeds are positive. -/
structure History (market : Text) (bars m15 h1 : List Bar) : Prop where
  chronological : Chronological market .m5 bars
  derived15m : Derived market 15 3 .m15 bars m15
  derived1h : Derived market 60 12 .h1 bars h1
  seed5m : PositiveSeed bars
  seed15m : PositiveSeed m15
  seed1h : PositiveSeed h1

theorem previous20Median_nonneg (bars : List Bar) : 0 ≤ previous20Median bars := by
  refine median_nonneg fun x hx => ?_
  obtain ⟨b, -, rfl⟩ := List.mem_map.mp hx
  exact b.volume_nonneg

section Evaluation

variable [LinearOrder δ] {sha256 : Preimage δ → δ} {market : Text} {bars m15 h1 : List Bar}
variable {current : Bar} {minimumTick : ℚ} {link : Option ScannerLinkage}

/-- A book needs an ATR value. -/
theorem buildZoneBook_short (hlen : m15.length < 15) (book : ZoneBook δ) :
    buildZoneBook sha256 m15 minimumTick ≠ .ok book := by
  intro hok
  obtain ⟨-, -, hok⟩ := of_bind hok
  split_ifs at hok
  obtain ⟨atr, hatr, hok⟩ := of_bind hok
  obtain ⟨-, -, hvals⟩ := of_bind hatr
  cases hvals
  have hnone : (atrValues m15).getLast?.join = none := by
    rw [atrValues, if_pos hlen]
    cases m15.length with
    | zero => rfl
    | succ n => simp [List.getLast?_replicate]
  rw [hnone] at hok
  split_ifs at hok

section

variable (h : History market bars m15 h1)
include h

/-- Too short a history is not evaluated. -/
theorem History.short (hlen : m15.length < 15)
    (q : Prepared δ × Readings δ) :
    readingsOf sha256 { bars5m := bars, minimumTick := minimumTick, scannerLinkage := link }
      ≠ .ok q := by
  intro hok
  obtain ⟨p, hp, -⟩ := of_bind hok
  obtain ⟨_, -, hp⟩ := of_bind hp
  obtain ⟨m15', hm15', hp⟩ := of_bind hp
  obtain ⟨h1', -, hp⟩ := of_bind hp
  obtain ⟨context, -, hp⟩ := of_bind hp
  obtain ⟨book, hbook, -⟩ := of_bind hp
  by_cases hne : bars = []
  · subst hne
    cases hm15'
  · have hagg := (aggregate_eq (.inl ⟨rfl, rfl, rfl⟩) h.chronological hne).trans h.derived15m.eq
    obtain rfl : m15 = m15' := by simpa using hagg.symm.trans hm15'
    unfold bookOf at hbook
    dsimp only [givenOr] at hbook
    split_ifs at hbook
    exact buildZoneBook_short hlen book hbook

theorem History.length (hlen : 15 ≤ m15.length) : 45 ≤ bars.length := by
  have hne : m15 ≠ [] := List.ne_nil_of_length_pos (by omega)
  rcases e : bars.getLast? with - | b
  · have := h.derived15m.enough hne
    rw [List.getLast?_eq_none_iff.mp e, List.length_nil] at this
    omega
  · have := h.derived15m.length_le (.inl ⟨rfl, rfl, rfl⟩) h.chronological hne e
    omega

/-- What the whole history gives the passes to read. -/
theorem History.readings (hlen : 15 ≤ m15.length)
    (hcur : bars.getLast? = some current) :
    readingsOf sha256 { bars5m := bars, minimumTick := minimumTick, scannerLinkage := link } = (do
      let context ← htfContext h1
      let book ← buildZoneBook sha256 m15 minimumTick
      pure (⟨current, m15, context, book⟩,
        ⟨current, book, context, atrNow bars, previous20Median bars, link⟩)) := by
  have hlong := h.length hlen
  have hne : bars ≠ [] := List.ne_nil_of_length_pos (by omega)
  have hne15 : m15 ≠ [] := List.ne_nil_of_length_pos (by omega)
  have hval := h.chronological.validate hne
  have hagg15 := (aggregate_eq (.inl ⟨rfl, rfl, rfl⟩) h.chronological hne).trans h.derived15m.eq
  have hagg1 := (aggregate_eq (.inr ⟨rfl, rfl, rfl⟩) h.chronological hne).trans h.derived1h.eq
  have hm20 : medianPrevious20Volume bars = .ok (previous20Median bars) := by
    unfold medianPrevious20Volume
    rw [hval.2, if_neg (by omega), if_neg (not_lt.mpr (previous20Median_nonneg bars))]
    rfl
  unfold readingsOf prepare bars15mOf bars1hOf bookOf
  simp only [givenOr, hval.1, hagg15, hagg1, hcur, hm20, bind, Except.bind, if_neg hne15,
    wilderAtr14_eq h.chronological h.seed5m (show 15 ≤ bars.length by omega)]
  rcases htfContext h1 with err | context
  · rfl
  · rcases buildZoneBook sha256 m15 minimumTick with err | book <;> rfl

/-- The passes see the windows like the whole history. -/
theorem History.runPasses_window (hlen : 15 ≤ m15.length) (r : Readings δ) (l : EventLedger δ) :
    runPasses sha256 r (lastN 21 bars) (lastN 98 m15) (some (atrNow m15)) l
      = runPasses sha256 r bars m15 none l := by
  have hlong := h.length hlen
  have hprev : (lastN 21 bars).dropLast.getLast? = bars.dropLast.getLast? := by
    rw [lastN_eq_drop, List.getLast?_eq_getElem?, List.getLast?_eq_getElem?]
    simp only [List.length_dropLast, List.length_drop, List.getElem?_dropLast, List.getElem?_drop]
    rw [if_pos (by omega), if_pos (by omega)]
    congr 1
    omega
  unfold runPasses rangePass
  simp only [hprev, rangeValid_window _ _ h.derived15m.chronological h.seed15m
    (show 15 ≤ 98 by decide) hlen]

end

/-- The input of a state of this history, with the book and the context it
derives. -/
def windowInput (bars m15 h1 : List Bar) (minimumTick : ℚ) (link : Option ScannerLinkage)
    (book : ZoneBook δ) (context : HtfContext) : StrategyEvaluationInput δ :=
  { bars5m := lastN 21 bars
    minimumTick := minimumTick
    bars15m := some (lastN 98 m15)
    bars1h := some (lastN 10 h1)
    zoneBook := some book
    scannerLinkage := link
    mandatoryDataValid := true
    a5Override := some (atrNow bars)
    m20Override := some (previous20Median bars)
    a15Override := some (atrNow m15)
    htfContextOverride := some context }

theorem StateOf.evaluationInput {s : IncrementalStrategyState δ}
    (hs : StateOf market bars m15 h1 s) (h : History market bars m15 h1)
    (hlen : 15 ≤ m15.length) : s.evaluationInput sha256 minimumTick link = (do
      let book ← liftKernel (buildZoneBook sha256 m15 minimumTick)
      let context ← liftKernel (htfContext h1)
      pure (windowInput bars m15 h1 minimumTick link book context)) := by
  have hlong := h.length hlen
  have hne15 : m15 ≠ [] := List.ne_nil_of_length_pos (by omega)
  have h5 : s.atr5m.value = some (atrNow bars) := by
    rw [hs.atr5m.value, atrValue, if_neg (by omega)]
  have h15 : s.atr15m.value = some (atrNow m15) := by
    rw [hs.atr15m.value, atrValue, if_neg (by omega)]
  have hmedian : previous20Median (lastN 21 bars) = previous20Median bars := by
    rw [previous20Median, previous20Median, lastN_lastN le_rfl]
  unfold IncrementalStrategyState.evaluationInput
  rw [h5, h15]
  dsimp only
  rw [hs.bars5m, hs.bars15m, hs.bars1h, hs.atr15mValues, hs.total15m, hmedian,
    if_neg (by simp only [length_lastN]; omega),
    buildZoneBook_window h.derived15m.chronological hne15,
    htfContext_window h.derived1h.chronological h.seed1h hs.atr1h.value hs.total1h hs.bars1h
      hs.pivotHighs1h hs.pivotLows1h]
  rfl

/-- The windows are valid, and nothing is derived again. -/
theorem History.readings_window (h : History market bars m15 h1) (hlen : 15 ≤ m15.length)
    (hcur : bars.getLast? = some current) (book : ZoneBook δ) (context : HtfContext) :
    readingsOf sha256 (windowInput bars m15 h1 minimumTick link book context)
      = .ok (⟨current, lastN 98 m15, context, book⟩,
        ⟨current, book, context, atrNow bars, previous20Median bars, link⟩) := by
  have hlong := h.length hlen
  have hvalid5 := ((h.chronological.lastN 21).validate
    (List.ne_nil_of_length_pos (by rw [length_lastN]; omega))).1
  have hvalid15 := ((h.derived15m.chronological.lastN 98).validate
    (List.ne_nil_of_length_pos (by rw [length_lastN]; omega))).1
  have hlast : (lastN 21 bars).getLast? = some current := by
    rw [getLast?_lastN (by decide), hcur]
  have h1h : bars1hOf (windowInput bars m15 h1 minimumTick link book context) = .ok (lastN 10 h1) := by
    unfold bars1hOf windowInput
    have hchr := h.derived1h.chronological.lastN 10
    generalize lastN 10 h1 = hours at hchr ⊢
    rcases hours with - | ⟨b, rest⟩
    · rfl
    · dsimp only
      rw [(hchr.validate (by simp)).1]
      rfl
  unfold readingsOf prepare
  rw [h1h]
  simp only [windowInput, bars15mOf, bookOf, givenOr, hvalid5, hvalid15, hlast, bind, Except.bind]
  rfl

/-! ### One bar of the two routes -/

/-- What the two routes have in common: everything but the ended events. -/
structure SameResult (a b : KernelResult δ) : Prop where
  decisions : a.decisions = b.decisions
  zones : a.zones = b.zones
  activeSupport : a.activeSupport = b.activeSupport
  activeResistance : a.activeResistance = b.activeResistance
  htfContext : a.htfContext = b.htfContext
  actives : a.ledger.actives = b.ledger.actives

omit [LinearOrder δ] in
theorem liftKernel_agree {α β : Type} {x : Except KernelError α} {y : Except KernelError β}
    {R : α → β → Prop} (h : Agree x y R) : Agree (liftKernel x) y R := by
  cases x <;> cases y <;> exact h

omit [LinearOrder δ] in
theorem liftKernel_ok {α : Type} {x : Except KernelError α} {a : α} (h : liftKernel x = .ok a) :
    x = .ok a := by
  cases x <;> cases h
  rfl

/-- **An evaluation of the state and one of the whole history.** -/
theorem evaluation_same (hsha : Function.Injective sha256) {s : IncrementalStrategyState δ}
    {l : EventLedger δ} (hs : StateOf market bars m15 h1 s) (h : History market bars m15 h1)
    (hcur : bars.getLast? = some current) (hinv : LedgerInv s.ledger) (hinv' : LedgerInv l)
    (hact : s.ledger.actives = l.actives)
    (hfr : ∀ r : Readings δ, r.bar = current → Fresh sha256 r s.ledger ∧ Fresh sha256 r l) :
    Agree (s.evaluate sha256 minimumTick link)
      (evaluateStrategy sha256
        { bars5m := bars, minimumTick := minimumTick, scannerLinkage := link } l) SameResult := by
  unfold IncrementalStrategyState.evaluate
  rw [evaluateStrategy_eq sha256 rfl]
  rcases Nat.lt_or_ge m15.length 15 with hlen | hlen
  · have hnone : s.atr15m.value = none := by rw [hs.atr15m.value, atrValue, if_pos hlen]
    have hsh : s.evaluationInput sha256 minimumTick link = .error .insufficient := by
      unfold IncrementalStrategyState.evaluationInput
      rw [hnone]
      cases s.atr5m.value <;> rfl
    rw [hsh]
    rcases e : readingsOf sha256
      { bars5m := bars, minimumTick := minimumTick, scannerLinkage := link } with err | q
    · exact trivial
    · exact absurd e (h.short hlen q)
  · rw [hs.evaluationInput h hlen, h.readings hlen hcur]
    rcases buildZoneBook sha256 m15 minimumTick with err | book
    · rcases htfContext h1 with err' | context <;> exact trivial
    · rcases htfContext h1 with err | context
      · exact trivial
      · change Agree (liftKernel (evaluateStrategy sha256
          (windowInput bars m15 h1 minimumTick link book context) s.ledger)) _ _
        rw [evaluateStrategy_eq sha256 rfl, h.readings_window hlen hcur]
        refine liftKernel_agree ?_
        change Agree (runPasses sha256 _ (lastN 21 bars) (lastN 98 m15) (some (atrNow m15)) s.ledger
          >>= _) (runPasses sha256 _ bars m15 none l >>= _) _
        rw [h.runPasses_window hlen]
        refine (runPasses_same hsha hinv hinv' hact (hfr _ rfl).1 (hfr _ rfl).2).bind
          fun p q _ _ hpq => ?_
        exact ⟨congrArg Findings.decisions hpq.2, rfl, rfl, rfl, rfl, hpq.1⟩

end Evaluation

/-! ### What an evaluation keeps -/

section Kept

variable [LinearOrder δ] {sha256 : Preimage δ → δ} {inputs : StrategyEvaluationInput δ}

/-- A ledger and its ids after an evaluation. -/
theorem evaluate_keeps (hsha : Function.Injective sha256)
    (hval : inputs.mandatoryDataValid = true) {l : EventLedger δ} {result : KernelResult δ}
    (hok : evaluateStrategy sha256 inputs l = .ok result) (hinv : LedgerInv l) {bars : List Bar}
    {current : Bar} (hcur : inputs.bars5m.getLast? = some current) (hmade : MadeOn sha256 bars l) :
    LedgerInv result.ledger ∧ MadeOn sha256 (bars ++ [current]) result.ledger := by
  refine ⟨((evaluateStrategy_inv sha256 inputs hinv).of_ok hok).1, ?_⟩
  obtain ⟨p, r, progressed, created, ranged, last, hr, ht, rfl⟩ := evaluateStrategy_trace hval hok
  obtain rfl : current = r.bar := Option.some.inj (hcur.symm.trans (readingsOf_bar hr))
  exact ht.madeOn hsha hinv hmade

theorem evaluationInput_fields {s : IncrementalStrategyState δ} {minimumTick : ℚ}
    {link : Option ScannerLinkage}
    (hok : s.evaluationInput sha256 minimumTick link = .ok inputs) :
    inputs.mandatoryDataValid = true ∧ inputs.bars5m = s.bars5m := by
  unfold IncrementalStrategyState.evaluationInput at hok
  split at hok
  · split_ifs at hok
    obtain ⟨book, -, hok⟩ := of_bind hok
    obtain ⟨context, -, hok⟩ := of_bind hok
    cases hok
    exact ⟨rfl, rfl⟩
  · cases hok

end Kept

/-! ### The two routes -/

section Routes

variable [LinearOrder δ] {sha256 : Preimage δ → δ} {market : Text}

/-- The routes after the same bars. -/
structure Aligned (sha256 : Preimage δ → δ) (market : Text) (bars : List Bar)
    (s : IncrementalStrategyState δ) (t : FullHistory δ) : Prop where
  state : ∃ m15 h1, Derived market 15 3 .m15 bars m15 ∧ Derived market 60 12 .h1 bars h1
    ∧ StateOf market bars m15 h1 s
  bars_eq : t.bars = bars
  actives : s.ledger.actives = t.ledger.actives
  inv : LedgerInv s.ledger
  inv_full : LedgerInv t.ledger
  made : MadeOn sha256 bars s.ledger
  made_full : MadeOn sha256 bars t.ledger

omit [LinearOrder δ] in
theorem Aligned.start : Aligned sha256 market []
    ({ marketId := market } : IncrementalStrategyState δ) {} :=
  ⟨⟨[], [], .nil (.inl ⟨rfl, rfl, rfl⟩), .nil (.inr ⟨rfl, rfl, rfl⟩), .nil⟩, rfl, rfl, .nil, .nil,
    nofun, nofun⟩

/-- **One bar.** -/
theorem Aligned.step (hsha : Function.Injective sha256) {bars : List Bar}
    {s : IncrementalStrategyState δ} {t : FullHistory δ} (h : Aligned sha256 market bars s t)
    {x : ReplayBar} (hchr : Chronological market .m5 (bars ++ [x.bar]))
    (hseed5 : PositiveSeed (bars ++ [x.bar]))
    (hseed15 : ∀ d, Derived market 15 3 .m15 (bars ++ [x.bar]) d → PositiveSeed d)
    (hseed1 : ∀ d, Derived market 60 12 .h1 (bars ++ [x.bar]) d → PositiveSeed d) :
    Aligned sha256 market (bars ++ [x.bar]) (incrementalStep sha256 s x).1 (plainStep sha256 t x).1
      ∧ Agree (incrementalStep sha256 s x).2 (plainStep sha256 t x).2 SameResult := by
  obtain ⟨m15, h1, hd15, hd1, hs⟩ := h.state
  obtain ⟨s', m15', h1', hing, hd15', hd1', hs', hldg⟩ := hs.ingest hchr hd15 hd1 hseed15
  have hlast : (bars ++ [x.bar]).getLast? = some x.bar := by simp
  -- the bars of the ledgers are older than this one
  have hnew : ∀ b ∈ bars, b.marketId = x.bar.marketId ∧ b.interval = x.bar.interval
      ∧ b.openTimeMs ≠ x.bar.openTimeMs := by
    intro b hb
    obtain ⟨hm, hi, -⟩ := hchr.bar b (List.mem_append_left _ hb)
    obtain ⟨hm', hi', -⟩ := hchr.bar x.bar (by simp)
    refine ⟨hm.trans hm'.symm, hi.trans hi'.symm, fun heq => ?_⟩
    exact absurd heq (hchr.open_lt_last hb).ne
  have hfr : ∀ r : Readings δ, r.bar = x.bar →
      Fresh sha256 r s'.ledger ∧ Fresh sha256 r t.ledger := fun r hr =>
    ⟨hldg ▸ h.made.fresh hsha (hr ▸ hnew), h.made_full.fresh hsha (hr ▸ hnew)⟩
  have hagree := @evaluation_same _ _ _ _ _ _ _ _ x.minimumTick x.scannerLinkage hsha _ _ hs'
    ⟨hchr, hd15', hd1', hseed5, hseed15 _ hd15', hseed1 _ hd1'⟩ hlast (hldg ▸ h.inv)
    h.inv_full (hldg ▸ h.actives) hfr
  unfold incrementalStep plainStep
  rw [hing, h.bars_eq]
  dsimp only
  generalize e : s'.evaluate sha256 x.minimumTick x.scannerLinkage = reply at hagree ⊢
  generalize e' : evaluateStrategy sha256 _ t.ledger = reply' at hagree ⊢
  rcases reply with err | result
  · rcases reply' with err' | result'
    · refine ⟨⟨⟨m15', h1', hd15', hd1', hs'⟩, rfl, hldg ▸ h.actives, hldg ▸ h.inv, h.inv_full,
        hldg ▸ h.made.mono (List.subset_append_left ..),
        h.made_full.mono (List.subset_append_left ..)⟩, trivial⟩
    · exact hagree.elim
  · rcases reply' with err' | result'
    · exact hagree.elim
    · obtain ⟨inputs, hinp, hres⟩ := of_bind e
      obtain ⟨hval, hbars⟩ := evaluationInput_fields hinp
      have hcur : inputs.bars5m.getLast? = some x.bar := by
        rw [hbars, hs'.bars5m, getLast?_lastN (by decide), hlast]
      have hkept := evaluate_keeps hsha hval (liftKernel_ok hres) (hldg ▸ h.inv) hcur (hldg ▸ h.made)
      have hkept' := evaluate_keeps hsha rfl e' h.inv_full hlast h.made_full
      refine ⟨⟨⟨m15', h1', hd15', hd1', hs'.ledger _⟩, rfl, ?_, hkept.1.actives, hkept'.1,
        hkept.2.actives, hkept'.2⟩, hagree⟩
      exact (actives_actives result.ledger).trans hagree.actives

/-- **Incremental replay is full-history replay.**  On every chronological
history whose ATR seeds are positive the two routes return on the same bars, with
the same decisions, zones, context and ACTIVE events. -/
theorem incremental_replay_agrees (hsha : Function.Injective sha256) {xs : List ReplayBar}
    (hchron : Chronological market .m5 (xs.map ReplayBar.bar))
    (hseed5 : PositiveSeed (xs.map ReplayBar.bar))
    (hseed15 : ∀ d, aggregateClosed5mCausally (xs.map ReplayBar.bar) 15 = .ok d → PositiveSeed d)
    (hseed1 : ∀ d, aggregateClosed5mCausally (xs.map ReplayBar.bar) 60 = .ok d → PositiveSeed d) :
    List.Forall₂ (fun a b => Agree a b SameResult)
      (outputs (incrementalStep sha256) ({ marketId := market } : IncrementalStrategyState δ) xs)
      (outputs (plainStep sha256) {} xs) := by
  -- the seeds of a prefix are those of the whole history
  have hpart : ∀ {minutes count : ℕ} {interval : Interval}, Timeframe minutes count interval →
      (∀ d, aggregateClosed5mCausally (xs.map ReplayBar.bar) minutes = .ok d → PositiveSeed d) →
      ∀ {bars more : List Bar} {b : Bar}, (bars ++ [b]) ++ more = xs.map ReplayBar.bar →
      ∀ d, Derived market minutes count interval (bars ++ [b]) d → PositiveSeed d := by
    intro minutes count interval htf hseed bars more b hall d hd
    rw [← hall] at hchron hseed
    obtain ⟨whole, hwhole⟩ := Derived.exists_of_chronological htf hchron
    obtain ⟨rest, rfl⟩ := hd.isPrefix htf hchron hwhole
    exact (hseed _ ((aggregate_eq htf hchron (by simp)).trans hwhole.eq)).left
  refine outputs_forall₂ (R := fun done s t => Aligned sha256 market (done.map ReplayBar.bar) s t)
    (fun done x s t hpre h => ?_) xs [] _ _ (List.nil_append xs) .start
  obtain ⟨more, hmore⟩ := hpre
  have hall : (done.map ReplayBar.bar ++ [x.bar]) ++ more.map ReplayBar.bar = xs.map ReplayBar.bar := by
    rw [← hmore]
    simp
  rw [List.map_append]
  exact h.step hsha (hall ▸ hchron).left (hall ▸ hseed5).left
    (hpart (.inl ⟨rfl, rfl, rfl⟩) hseed15 hall) (hpart (.inr ⟨rfl, rfl, rfl⟩) hseed1 hall)

end Routes

/-! ### The swing history, replayed -/

def swingReplay : List ReplayBar := (List.range 46).map fun k => ⟨swingBar k, 1 / 100, none⟩

/-- Both routes return on the last two of forty-six bars. -/
theorem incremental_replay_swing :
    (outputs (plainStep Digest.nested) {} swingReplay).map Except.isOk
        = List.replicate 44 false ++ [true, true]
      ∧ List.Forall₂ (fun a b => Agree a b SameResult)
        (outputs (incrementalStep Digest.nested)
          ({ marketId := (swingBar 0).marketId } : IncrementalStrategyState (List ℕ)) swingReplay)
        (outputs (plainStep Digest.nested) {} swingReplay) := by
  have hseed : ∀ {minutes : ℕ},
      ((aggregateClosed5mCausally (swingReplay.map ReplayBar.bar) minutes).toOption.all
        fun d => decide (PositiveSeed d)) = true →
      ∀ d, aggregateClosed5mCausally (swingReplay.map ReplayBar.bar) minutes = .ok d →
        PositiveSeed d := by
    intro minutes hall d hd
    rw [hd] at hall
    exact of_decide_eq_true hall
  refine ⟨by decide +kernel, incremental_replay_agrees Digest.nested_injective
    ⟨by decide +kernel, by decide +kernel⟩ (by decide +kernel)
    (hseed (by decide +kernel)) (hseed (by decide +kernel))⟩

end TraderAssist
