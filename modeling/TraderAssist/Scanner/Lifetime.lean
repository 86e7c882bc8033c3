/-
TraderAssist/Scanner/Lifetime.lean

The life of a breakout candidate, bar by bar.

Each later bar advances the candidate once.  `Path` is what holds after so many bars, and
`Path.advance` its step; a candidate is out of its window at the thirteenth bar at the latest.
-/
import TraderAssist.Scanner.Candidate

namespace TraderAssist

open Py

variable {δ : Type}

/-! ### Fresh candidates -/

/-- Transitions that follow one another, from one state to another; `none` is `NEW`. -/
def Chained (start : Option ScannerState) :
    List (Option ScannerState × ScannerState) → Option ScannerState → Prop
  | [], stop => start = stop
  | (a, b) :: rest, stop => a = start ∧ Chained (some b) rest stop

theorem Chained.snoc {start : Option ScannerState} {transitions : List (Option ScannerState × ScannerState)}
    {state : ScannerState} (h : Chained start transitions (some state)) (next : ScannerState) :
    Chained start (transitions ++ [(some state, next)]) (some next) := by
  induction transitions generalizing start with
  | nil => exact ⟨h.symm, rfl⟩
  | cons t rest ih => exact ⟨h.1, ih h.2⟩

/-- What discovery says of a breakout. -/
structure ScannerCandidate.Fresh (c : ScannerCandidate δ) : Prop where
  side : ∃ side, c.side = some side
  level : ∃ level, c.breakoutLevel = some level
  untouched : c.retestTouchBarOpenTimeMs = none
  transitions : c.transitions = [(none, c.state)]
  open_ : c.state.classify = .progressionEligible

variable {observations : List (ScannerObservation δ)} {inputs : List ScannerMarketInput}

/-- **A discovered breakout is fresh.** -/
theorem scanCrossSection_fresh {sha256 : Preimage δ → δ}
    (h : scanCrossSection sha256 inputs = .ok observations)
    {o : ScannerObservation δ} (ho : o ∈ observations) {c : ScannerCandidate δ} (hc : o.candidate = some c)
    (hbrk : c.breakoutBarOpenTimeMs ≠ none) : c.Fresh := by
  obtain ⟨returns, -, h⟩ := of_bind h
  obtain ⟨item, -, hitem⟩ := mem_of_mapM h o ho
  have hsat : Sat (observe sha256 (standingOf returns) item) (fun o => o.marketId = item.marketId
      ∧ ∀ c ∈ o.candidate, c.breakoutBarOpenTimeMs ≠ none → c.Fresh) fun _ => True := by
    refine observe_sat (P := fun found => ∀ c ∈ found, c.breakoutBarOpenTimeMs ≠ none → c.Fresh)
      (fun c hc => by cases hc) (fun current side state level reason c hc hne => ?_)
      (fun metrics side => ?_) _
    · obtain rfl := Option.mem_some_iff.mp hc
      exact absurd rfl hne
    · refine Sat.after fun current _ => ?_
      refine Sat.after fun atr _ => ?_
      dsimp only
      split
      · refine Sat.after fun distance _ => ?_
        intro c hc _
        obtain rfl := Option.mem_some_iff.mp hc
        exact ⟨⟨_, rfl⟩, ⟨_, rfl⟩, rfl, rfl, classify_breakoutState _⟩
      · intro c hc
        cases hc
  exact (hsat.of_ok hitem).2 c hc hbrk

/-! ### Bars after the breakout -/

/-- A later bar, with how many of the last bars are passed, and what else is. -/
structure ScannerTick where
  bar : Bar
  window : ℕ
  atr : ℚ
  spread : ℚ
  liquidityHealthy : Bool

/-- The candidates after each of the later bars. -/
def ScannerCandidate.follow (c : ScannerCandidate δ) (history : List Bar) :
    List ScannerTick → Except ScannerError (List (ScannerCandidate δ))
  | [] => .ok []
  | tick :: ticks => do
    let history := history ++ [tick.bar]
    let next ← c.advance (lastN tick.window history) tick.spread tick.liquidityHealthy (some tick.atr)
    let rest ← next.follow history ticks
    pure (next :: rest)

/-- The bars since the breakout at `breakoutBar`: it is the last bar with its time. -/
def Since (breakoutBar : ℕ) (history : List Bar) (since : List Bar) : Prop :=
  (∃ before b, history = before ++ b :: since ∧ b.openTimeMs = breakoutBar)
    ∧ ∀ bar ∈ since, breakoutBar < bar.openTimeMs

theorem elapsed_eq {breakoutBar : ℕ} {history since : List Bar} (h : Since breakoutBar history since)
    {window : ℕ}
    (hwin : since.length < window) (current : Bar) :
    ScannerCandidate.elapsed breakoutBar (lastN window history) current = .ok since.length := by
  obtain ⟨⟨before, b, rfl, hb⟩, hltr⟩ := h
  rw [lastN_append (by simpa using Nat.succ_le_of_lt hwin)]
  unfold ScannerCandidate.elapsed
  have hfind : ((lastN (window - (b :: since).length) before ++ b :: since).reverse.findIdx?
      fun bar => decide (bar.openTimeMs = breakoutBar)) = some since.length := by
    rw [List.reverse_append, List.reverse_cons, List.append_assoc, List.findIdx?_append]
    have hnone : since.reverse.findIdx? (fun bar => decide (bar.openTimeMs = breakoutBar)) = none := by
      refine List.findIdx?_eq_none_iff.mpr fun bar hbar => ?_
      exact decide_eq_false (hltr bar (List.mem_reverse.mp hbar)).ne'
    rw [hnone]
    simp [List.findIdx?_cons, hb]
  rw [hfind]

/-! ### One bar -/

/-- A candidate after so many bars. -/
structure ScannerCandidate.Path (breakoutBar : ℕ) (count : ℕ) (c : ScannerCandidate δ) : Prop where
  breakout : c.breakoutBarOpenTimeMs = some breakoutBar
  side : ∃ side, c.side = some side
  level : ∃ level, c.breakoutLevel = some level
  touch : ∀ time ∈ c.retestTouchBarOpenTimeMs,
    breakoutBar < time ∧ time ≤ breakoutBar + count * fiveMinutesMs
  chain : Chained none c.transitions (some c.state)
  ended : 13 ≤ count → c.state.classify = .terminal

/-- What one bar does to a candidate. -/
structure ScannerCandidate.Turns (breakoutBar : ℕ) (bar : Bar) (c c' : ScannerCandidate δ) : Prop where
  candidateId : c'.candidateId = c.candidateId
  side : c'.side = c.side
  level : c'.breakoutLevel = c.breakoutLevel
  breakout : c'.breakoutBarOpenTimeMs = c.breakoutBarOpenTimeMs
  terminal : c.state.classify = .terminal → c' = c
  ready : c.state ≠ .breakoutRetestReady → c'.state = .breakoutRetestReady →
    ∃ touch, c'.retestTouchBarOpenTimeMs = some touch ∧ breakoutBar < touch ∧ touch < bar.openTimeMs

namespace ScannerCandidate

variable {breakoutBar count : ℕ} {bar : Bar} {c : ScannerCandidate δ}

theorem Turns.refl (c : ScannerCandidate δ) : Turns breakoutBar bar c c :=
  ⟨rfl, rfl, rfl, rfl, fun _ => rfl, fun hne heq => absurd heq hne⟩

theorem Fresh.path (h : c.Fresh) (hbrk : c.breakoutBarOpenTimeMs = some breakoutBar) : Path breakoutBar 0 c where
  breakout := hbrk
  side := h.side
  level := h.level
  touch time ht := by
    rw [h.untouched] at ht
    cases ht
  chain := by
    rw [h.transitions]
    exact ⟨rfl, rfl⟩
  ended hcnt := absurd hcnt (by decide)

/-- Later bars leave a touch where it is. -/
theorem Path.touch_succ (h : Path breakoutBar count c) :
    ∀ time ∈ c.retestTouchBarOpenTimeMs, breakoutBar < time ∧ time ≤ breakoutBar + (count + 1) * fiveMinutesMs := by
  intro time ht
  obtain ⟨haft, hle⟩ := h.touch time ht
  refine ⟨haft, hle.trans (Nat.add_le_add_left (Nat.mul_le_mul_right _ (Nat.le_succ _)) _)⟩

theorem Path.closeAs (h : Path breakoutBar count c) {state : ScannerState} (hsta : state.classify = .terminal)
    (hopen : c.state.classify ≠ .terminal) (hready : state ≠ .breakoutRetestReady) (reason : ScannerReason) :
    Path breakoutBar (count + 1) (c.closeAs state reason) ∧ Turns breakoutBar bar c (c.closeAs state reason) :=
  ⟨⟨h.breakout, h.side, h.level, h.touch_succ, h.chain.snoc state, fun _ => hsta⟩,
    ⟨rfl, rfl, rfl, rfl, fun hterm => absurd hterm hopen, fun _ heq => absurd heq hready⟩⟩

/-- The state is ready only after a touch. -/
theorem pendingState_ready {chase : ScannerChase} {touched afterTouch confirmed liquidityHealthy : Bool}
    (h : (pendingState chase touched afterTouch confirmed liquidityHealthy).1 = .breakoutRetestReady) :
    afterTouch = true := by
  unfold pendingState at h
  split at h
  · rename_i hall
    simp only [Bool.and_eq_true] at hall
    exact hall.1.1.1
  · cases chase <;> cases h

section

variable (h : Path breakoutBar count c)
include h

/-- A path that neither failed nor expired, with the touch that is recorded after the bar. -/
theorem Path.pending (hopen : c.state.classify ≠ .terminal) (hcnt : count < 12)
    {touchTime : Option ℕ}
    (htouch : ∀ time ∈ touchTime, breakoutBar < time ∧ time ≤ breakoutBar + (count + 1) * fiveMinutesMs)
    (distance : ℚ) (confirmed liquidityHealthy : Bool) :
    let next := pendingState (chaseOf distance) touchTime.isSome
      (touchTime.any fun time => time < bar.openTimeMs) confirmed liquidityHealthy
    let c' := { c with
      state := next.1
      retestTouchBarOpenTimeMs := touchTime
      chase := some (chaseOf distance)
      chaseDistanceAtr := some distance
      reason := next.2
      transitions := if next.1 = c.state then c.transitions else c.transitions ++ [(some c.state, next.1)] }
    Path breakoutBar (count + 1) c' ∧ Turns breakoutBar bar c c' := by
  intro next c'
  refine ⟨⟨h.breakout, h.side, h.level, htouch, ?_, fun hlate => absurd hlate (by omega)⟩,
    ⟨rfl, rfl, rfl, rfl, fun hterm => absurd hterm hopen, fun _ hready => ?_⟩⟩
  · show Chained none (if next.1 = c.state then _ else _) (some next.1)
    split
    · rename_i hsame
      rw [hsame]
      exact h.chain
    · exact h.chain.snoc _
  · have haft := pendingState_ready hready
    rcases touchTime with - | touch
    · cases haft
    · exact ⟨touch, rfl, (htouch touch rfl).1, of_decide_eq_true haft⟩

/-- **The retest**, in the window. -/
theorem Path.retest (hopen : c.state.classify ≠ .terminal) (hcnt : count < 12)
    (hbar : bar.openTimeMs = breakoutBar + (count + 1) * fiveMinutesMs) {atr : ℚ} (hatr : 0 < atr)
    (side : Side)
    (level spread : ℚ) (liquidityHealthy : Bool) :
    ∃ c', c.retest side bar level atr spread liquidityHealthy = .ok c' ∧ Path breakoutBar (count + 1) c'
      ∧ Turns breakoutBar bar c c' := by
  have hnow : breakoutBar < bar.openTimeMs := by
    rw [hbar]
    exact Nat.lt_add_of_pos_right (Nat.mul_pos (Nat.succ_pos _) (by decide))
  unfold ScannerCandidate.retest
  unfold divideBy
  rw [if_neg hatr.ne']
  rcases hold : c.retestTouchBarOpenTimeMs with - | old
  · -- the bar may be the one that touches
    dsimp only
    split
    · refine ⟨_, rfl, h.pending hopen hcnt (fun time ht => ?_) _ _ _⟩
      cases ht
      exact ⟨hnow, hbar.le⟩
    · exact ⟨_, rfl, h.pending hopen hcnt (fun time ht => by cases ht) _ _ _⟩
  · exact ⟨_, rfl, h.pending hopen hcnt (fun time ht => h.touch_succ time (hold ▸ ht)) _ _ _⟩

/-- **One bar.** -/
theorem Path.advance {history since : List Bar}
    (hsince : Since breakoutBar history since) (hlen : since.length = count) (tick : ScannerTick)
    (hbar : tick.bar.openTimeMs = breakoutBar + (count + 1) * fiveMinutesMs) (hatr : 0 < tick.atr)
    (hwin : 14 ≤ tick.window) :
    ∃ c', c.advance (lastN tick.window (history ++ [tick.bar])) tick.spread tick.liquidityHealthy (some tick.atr) = .ok c'
      ∧ Path breakoutBar (count + 1) c' ∧ Turns breakoutBar tick.bar c c' := by
  obtain ⟨level, hlevel⟩ := h.level
  obtain ⟨side, hside⟩ := h.side
  unfold ScannerCandidate.advance
  rw [h.breakout, hlevel]
  dsimp only
  split
  · -- a terminal candidate stays as it is
    rename_i hterm
    exact ⟨c, rfl, ⟨h.breakout, h.side, h.level, h.touch_succ, h.chain, fun _ => hterm⟩, Turns.refl c⟩
  rename_i hopen
  have hcnt : count < 13 := not_le.mp fun hlate => hopen (h.ended hlate)
  have hnow : breakoutBar < tick.bar.openTimeMs := by
    rw [hbar]
    exact Nat.lt_add_of_pos_right (Nat.mul_pos (Nat.succ_pos _) (by decide))
  have hsince' : Since breakoutBar (history ++ [tick.bar]) (since ++ [tick.bar]) := by
    obtain ⟨⟨before, b, rfl, hb⟩, hltr⟩ := hsince
    exact ⟨⟨before, b, by simp, hb⟩, forall_mem_snoc hltr hnow⟩
  have hback : barBack (lastN tick.window (history ++ [tick.bar])) 0 = .ok tick.bar := by
    rw [lastN_append (by simp; omega)]
    simp [barBack]
  have helap := elapsed_eq hsince' (show _ < tick.window by simp; omega) tick.bar
  rw [List.length_append, List.length_singleton, hlen] at helap
  have hatrOr : atrOr (some tick.atr) (lastN tick.window (history ++ [tick.bar])) = pure tick.atr := rfl
  rw [hback, show (.ok tick.bar : Except ScannerError Bar) = pure tick.bar from rfl, pure_bind, helap,
    show (.ok (count + 1) : Except ScannerError ℕ) = pure (count + 1) from rfl, pure_bind,
    if_neg (Nat.succ_ne_zero count)]
  unfold ScannerCandidate.progress
  rw [hatrOr, pure_bind, hside]
  dsimp only
  split
  · exact ⟨_, rfl, h.closeAs rfl hopen (by decide) _⟩
  split
  · exact ⟨_, rfl, h.closeAs rfl hopen (by decide) _⟩
  split
  · exact ⟨_, rfl, h.closeAs rfl hopen (by decide) _⟩
  · exact h.retest hopen (by omega) hbar hatr side _ _ _

end

end ScannerCandidate

/-! ### A whole life -/

/-- The bars that come after the breakout, each with a positive ATR, and with at least the last
fourteen bars passed. -/
def Later (breakoutBar count : ℕ) (ticks : List ScannerTick) : Prop :=
  ∀ i tick, ticks[i]? = some tick →
    tick.bar.openTimeMs = breakoutBar + (count + i + 1) * fiveMinutesMs ∧ 0 < tick.atr ∧ 14 ≤ tick.window

/-- The candidates after each of the bars: which of their fields never change, that a terminal one
does not change at all, when they are terminal at the latest, when one gets ready, and how their
transitions follow one another. -/
structure Followed (breakoutBar count : ℕ) (c : ScannerCandidate δ) (ticks : List ScannerTick)
    (cs : List (ScannerCandidate δ)) : Prop where
  length : cs.length = ticks.length
  same : ∀ c' ∈ cs, c'.candidateId = c.candidateId ∧ c'.side = c.side ∧ c'.breakoutLevel = c.breakoutLevel
    ∧ c'.breakoutBarOpenTimeMs = c.breakoutBarOpenTimeMs
  terminal : (c :: cs).Pairwise fun earlier later => earlier.state.classify = .terminal → later = earlier
  ended : ∀ i c', cs[i]? = some c' → 13 ≤ count + i + 1 → c'.state.classify = .terminal
  ready : ∀ (i : ℕ) (before c' : ScannerCandidate δ) (tick : ScannerTick), (c :: cs)[i]? = some before →
    cs[i]? = some c' → ticks[i]? = some tick →
    before.state ≠ .breakoutRetestReady → c'.state = .breakoutRetestReady →
    ∃ touch, c'.retestTouchBarOpenTimeMs = some touch ∧ breakoutBar < touch ∧ touch < tick.bar.openTimeMs
  chain : ∀ c' ∈ c :: cs, Chained none c'.transitions (some c'.state)

/-- **All later bars.** -/
theorem ScannerCandidate.Path.follow {breakoutBar : ℕ} {ticks : List ScannerTick} :
    ∀ {count : ℕ} {c : ScannerCandidate δ} {history since : List Bar}, Path breakoutBar count c →
      Since breakoutBar history since → since.length = count → Later breakoutBar count ticks →
      ∃ cs, c.follow history ticks = .ok cs ∧ Followed breakoutBar count c ticks cs := by
  induction ticks with
  | nil =>
    intro count c history since h _ _ _
    refine ⟨[], rfl, rfl, fun _ hc => (by cases hc), List.pairwise_singleton _ _, fun _ _ hc => (by cases hc),
      fun _ _ _ _ _ hc => (by cases hc), fun c' hc => ?_⟩
    exact List.mem_singleton.mp hc ▸ h.chain
  | cons tick ticks ih =>
    intro count c history since h hsince hlen hltr
    obtain ⟨hbar, hatr, hwin⟩ := hltr 0 tick rfl
    obtain ⟨next, hnext, hpath, hturns⟩ := h.advance hsince hlen tick hbar hatr hwin
    have hsince' : Since breakoutBar (history ++ [tick.bar]) (since ++ [tick.bar]) := by
      obtain ⟨⟨before, b, rfl, hb⟩, haft⟩ := hsince
      refine ⟨⟨before, b, by simp, hb⟩, forall_mem_snoc haft ?_⟩
      rw [hbar]
      exact Nat.lt_add_of_pos_right (Nat.mul_pos (Nat.succ_pos _) (by decide))
    have hltr' : Later breakoutBar (count + 1) ticks := by
      intro i x hx
      rw [show count + 1 + i + 1 = count + (i + 1) + 1 by omega]
      exact hltr (i + 1) x hx
    obtain ⟨rest, hrest, hfol⟩ := ih hpath hsince' (by simp [hlen]) hltr'
    refine ⟨next :: rest, ?_, ?_, ?_, ?_, ?_, ?_, ?_⟩
    · show (do let next ← _; let rest ← _; pure (next :: rest) : Except ScannerError _) = _
      rw [hnext, show (.ok next : Except ScannerError _) = pure next from rfl, pure_bind, hrest]
      rfl
    · rw [List.length_cons, List.length_cons, hfol.length]
    · intro c' hc'
      rcases List.mem_cons.mp hc' with rfl | hc'
      · exact ⟨hturns.candidateId, hturns.side, hturns.level, hturns.breakout⟩
      · obtain ⟨hid, hside, hlevel, hbrk⟩ := hfol.same c' hc'
        exact ⟨hid.trans hturns.candidateId, hside.trans hturns.side, hlevel.trans hturns.level,
          hbrk.trans hturns.breakout⟩
    · refine List.pairwise_cons.mpr ⟨fun c' hc' hterm => ?_, hfol.terminal⟩
      have heq := hturns.terminal hterm
      rcases List.mem_cons.mp hc' with rfl | hc'
      · exact heq
      · rw [← heq] at hterm ⊢
        exact (List.pairwise_cons.mp hfol.terminal).1 c' hc' hterm
    · rintro (- | i) c' hc' hlate
      · cases hc'
        exact hpath.ended hlate
      · exact hfol.ended i c' hc' (by omega)
    · rintro (- | i) before c' x hbef hc' hx hnot hready
      · cases hbef
        cases hc'
        cases hx
        exact hturns.ready hnot hready
      · exact hfol.ready i before c' x hbef hc' hx hnot hready
    · intro c' hc'
      rcases hc' with - | ⟨-, hc'⟩
      · exact h.chain
      · exact hfol.chain c' hc'

/-- **The life of a breakout candidate** that a cross section returned: whatever later bars follow
one another, advancing it once per bar raises nothing, and the candidates are as `Followed` says.
The bars before the breakout bar may be any. -/
theorem scanner_candidate_lifetime {sha256 : Preimage δ → δ}
    (h : scanCrossSection sha256 inputs = .ok observations)
    {o : ScannerObservation δ} (ho : o ∈ observations) {c : ScannerCandidate δ} (hc : o.candidate = some c)
    (before : List Bar) {b : Bar} (hb : c.breakoutBarOpenTimeMs = some b.openTimeMs)
    {ticks : List ScannerTick}
    (hticks : Later b.openTimeMs 0 ticks) :
    ∃ cs, c.follow (before ++ [b]) ticks = .ok cs ∧ Followed b.openTimeMs 0 c ticks cs := by
  have hfresh := scanCrossSection_fresh h ho hc (by rw [hb]; exact Option.some_ne_none _)
  exact (hfresh.path hb).follow ⟨⟨before, b, rfl, rfl⟩, fun _ hx => by cases hx⟩ rfl hticks

/-! ### A market that jumps -/

/-- A bar that stays at `cents` hundredths. -/
def stillBar (k cents : ℕ) (h : 0 < cents) : Bar :=
  let price : Decimal := ⟨false, cents, -2⟩
  have hpos : 0 < price.toRat := by
    exact mul_pos (Nat.cast_pos.mpr h) (pow10_pos _)
  { marketId := ['M'], interval := .m5, openTimeMs := k * 300000, closeTimeMs := k * 300000 + 299999
    openRepr := price, highRepr := price, lowRepr := price, closeRepr := price
    volumeRepr := ⟨false, 1, 0⟩, sourceIdentity := ['s']
    marketId_ne := marketM_ne, times := by omega
    open_pos := hpos, high_pos := hpos, low_pos := hpos, close_pos := hpos
    volume_nonneg := by decide +kernel, open_le_high := le_rfl, close_le_high := le_rfl
    low_le_open := le_rfl, low_le_close := le_rfl }

def restBar (k : ℕ) : Bar := stillBar k 10000 (by decide)

def jumpBar (k : ℕ) : Bar := stillBar k 10070 (by decide)

/-- Thirty-six bars at 100, then one at 100.70, with an ATR of one. -/
def jumpInput (k : ℕ) : ScannerMarketInput where
  marketId := ['M']
  bars5m := (List.range 36).map (fun i => restBar (k - 36 + i)) ++ [jumpBar k]
  minimumTick := 1 / 100
  currentSpreadPrice := 1 / 100
  liquidityHealthy := true
  historyCount := some 300
  exactWilderAtr5m := some 1

/-- A hash that is quick to evaluate; the law does not ask for an injective one. -/
def rollingHash (p : Preimage ℕ) : ℕ :=
  p.foldl (fun h symbol => (1000003 * h + symbol.elim Char.toNat id) % 2 ^ 64) 0

/-- The thirteen bars after the jump, at 100.50. -/
def jumpTicks : List ScannerTick :=
  (List.range 13).map fun i => ⟨stillBar (37 + i) 10050 (by decide), 37, 1, 1 / 100, true⟩

/-- The jump is a breakout, and its candidate expires at the last of the bars. -/
theorem scanner_candidate_lifetime_jump :
    ∃ o c cs, scanCrossSection rollingHash [jumpInput 36] = .ok [o] ∧ o.candidate = some c
      ∧ c.follow (jumpInput 36).bars5m jumpTicks = .ok cs ∧ Followed (36 * 300000) 0 c jumpTicks cs := by
  have hscan : ∃ o c, scanCrossSection rollingHash [jumpInput 36] = .ok [o] ∧ o.candidate = some c
      ∧ c.breakoutBarOpenTimeMs = some (36 * 300000) := by
    have hcheck : (scanCrossSection rollingHash [jumpInput 36]).toOption.map (fun observations =>
        observations.map fun o => o.candidate.map ScannerCandidate.breakoutBarOpenTimeMs)
          = some [some (some (36 * 300000))] := by decide +kernel
    obtain ⟨observations, hok, hone⟩ := Option.map_eq_some_iff.mp hcheck
    obtain ⟨o, rfl, ho⟩ := List.map_eq_singleton_iff.mp hone
    obtain ⟨c, hc, hb⟩ := Option.map_eq_some_iff.mp ho
    exact ⟨o, c, toOption_eq_some.mp hok, hc, hb⟩
  obtain ⟨o, c, ho, hc, hb⟩ := hscan
  have hticks : Later (36 * 300000) 0 jumpTicks := by
    intro i tick htick
    unfold jumpTicks at htick
    rw [List.getElem?_map, Option.map_eq_some_iff] at htick
    obtain ⟨k, hk, rfl⟩ := htick
    obtain ⟨hi, rfl⟩ := List.getElem?_eq_some_iff.mp hk
    refine ⟨?_, by norm_num, show 14 ≤ 37 by decide⟩
    simp only [stillBar, List.getElem_range, fiveMinutesMs]
    omega
  obtain ⟨cs, hcs, hfollowed⟩ := scanner_candidate_lifetime ho (.head _) hc
    ((List.range 36).map fun i => restBar (36 - 36 + i)) (b := jumpBar 36) hb hticks
  exact ⟨o, c, cs, ho, hc, hcs, hfollowed⟩

end TraderAssist
