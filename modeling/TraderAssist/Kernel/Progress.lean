/-
TraderAssist/Kernel/Progress.lean

What one bar does to one event.

`Advances` is the frame of a progress step: the origin of the event is kept, the
latest bar is the new one, and the event either stays ACTIVE without a decision
or ends with one.  `EventWf` is the invariant of every event in a reachable
ledger: the optional fields its phase needs are there, a retest was seen after
the creation, and a confirmation came after both.  Under it a progress step
cannot raise, and it keeps it.
-/
import TraderAssist.Kernel.Engine

namespace TraderAssist

open Py

variable {δ : Type}

/-! ### Origin and frame -/

/-- The part of an event that no step changes. -/
structure Origin (δ : Type) where
  marketEventId : δ
  marketId : Text
  setupFamily : SetupFamily
  side : Side
  zone : ZoneSnapshot δ
  createdBar : Bar
  a5Event : ℚ
  m20Event : ℚ
  htfRelation : HtfRelation
  scannerLinkage : Option ScannerLinkage
  breakoutLinkage : Option (BreakoutLinkage δ)

namespace MarketEvent

def origin (e : MarketEvent δ) : Origin δ :=
  ⟨e.marketEventId, e.marketId, e.setupFamily, e.side, e.zone, e.createdBar, e.a5Event,
    e.m20Event, e.htfRelation, e.scannerLinkage, e.breakoutLinkage⟩

@[simp] theorem conclude_origin (e : MarketEvent δ) (st : EventStatus) (tr : Transition)
    (bar : Bar) : (e.conclude st tr bar).origin = e.origin := rfl

@[simp] theorem conclude_status (e : MarketEvent δ) (st : EventStatus) (tr : Transition)
    (bar : Bar) : (e.conclude st tr bar).status = st := rfl

@[simp] theorem conclude_latestBar (e : MarketEvent δ) (st : EventStatus) (tr : Transition)
    (bar : Bar) : (e.conclude st tr bar).latestBar = bar := rfl

end MarketEvent

/-- The kind of decision that goes with a final status. -/
def EventStatus.kind : EventStatus → DecisionKind
  | .confirmed => .formalSetupConfirmed
  | .superseded => .superseded
  | .dataInvalid => .dataInvalid
  | _ => .invalidated

variable {kind : DecisionKind} {e : MarketEvent δ} {bar : Bar}

theorem decisionOf_spec {reason : Reason} {tr : Transition}
    {d : StrategyDecision δ} (h : decisionOf e kind reason tr = .ok d) :
    d.decision = kind ∧ d.reason = reason := by
  unfold decisionOf at h
  dsimp only at h
  split at h
  · cases h
  · cases h
    exact ⟨rfl, rfl⟩

theorem decisionOf_isOk (reason : Reason) (tr : Transition)
    (h : checkModes kind e.setupFamily e.formalMode (if e.formalMode = some .standard then e.retestType else none) = .ok ()) :
    ∃ d, decisionOf e kind reason tr = .ok d := by
  unfold decisionOf
  dsimp only
  split
  · rename_i heq
    rw [h] at heq
    cases heq
  · exact ⟨_, rfl⟩

/-- The frame of a progress step. -/
structure Advances (e : MarketEvent δ) (bar : Bar) (p : Progress δ) : Prop where
  origin : p.1.origin = e.origin
  latest : p.1.latestBar = bar
  outcome : (p.1.status = e.status ∧ p.2 = none) ∨ ∃ d, p.2 = some d ∧ p.1.status ≠ .active
    ∧ (d.decision = .formalSetupConfirmed ↔ p.1.status = .confirmed)
    ∧ (p.1.status = .confirmed ∨ p.1.status = .invalidated ∨ p.1.status = .superseded)
  reports : ∀ d, p.2 = some d → ∃ kind reason, decisionOf p.1 kind reason p.1.transition = .ok d

variable {e e' : MarketEvent δ}

theorem Advances.waits (ho : e'.origin = e.origin)
    (hl : e'.latestBar = bar) (hs : e'.status = e.status) : Advances e bar (e', none) :=
  ⟨ho, hl, .inl ⟨hs, rfl⟩, fun _ h => nomatch h⟩

variable {p : Progress δ}

theorem withDecision_advances {e updated : MarketEvent δ} {reason : Reason}
    (h : withDecision updated kind reason = .ok p) (hk : kind = updated.status.kind)
    (horig : updated.origin = e.origin) (hlat : updated.latestBar = bar)
    (hstat : updated.status = .confirmed ∨ updated.status = .invalidated ∨ updated.status = .superseded) :
    Advances e bar p := by
  obtain ⟨d, hd, hp⟩ := of_bind h
  cases hp
  subst hk
  obtain ⟨hkind, -⟩ := decisionOf_spec hd
  refine ⟨horig, hlat, .inr ⟨d, rfl, ?_, ?_, hstat⟩, fun d' h => ?_⟩
  · rcases hstat with h | h | h <;> simp [h]
  · rw [hkind]
    rcases hstat with h | h | h <;> simp [h, EventStatus.kind]
  · cases h
    exact ⟨_, _, hd⟩

theorem progressSweep_advances (h : progressSweep e bar = .ok p) :
    Advances e bar p := by
  unfold progressSweep at h
  split at h
  · dsimp only at h
    split_ifs at h
    · exact withDecision_advances h rfl rfl rfl (.inr (.inr rfl))
    · exact withDecision_advances h rfl rfl rfl (.inr (.inl rfl))
    · exact withDecision_advances h rfl rfl rfl (.inl rfl)
    · cases h
      exact .waits rfl rfl rfl
  · cases h

theorem progressBeforePullback_advances {previousClose : ℚ}
    (h : progressBeforePullback e bar previousClose = .ok p) : Advances e bar p := by
  unfold progressBeforePullback at h
  dsimp only at h
  split at h
  · obtain ⟨retest, -, h⟩ := of_bind h
    cases h
    exact .waits rfl rfl rfl
  · obtain ⟨micro, -, h⟩ := of_bind h
    split at h
    · obtain ⟨terms, -, h⟩ := of_bind h
      exact withDecision_advances h rfl rfl rfl (.inl rfl)
    · split at h
      · cases h
      · cases h
        exact .waits rfl rfl rfl

theorem progressInPullback_advances {previousHigh previousLow : ℚ}
    (h : progressInPullback e bar previousHigh previousLow = .ok p) : Advances e bar p := by
  unfold progressInPullback at h
  split at h
  · cases h
  · obtain ⟨qualified, -, h⟩ := of_bind h
    dsimp only at h
    split at h
    · exact withDecision_advances h rfl rfl rfl (.inl rfl)
    · cases h
      exact .waits rfl rfl rfl

theorem progressBreakout_advances
    (h : progressBreakout e bar = .ok p) : Advances e bar p := by
  unfold progressBreakout at h
  split at h
  · split_ifs at h
    · exact withDecision_advances h rfl rfl rfl (.inr (.inl rfl))
    · exact progressInPullback_advances h
    · exact progressBeforePullback_advances h
  · cases h

/-- **What the progress loop does to one event**, when it does anything. -/
theorem progressEvent_advances
    (h : progressEvent bar e = .ok (some (e', p))) : e' = p.1 ∧ e.status = .active ∧ e.marketId = bar.marketId
      ∧ e.latestBar.openTimeMs < bar.openTimeMs ∧ Advances e bar p := by
  unfold progressEvent at h
  split_ifs at h with hskip hseen
  · simp at h
  · simp at h
  · simp only [not_or, not_not] at hskip
    have hnew := not_le.mp hseen
    split at h
    · obtain ⟨q, hq, h⟩ := of_bind (h : _ >>= _ = _)
      cases h
      exact ⟨rfl, hskip.1, hskip.2, hnew, progressSweep_advances hq⟩
    · obtain ⟨q, hq, h⟩ := of_bind (h : _ >>= _ = _)
      cases h
      exact ⟨rfl, hskip.1, hskip.2, hnew, progressBreakout_advances hq⟩
    · simp at h

/-- A progress step never returns the event it was given. -/
theorem progressEvent_ne
    (h : progressEvent bar e = .ok (some (e', p))) : e' ≠ e := by
  obtain ⟨rfl, -, -, hlt, hadv⟩ := progressEvent_advances h
  intro heq
  have hlat := hadv.latest
  rw [heq] at hlat
  rw [hlat] at hlt
  exact lt_irrefl _ hlt

/-! ### Well-formed events -/

/-- The phases of a breakout event. -/
structure BreakoutWf (e : MarketEvent δ) : Prop where
  initialHigh : e.initialBreakoutHigh.isSome
  initialLow : e.initialBreakoutLow.isSome
  initialClose : e.initialBreakoutClose.isSome
  previousClose : e.previousClose.isSome
  previousHigh : e.previousHigh.isSome
  previousLow : e.previousLow.isSome
  impulse : e.impulseExtreme.isSome
  before : e.pullbackStarted = false → e.retestType = none
  inside : e.pullbackStarted = true → e.pullbackExtreme.isSome
  seen : e.status = .active → e.retestType.isSome →
    ∃ t, e.retestSeenBarTimeMs = some t ∧ e.createdBar.openTimeMs < t
      ∧ t ≤ e.latestBar.openTimeMs
  mode : e.status = .confirmed → e.formalMode.isSome
  micro : e.formalMode = some .microFast → e.pullbackStarted = false
  standard : e.formalMode = some .standard → e.pullbackStarted = true ∧ e.retestType.isSome
    ∧ ∃ t, e.retestSeenBarTimeMs = some t ∧ e.createdBar.openTimeMs < t
      ∧ t < e.latestBar.openTimeMs

/-- What holds of every event in a reachable ledger. -/
structure EventWf (e : MarketEvent δ) : Prop where
  created_le : e.status = .active → e.createdBar.openTimeMs ≤ e.latestBar.openTimeMs
  mode_confirmed : e.status ≠ .confirmed → e.formalMode = none
  mode_breakout : e.setupFamily ≠ .breakoutRetest → e.formalMode = none
  sweep : e.setupFamily = .sweepReclaim →
    e.sweepExtreme.isSome ∧ e.reclaimCandleHigh.isSome ∧ e.reclaimCandleLow.isSome
  breakout : e.setupFamily = .breakoutRetest → BreakoutWf e
  range : e.setupFamily = .rangeEdgeRejection → e.status ≠ .active
  confirmed : e.status = .confirmed → e.setupFamily ≠ .rangeEdgeRejection →
    e.createdBar.openTimeMs < e.latestBar.openTimeMs

namespace EventWf

/-- An ACTIVE event may end, except by a confirmation, on any bar. -/
theorem conclude (hw : EventWf e) (hactive : e.status = .active)
    {st : EventStatus} (hst : st ≠ .active) (hst' : st ≠ .confirmed) (tr : Transition)
    (bar : Bar) : EventWf (e.conclude st tr bar) := by
  have hmode : e.formalMode = none := hw.mode_confirmed (by simp [hactive])
  refine ⟨fun h => absurd h hst, fun _ => hmode, fun _ => hmode, hw.sweep, fun hf => ?_,
    fun _ => hst, fun h => absurd h hst'⟩
  exact { hw.breakout hf with
    seen := fun h => absurd h hst
    mode := fun h => absurd h hst'
    micro := by simp [MarketEvent.conclude, hmode]
    standard := by simp [MarketEvent.conclude, hmode] }

/-- A breakout event with a later bar. -/
theorem of_breakout (hf : e.setupFamily = .breakoutRetest)
    (hcr : e.createdBar.openTimeMs < e.latestBar.openTimeMs)
    (hmode : e.status ≠ .confirmed → e.formalMode = none) (hb : BreakoutWf e) : EventWf e :=
  ⟨fun _ => hcr.le, hmode, fun h => absurd hf h, by simp [hf], fun _ => hb, by simp [hf], fun _ _ => hcr⟩

/-- A decision that is not a confirmation can always be made for an event
without a mode. -/
theorem decisionOf_isOk {kind : DecisionKind} (hmode : e.formalMode = none)
    (hkind : kind ≠ .formalSetupConfirmed) (reason : Reason) (tr : Transition) :
    ∃ d, decisionOf e kind reason tr = .ok d := by
  refine TraderAssist.decisionOf_isOk reason tr ?_
  simp [checkModes, hkind, hmode]

end EventWf

/-- A progress step that cannot raise and keeps the event well formed. -/
abbrev KeepsWf (x : Except KernelError (Progress δ)) : Prop :=
  Sat x (fun p => EventWf p.1) fun _ => False

theorem withDecision_keepsWf (reason : Reason) (hw : EventWf e)
    (h : checkModes kind e.setupFamily e.formalMode (if e.formalMode = some .standard then e.retestType else none) = .ok ()) :
    KeepsWf (withDecision e kind reason) := by
  obtain ⟨d, hd⟩ := decisionOf_isOk reason e.transition h
  rw [withDecision, hd]
  exact hw

theorem conclude_keepsWf (hw : EventWf e) (hactive : e.status = .active)
    {st : EventStatus} (hst : st ≠ .active) (hst' : st ≠ .confirmed)
    (hkind : kind ≠ .formalSetupConfirmed) (tr : Transition) (reason : Reason) (bar : Bar) :
    KeepsWf (withDecision (e.conclude st tr bar) kind reason) := by
  refine withDecision_keepsWf reason (hw.conclude hactive hst hst' tr bar) ?_
  have hmode : (e.conclude st tr bar).formalMode = none := hw.mode_confirmed (by simp [hactive])
  simp [checkModes, hkind, hmode]

theorem progressSweep_keepsWf (hw : EventWf e)
    (hf : e.setupFamily = .sweepReclaim) (hactive : e.status = .active)
    (hlt : e.latestBar.openTimeMs < bar.openTimeMs) : KeepsWf (progressSweep e bar) := by
  obtain ⟨hx, hh, hl⟩ := hw.sweep hf
  obtain ⟨extreme, hx⟩ := Option.isSome_iff_exists.mp hx
  obtain ⟨high, hh⟩ := Option.isSome_iff_exists.mp hh
  obtain ⟨low, hl⟩ := Option.isSome_iff_exists.mp hl
  have hmode : e.formalMode = none := hw.mode_breakout (by simp [hf])
  have hcr := (hw.created_le hactive).trans_lt hlt
  unfold progressSweep
  simp only [hx, hh, hl]
  split_ifs
  · exact conclude_keepsWf hw hactive (by decide) (by decide) (by decide) _ _ _
  · exact conclude_keepsWf hw hactive (by decide) (by decide) (by decide) _ _ _
  · -- confirmed: the mode stays empty, the bar is later than the creation
    refine withDecision_keepsWf _ ?_ (by simp [checkModes, MarketEvent.conclude, hf, hmode])
    exact ⟨fun _ => hcr.le, fun _ => hmode, fun _ => hmode, hw.sweep,
      by simp [MarketEvent.conclude, hf], by simp [MarketEvent.conclude, hf], fun _ _ => hcr⟩
  · -- still waiting
    exact ⟨fun _ => hcr.le, fun _ => hmode, fun _ => hmode, fun _ => ⟨rfl, rfl, rfl⟩, by simp [hf],
      by simp [hf], fun _ _ => hcr⟩

theorem qualifyRetest_isOk (himp : e.impulseExtreme.isSome) (bar : Bar)
    (extreme : ℚ) : ∃ r, qualifyRetest e bar extreme = .ok r := by
  obtain ⟨impulse, h⟩ := Option.isSome_iff_exists.mp himp
  unfold qualifyRetest
  rw [h]
  exact ⟨_, rfl⟩

theorem microConfirmation_isOk (hb : BreakoutWf e) (bar : Bar) :
    ∃ r, microConfirmation e bar = .ok r := by
  obtain ⟨high, hh⟩ := Option.isSome_iff_exists.mp hb.initialHigh
  obtain ⟨low, hl⟩ := Option.isSome_iff_exists.mp hb.initialLow
  obtain ⟨close, hc⟩ := Option.isSome_iff_exists.mp hb.initialClose
  unfold microConfirmation
  rw [hh, hl, hc]
  exact ⟨_, rfl⟩

theorem microTerms_isOk (hb : BreakoutWf e) : ∃ r, microTerms e = .ok r := by
  obtain ⟨high, hh⟩ := Option.isSome_iff_exists.mp hb.initialHigh
  obtain ⟨low, hl⟩ := Option.isSome_iff_exists.mp hb.initialLow
  unfold microTerms
  rw [hh, hl]
  exact ⟨_, rfl⟩

section Breakout

variable {e : MarketEvent δ} {bar : Bar}

/-- A retest recorded after one more bar was seen after the creation, at the
latest on that bar. -/
theorem retestAfter_seen (hb : BreakoutWf e) (hactive : e.status = .active)
    (hlt : e.latestBar.openTimeMs < bar.openTimeMs)
    (hcr : e.createdBar.openTimeMs < bar.openTimeMs) (qualified : Option RetestType)
    (h : (retestAfter e bar qualified).1.isSome) :
    ∃ t, (retestAfter e bar qualified).2 = some t ∧ e.createdBar.openTimeMs < t ∧ t ≤ bar.openTimeMs := by
  have hold : e.retestType.isSome → ∃ t, e.retestSeenBarTimeMs = some t
      ∧ e.createdBar.openTimeMs < t ∧ t ≤ bar.openTimeMs := by
    intro hr
    obtain ⟨t, ht, hct, htl⟩ := hb.seen hactive hr
    exact ⟨t, ht, hct, htl.trans hlt.le⟩
  have hnow : ∃ t, some bar.openTimeMs = some t ∧ e.createdBar.openTimeMs < t
      ∧ t ≤ bar.openTimeMs := ⟨_, rfl, hcr, le_rfl⟩
  unfold retestAfter at h ⊢
  split_ifs at h ⊢ with hdeep holdDeep hfill
  · exact hold (by simp [holdDeep])
  · exact hnow
  · exact hnow
  · exact hold h

variable (hw : EventWf e) (hf : e.setupFamily = .breakoutRetest) (hactive : e.status = .active)
  (hlt : e.latestBar.openTimeMs < bar.openTimeMs)

include hw hf hactive hlt

/-- The fields every branch of the breakout progress leaves alone, and the
facts that do not depend on the branch. -/
theorem breakout_base : BreakoutWf e ∧ e.formalMode = none ∧ e.createdBar.openTimeMs < bar.openTimeMs :=
  ⟨hw.breakout hf, hw.mode_confirmed (by simp [hactive]), (hw.created_le hactive).trans_lt hlt⟩

theorem progressBeforePullback_keepsWf (hbeg : e.pullbackStarted = false) (previousClose : ℚ) :
    KeepsWf (progressBeforePullback e bar previousClose) := by
  obtain ⟨hb, hmode, hcr⟩ := breakout_base hw hf hactive hlt
  unfold progressBeforePullback
  dsimp only
  split
  · -- the pullback starts: a retest is seen on this very bar or not at all
    obtain ⟨retest, hrtst⟩ := qualifyRetest_isOk hb.impulse bar (e.side.pick bar.low bar.high)
    rw [hrtst]
    refine EventWf.of_breakout hf hcr (fun _ => hmode) { hb with
      previousClose := rfl
      previousHigh := rfl
      previousLow := rfl
      before := nofun
      inside := fun _ => rfl
      seen := fun _ h => ?_
      mode := by simp [hactive]
      micro := by simp [hmode]
      standard := by simp [hmode] }
    obtain ⟨r, rfl⟩ := Option.isSome_iff_exists.mp h
    exact ⟨bar.openTimeMs, rfl, hcr, le_rfl⟩
  · obtain ⟨micro, hmicro⟩ := microConfirmation_isOk hb bar
    rw [hmicro]
    cases micro with
    | true =>
      -- MICRO_FAST: still before any pullback
      obtain ⟨terms, hterms⟩ := microTerms_isOk hb
      simp only [bind, Except.bind, if_true, hterms]
      refine withDecision_keepsWf _ ?_ (by simp [checkModes, hf])
      exact .of_breakout hf hcr (fun h => absurd rfl h) { hb with
        seen := nofun
        mode := fun _ => rfl
        micro := fun _ => hbeg
        standard := nofun }
    | false =>
      obtain ⟨impulse, himp⟩ := Option.isSome_iff_exists.mp hb.impulse
      simp only [bind, Except.bind, himp, Bool.false_eq_true, if_false]
      refine EventWf.of_breakout hf hcr (fun _ => hmode) { hb with
        previousClose := rfl
        previousHigh := rfl
        previousLow := rfl
        impulse := rfl
        seen := fun _ h => ?_
        mode := by simp [hactive]
        micro := by simp [hmode]
        standard := by simp [hmode] }
      simp [hb.before hbeg] at h

theorem progressInPullback_keepsWf (hbeg : e.pullbackStarted = true) (previousHigh previousLow : ℚ) :
    KeepsWf (progressInPullback e bar previousHigh previousLow) := by
  obtain ⟨hb, hmode, hcr⟩ := breakout_base hw hf hactive hlt
  obtain ⟨extreme, hextreme⟩ := Option.isSome_iff_exists.mp (hb.inside hbeg)
  unfold progressInPullback
  split
  · rename_i hnone
    simp [hextreme] at hnone
  · rename_i ex hex
    obtain ⟨qualified, hq⟩ :=
      qualifyRetest_isOk hb.impulse bar (e.side.pick (min ex bar.low) (max ex bar.high))
    have hseen := retestAfter_seen hb hactive hlt hcr qualified
    simp only [hq, bind, Except.bind]
    split
    · -- STANDARD: the retest was seen on an earlier bar
      rename_i hgo
      simp only [Bool.and_eq_true] at hgo
      obtain ⟨⟨hrtst, haft⟩, -⟩ := hgo
      obtain ⟨t, ht, hct, -⟩ := hseen hrtst
      have htlt : t < bar.openTimeMs := by
        rw [ht] at haft
        simpa using haft
      obtain ⟨r, hr⟩ := Option.isSome_iff_exists.mp hrtst
      refine withDecision_keepsWf _ ?_ (by simp [checkModes, hf, hr])
      exact .of_breakout hf hcr (fun h => absurd rfl h) { hb with
        before := by simp [hbeg]
        inside := fun _ => rfl
        seen := nofun
        mode := fun _ => rfl
        micro := nofun
        standard := fun _ => ⟨hbeg, hrtst, t, ht, hct, htlt⟩ }
    · exact EventWf.of_breakout hf hcr (fun _ => hmode) { hb with
        previousClose := rfl
        previousHigh := rfl
        previousLow := rfl
        before := by simp [hbeg]
        inside := fun _ => rfl
        seen := fun _ h => hseen h
        mode := by simp [hactive]
        micro := by simp [hmode]
        standard := by simp [hmode] }

theorem progressBreakout_keepsWf : KeepsWf (progressBreakout e bar) := by
  have hb := hw.breakout hf
  obtain ⟨close, hc⟩ := Option.isSome_iff_exists.mp hb.previousClose
  obtain ⟨high, hh⟩ := Option.isSome_iff_exists.mp hb.previousHigh
  obtain ⟨low, hl⟩ := Option.isSome_iff_exists.mp hb.previousLow
  unfold progressBreakout
  rw [hc, hh, hl]
  split_ifs with hre hbeg
  · exact conclude_keepsWf hw hactive (by decide) (by decide) (by decide) _ _ _
  · exact progressInPullback_keepsWf hw hf hactive hlt hbeg _ _
  · exact progressBeforePullback_keepsWf hw hf hactive hlt (by simpa using hbeg) _

end Breakout

/-- **A progress step on a well-formed event returns, and returns a well-formed
event.** -/
theorem progressEvent_wf (hw : EventWf e) :
    Sat (progressEvent bar e) (fun o => ∀ e' p, o = some (e', p) → EventWf e') fun _ => False := by
  unfold progressEvent
  split_ifs with hskip hseen
  · exact fun _ _ h => by cases h
  · exact fun _ _ h => by cases h
  · simp only [not_or, not_not] at hskip
    have hlt := not_le.mp hseen
    split
    · rename_i hf
      refine (progressSweep_keepsWf hw hf hskip.1 hlt).map fun p hp e' q h => ?_
      cases h
      exact hp
    · rename_i hf
      refine (progressBreakout_keepsWf hw hf hskip.1 hlt).map fun p hp e' q h => ?_
      cases h
      exact hp
    · exact fun _ _ h => by cases h

end TraderAssist
