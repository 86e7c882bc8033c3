/-
TraderAssist/Kernel/Trace.lean

A call from pass to pass, in terms of the ledger it started from.

After the progress loop every event has seen the bar (`Seen`); which slots it
blocks, which sides it confirms and which events stay is said by `SlotEnds`,
`Confirms` and `StaysIn`.  The range pass confirms what `RangeFires` says, and
the opposite invalidation keeps the ACTIVE events no formal event opposes
(`OpposeSpec`).  `Trace` puts the four passes of a call together.
-/
import TraderAssist.Kernel.Slots

namespace TraderAssist

open Py

variable {δ : Type} {l : EventLedger δ} {side : Side} {e : MarketEvent δ} {slot : Slot}

/-! ### The readings of a call -/

section Readings

variable [LinearOrder δ] (sha256 : Preimage δ → δ)

/-- What a call derives from its inputs alone. -/
def readingsOf (inputs : StrategyEvaluationInput δ) :
    Except KernelError (Prepared δ × Readings δ) := do
  let p ← prepare sha256 inputs
  let a5 ← givenOr inputs.a5Override (wilderAtr14 inputs.bars5m)
  let m20 ← givenOr inputs.m20Override (medianPrevious20Volume inputs.bars5m)
  pure (p, ⟨p.currentBar, p.book, p.context, a5, m20, inputs.scannerLinkage⟩)

variable {inputs : StrategyEvaluationInput δ}

theorem evaluateStrategy_eq (hval : inputs.mandatoryDataValid = true) (l : EventLedger δ) :
    evaluateStrategy sha256 inputs l = (do
      let q ← readingsOf sha256 inputs
      let final ← runPasses sha256 q.2 inputs.bars5m q.1.bars15m inputs.a15Override l
      pure (resultOf q.1 final.1 final.2.decisions)) := by
  simp only [evaluateStrategy, readingsOf, hval, evaluateValid, bind_assoc, pure_bind,
    Bool.not_true, Bool.false_eq_true, if_false]

theorem evaluateStrategy_ok_iff (hval : inputs.mandatoryDataValid = true) {p : Prepared δ}
    {r : Readings δ} (hr : readingsOf sha256 inputs = .ok (p, r))
    {result : KernelResult δ} : evaluateStrategy sha256 inputs l = .ok result
      ↔ ∃ final, runPasses sha256 r inputs.bars5m p.bars15m inputs.a15Override l = .ok final
        ∧ result = resultOf p final.1 final.2.decisions := by
  rw [evaluateStrategy_eq sha256 hval, hr]
  change runPasses _ _ _ _ _ _ >>= _ = _ ↔ _
  refine bind_eq_ok.trans (exists_congr fun final => and_congr_right fun _ => ?_)
  exact ⟨fun h => by cases h; rfl, fun h => by rw [h]; rfl⟩

theorem prepare_bar {sha256 : Preimage δ → δ} {p : Prepared δ}
    (hok : prepare sha256 inputs = .ok p) : inputs.bars5m.getLast? = some p.currentBar := by
  obtain ⟨_, -, hok⟩ := of_bind hok
  obtain ⟨m15, -, hok⟩ := of_bind hok
  obtain ⟨h1, -, hok⟩ := of_bind hok
  obtain ⟨context, -, hok⟩ := of_bind hok
  obtain ⟨book, -, hok⟩ := of_bind hok
  split at hok
  · cases hok
  · cases hok
    assumption

theorem readingsOf_bar {sha256 : Preimage δ → δ} {q : Prepared δ × Readings δ}
    (hok : readingsOf sha256 inputs = .ok q) : inputs.bars5m.getLast? = some q.2.bar := by
  obtain ⟨p, hp, hok⟩ := of_bind hok
  obtain ⟨a5, -, hok⟩ := of_bind hok
  obtain ⟨m20, -, hok⟩ := of_bind hok
  cases hok
  exact prepare_bar hp

end Readings

/-! ### Events that have seen the bar -/

/-- The progress loop leaves the event alone. -/
def Seen (bar : Bar) (e : MarketEvent δ) : Prop := progressEvent bar e = .ok none

theorem seen_of_latest {bar : Bar} (h : e.latestBar = bar) : Seen bar e := by
  unfold Seen progressEvent
  simp [h]

theorem seen_of_inactive {bar : Bar} (h : e.status ≠ .active) : Seen bar e := by
  simp [Seen, progressEvent, h]

/-! ### The progress loop -/

/-- The bar ends an event of this family and side, other than by
supersession. -/
def SlotEnds (l : EventLedger δ) (bar : Bar) (family : SetupFamily) (side : Side) : Prop :=
  ∃ e ∈ l, e.setupFamily = family ∧ e.side = side
    ∧ ∃ e' p, progressEvent bar e = .ok (some (e', p)) ∧ blocksCreation e'.status = true

/-- The bar confirms an event of this side. -/
def Confirms (l : EventLedger δ) (bar : Bar) (side : Side) : Prop :=
  ∃ e ∈ l, e.side = side
    ∧ ∃ e' p, progressEvent bar e = .ok (some (e', p)) ∧ e'.status = .confirmed

/-- The bar does not end the event. -/
def StaysActive (bar : Bar) (e : MarketEvent δ) : Prop :=
  ∀ e' p, progressEvent bar e = .ok (some (e', p)) → e'.status = .active

/-- An ACTIVE event of the slot and the zone, older than the bar, stays
ACTIVE. -/
def StaysIn (l : EventLedger δ) (bar : Bar) (slot : Slot) (zoneId : δ) : Prop :=
  ∃ e, Holds l slot e ∧ StaysActive bar e ∧ e.zone.zoneId = zoneId
    ∧ e.createdBar.openTimeMs < bar.openTimeMs

section Progress

variable {bar : Bar} {ps : List (Progress δ)} {found : Findings δ}

theorem mem_absorbed_blocked {family : SetupFamily} :
    (family, side) ∈ (ps.foldl absorbProgress found).creationBlocked
      ↔ (family, side) ∈ found.creationBlocked ∨ ∃ p ∈ ps, blocksCreation p.1.status = true
        ∧ p.1.setupFamily = family ∧ p.1.side = side := by
  induction ps generalizing found with
  | nil => simp
  | cons p ps ih =>
    rw [List.foldl_cons, ih]
    have hone : (family, side) ∈ (absorbProgress found p).creationBlocked
        ↔ (family, side) ∈ found.creationBlocked ∨ (blocksCreation p.1.status = true
          ∧ p.1.setupFamily = family ∧ p.1.side = side) := by
      unfold absorbProgress
      cases p.2 <;> by_cases hb : blocksCreation p.1.status = true <;> simp [hb, eq_comm]
    rw [hone, or_assoc]
    simp only [List.mem_cons, exists_eq_or_imp]

theorem mem_absorbed_confirmed : e ∈ (ps.foldl absorbProgress found).confirmedEvents
      ↔ e ∈ found.confirmedEvents
        ∨ ∃ p ∈ ps, (∃ d, p.2 = some d ∧ d.decision = .formalSetupConfirmed) ∧ p.1 = e := by
  induction ps generalizing found with
  | nil => simp
  | cons p ps ih =>
    rw [List.foldl_cons, ih]
    have hone : e ∈ (absorbProgress found p).confirmedEvents ↔ e ∈ found.confirmedEvents
        ∨ ((∃ d, p.2 = some d ∧ d.decision = .formalSetupConfirmed) ∧ p.1 = e) := by
      unfold absorbProgress
      rcases p.2 with - | d
      · simp
      · by_cases hd : d.decision = .formalSetupConfirmed
        · simp [hd, eq_comm]
        · simp [hd]
    rw [hone, or_assoc]
    simp only [List.mem_cons, exists_eq_or_imp]

theorem mem_progressLogs {p : Progress δ} : p ∈ l.filterMap (logOf (progressEvent bar))
      ↔ ∃ e ∈ l, progressEvent bar e = .ok (some (p.1, p)) := by
  simp only [List.mem_filterMap]
  refine exists_congr fun e => and_congr_right fun _ => ?_
  constructor
  · intro h
    unfold logOf at h
    split at h
    · rename_i e' q hq
      obtain rfl : q = p := by simpa using h
      obtain ⟨rfl, -⟩ := progressEvent_advances hq
      exact hq
    · cases h
  · intro h
    simp [logOf, h]

end Progress

section ProgressLoop

variable [DecidableEq δ] {bar : Bar} {l : EventLedger δ} {p : Pass δ}
variable (hok : eachReplace .replacementFailed (progressEvent bar) absorbProgress l {} = .ok p)

include hok

/-- The loop event by event. -/
theorem progressLoop_each : List.Forall₂ (fun e e' => (progressEvent bar e = .ok none ∧ e' = e)
        ∨ ∃ b, progressEvent bar e = .ok (some (e', b))) l p.1
      ∧ p.2 = (l.filterMap (logOf (progressEvent bar))).foldl absorbProgress {} := by
  rw [progressLoop_eq] at hok
  exact each_ok hok

theorem progressLoop_seen : ∀ e ∈ p.1, Seen bar e := by
  intro e' he'
  obtain ⟨e, -, hstep⟩ := forall₂_mem_right (progressLoop_each hok).1 he'
  rcases hstep with ⟨hnone, rfl⟩ | ⟨b, hsome⟩
  · exact hnone
  · obtain ⟨rfl, -, -, -, hadv⟩ := progressEvent_advances hsome
    exact seen_of_latest hadv.latest

theorem progressLoop_evolves : List.Forall₂ Evolves l p.1 := by
  refine (progressLoop_each hok).1.imp fun e e' hstep => ?_
  rcases hstep with ⟨-, rfl⟩ | ⟨b, hsome⟩
  · exact .refl e'
  · obtain ⟨rfl, hact, -, -, hadv⟩ := progressEvent_advances hsome
    exact .inr ⟨hact, hadv.origin⟩

variable {family : SetupFamily}

theorem progressLoop_hasId {eventId : δ} : HasId p.1 eventId family ↔ HasId l eventId family :=
  hasId_evolves (progressLoop_evolves hok)

theorem progressLoop_blocked :
    (family, side) ∈ p.2.creationBlocked ↔ SlotEnds l bar family side := by
  rw [(progressLoop_each hok).2, mem_absorbed_blocked]
  simp only [List.not_mem_nil, false_or, mem_progressLogs]
  constructor
  · rintro ⟨q, ⟨e, he, hstep⟩, hblock, hfam, hside⟩
    have ho := (progressEvent_advances hstep).2.2.2.2.origin
    exact ⟨e, he, (congrArg Origin.setupFamily ho).symm.trans hfam,
      (congrArg Origin.side ho).symm.trans hside, _, q, hstep, hblock⟩
  · rintro ⟨e, he, hfam, hside, e', q, hstep, hblock⟩
    obtain ⟨rfl, -, -, -, hadv⟩ := progressEvent_advances hstep
    exact ⟨q, ⟨e, he, hstep⟩, hblock, (congrArg Origin.setupFamily hadv.origin).trans hfam,
      (congrArg Origin.side hadv.origin).trans hside⟩

/-- The confirmed events are of the bar's market and end on the bar. -/
theorem progressLoop_confirmed {formal : MarketEvent δ} (hf : formal ∈ p.2.confirmedEvents) :
    formal.marketId = bar.marketId ∧ formal.latestBar = bar ∧ Confirms l bar formal.side := by
  rw [(progressLoop_each hok).2, mem_absorbed_confirmed] at hf
  simp only [List.not_mem_nil, false_or, mem_progressLogs] at hf
  obtain ⟨q, ⟨e, he, hstep⟩, ⟨d, hd, hkind⟩, rfl⟩ := hf
  obtain ⟨-, -, hmkt, -, hadv⟩ := progressEvent_advances hstep
  refine ⟨(congrArg Origin.marketId hadv.origin).trans hmkt, hadv.latest, e, he,
    (congrArg Origin.side hadv.origin).symm, _, q, hstep, ?_⟩
  rcases hadv.outcome with ⟨-, hnone⟩ | ⟨d', hd', -, hiff, -⟩
  · rw [hnone] at hd
    cases hd
  · obtain rfl : d' = d := by simpa [hd'] using hd
    exact hiff.mp hkind

theorem progressLoop_confirms (hc : Confirms l bar side) :
    ∃ formal ∈ p.2.confirmedEvents, formal.side = side := by
  obtain ⟨e, he, hside, e', q, hstep, hstat⟩ := hc
  obtain ⟨rfl, hact, -, -, hadv⟩ := progressEvent_advances hstep
  refine ⟨q.1, ?_, (congrArg Origin.side hadv.origin).trans hside⟩
  rw [(progressLoop_each hok).2, mem_absorbed_confirmed]
  refine .inr ⟨q, mem_progressLogs.mpr ⟨e, he, hstep⟩, ?_, rfl⟩
  rcases hadv.outcome with ⟨hsame, -⟩ | ⟨d, hd, -, hiff, -⟩
  · rw [hsame, hact] at hstat
    cases hstat
  · exact ⟨d, hd, hiff.mpr hstat⟩

/-- The holders after the loop are the events that stay ACTIVE, with the origin
kept. -/
theorem progressLoop_holds {P : Origin δ → Prop} : (∃ e, Holds p.1 slot e ∧ P e.origin)
      ↔ ∃ e, Holds l slot e ∧ StaysActive bar e ∧ P e.origin := by
  constructor
  · rintro ⟨e', ⟨hmem, hslot, hact⟩, hP⟩
    obtain ⟨e, he, hstep⟩ := forall₂_mem_right (progressLoop_each hok).1 hmem
    rcases hstep with ⟨hnone, rfl⟩ | ⟨q, hsome⟩
    · refine ⟨e', ⟨he, hslot, hact⟩, fun e'' q h => ?_, hP⟩
      rw [hnone] at h
      cases h
    · obtain ⟨rfl, hact', -, -, hadv⟩ := progressEvent_advances hsome
      refine ⟨e, ⟨he, (slot_eq_of_origin hadv.origin).symm.trans hslot, hact'⟩,
        fun e'' q' h => ?_, hadv.origin ▸ hP⟩
      rw [hsome] at h
      cases h
      exact hact
  · rintro ⟨e, ⟨hmem, hslot, hact⟩, hstay, hP⟩
    obtain ⟨e', he', hstep⟩ := forall₂_mem_left (progressLoop_each hok).1 hmem
    rcases hstep with ⟨-, rfl⟩ | ⟨q, hsome⟩
    · exact ⟨e', ⟨he', hslot, hact⟩, hP⟩
    · obtain ⟨rfl, -, -, -, hadv⟩ := progressEvent_advances hsome
      exact ⟨q.1, ⟨he', (slot_eq_of_origin hadv.origin).trans hslot, hstay _ q hsome⟩, hadv.origin ▸ hP⟩

theorem progressLoop_stays {zoneId : δ} :
    (∃ e, Holds p.1 slot e ∧ e.zone.zoneId = zoneId ∧ e.createdBar.openTimeMs < bar.openTimeMs)
      ↔ StaysIn l bar slot zoneId :=
  progressLoop_holds hok
    (P := fun o => o.zone.zoneId = zoneId ∧ o.createdBar.openTimeMs < bar.openTimeMs)

/-- A slot whose event ends has no ACTIVE event left. -/
theorem progressLoop_ended (h : LedgerInv l) (hends : SlotEnds l bar family side)
    (e : MarketEvent δ) : ¬ Holds p.1 (bar.marketId, family, side) e := by
  rintro ⟨hmem, hslot, hact⟩
  obtain ⟨old, hold, hfam, hside, old', q, hstep, hblock⟩ := hends
  obtain ⟨rfl, holdact, hmkt, -, -⟩ := progressEvent_advances hstep
  obtain ⟨e₀, he₀, hstep₀⟩ := forall₂_mem_right (progressLoop_each hok).1 hmem
  have hev : Evolves e₀ e := by
    rcases hstep₀ with ⟨-, rfl⟩ | ⟨b, hsome⟩
    · exact .refl e
    · obtain ⟨rfl, hact₀, -, -, hadv⟩ := progressEvent_advances hsome
      exact .inr ⟨hact₀, hadv.origin⟩
  have hslot₀ := (slot_eq_of_origin hev.origin_eq).symm.trans hslot
  obtain rfl : old = e₀ := Holds.unique h
    ⟨hold, by simp [MarketEvent.slot, hmkt, hfam, hside], holdact⟩ ⟨he₀, hslot₀, hev.active hact⟩
  rcases hstep₀ with ⟨hnone, -⟩ | ⟨b, hsome⟩
  · rw [hstep] at hnone
    cases hnone
  · rw [hstep] at hsome
    cases hsome
    simp [hact, blocksCreation, EventStatus.terminal] at hblock

end ProgressLoop

/-! ### The range pass -/

section Range

variable [LinearOrder δ] (sha256 : Preimage δ → δ)

/-- The id of an event the bar creates in the zone. -/
def Readings.eventId (r : Readings δ) (zone : ZoneSnapshot δ) (side : Side) : δ :=
  marketEventId sha256 r.bar.marketId zone.zoneId side (r.bar.candleId sha256)

/-- A range round confirms an event that is not in the ledger yet. -/
def RoundFires (r : Readings δ) (previousClose : ℚ) (l : EventLedger δ)
    (spec : Side × Option (ZoneSnapshot δ) × Option (ZoneSnapshot δ)) : Prop :=
  ∃ zone other, spec.2.1 = some zone ∧ spec.2.2 = some other
    ∧ rangeCandidate r.bar previousClose zone spec.1 r.a5 r.m20 = .ok true
    ∧ ¬ HasId l (r.eventId sha256 zone spec.1) .rangeEdgeRejection

/-- The zone of a range event and the one it aims at. -/
def rangeZones (book : ZoneBook δ) (side : Side) :
    Side × Option (ZoneSnapshot δ) × Option (ZoneSnapshot δ) :=
  (side, side.pick book.activeSupport book.activeResistance,
    side.pick book.activeResistance book.activeSupport)

/-- The range pass confirms an event of this side. -/
def RangeFires (r : Readings δ) (bars5m bars15m : List Bar) (a15Override : Option ℚ)
    (l : EventLedger δ) (side : Side) : Prop :=
  rangeValid r.book.activeSupport r.book.activeResistance bars15m a15Override = .ok true
    ∧ ∃ previous, bars5m.dropLast.getLast? = some previous
      ∧ RoundFires sha256 r previous.close l (rangeZones r.book side)

variable {sha256} {r : Readings δ} {previousClose : ℚ} {pass pass' : Pass δ}
variable {spec : Side × Option (ZoneSnapshot δ) × Option (ZoneSnapshot δ)}
variable (hok : rangeStep sha256 r previousClose pass spec = .ok pass')

include hok in
/-- A range round appends exactly when it fires. -/
theorem rangeStep_fires :
    (¬ RoundFires sha256 r previousClose pass.1 spec ∧ pass' = pass)
      ∨ RoundFires sha256 r previousClose pass.1 spec
        ∧ ∃ event d, event.setupFamily = .rangeEdgeRejection ∧ event.status ≠ .active
          ∧ event.side = spec.1 ∧ event.marketId = r.bar.marketId ∧ event.latestBar = r.bar
          ∧ (∃ zone, spec.2.1 = some zone ∧ event.marketEventId = r.eventId sha256 zone spec.1)
          ∧ pass' = (pass.1 ++ [event],
              { pass.2 with
                confirmedEvents := pass.2.confirmedEvents ++ [event]
                decisions := pass.2.decisions ++ [d] }) := by
  rcases spec with ⟨side, zone?, other?⟩
  unfold rangeStep at hok
  dsimp only at hok
  split at hok
  · rename_i zone other
    obtain ⟨fires, hcand, hok⟩ := of_bind hok
    cases fires with
    | false =>
      cases hok
      refine .inl ⟨?_, rfl⟩
      rintro ⟨zone', other', hz, -, hcand', -⟩
      obtain rfl : zone = zone' := by simpa using hz
      rw [hcand] at hcand'
      cases hcand'
    | true =>
      rcases appendEvent_cases hok with ⟨hc, rfl⟩ | ⟨hc, d, -, rfl⟩
      · refine .inl ⟨?_, rfl⟩
        rintro ⟨zone', other', hz, -, -, hnew⟩
        obtain rfl : zone = zone' := by simpa using hz
        exact hnew (containsEventId_iff.mp hc)
      · refine .inr ⟨⟨zone, other, rfl, rfl, hcand, fun hid => ?_⟩, _, d, rfl, by simp [newRange],
          rfl, rfl, rfl, ⟨zone, rfl, rfl⟩, rfl⟩
        rw [← containsEventId_iff] at hid
        exact absurd (hc.symm.trans hid) (by decide)
  · rename_i hnone
    cases hok
    refine .inl ⟨?_, rfl⟩
    rintro ⟨zone, other, hz, ho, -⟩
    exact hnone zone other hz ho

/-- What the later passes keep: events that have seen the bar, and formal events
that are of its market and end on it. -/
def OnBar (bar : Bar) (pass : Pass δ) : Prop :=
  (∀ e ∈ pass.1, Seen bar e)
    ∧ ∀ formal ∈ pass.2.confirmedEvents, formal.marketId = bar.marketId ∧ formal.latestBar = bar

/-- The call has confirmed an event of this side so far. -/
def ConfirmsSide (pass : Pass δ) (side : Side) : Prop :=
  ∃ formal ∈ pass.2.confirmedEvents, formal.side = side

include hok in
theorem rangeStep_onBar (h : OnBar r.bar pass) : OnBar r.bar pass' := by
  rcases rangeStep_fires hok with ⟨-, rfl⟩ | ⟨-, event, d, -, hact, -, hm, hlat, -, rfl⟩
  · exact h
  · exact ⟨forall_mem_snoc h.1 (seen_of_inactive hact), forall_mem_snoc h.2 ⟨hm, hlat⟩⟩

include hok in
theorem rangeStep_frame (h : LedgerInv pass.1) {eventId : δ}
    (hslot : slot.2.1 ≠ .rangeEdgeRejection) : Frame slot eventId pass pass' := by
  have hinv := ((rangeStep_inv sha256 r previousClose ⟨h, .refl _⟩ spec).of_ok hok).1
  rcases rangeStep_fires hok with ⟨-, rfl⟩ | ⟨-, event, d, hfam, hact, -, -, -, -, rfl⟩
  · exact .refl h
  · refine ⟨hinv, fun e => ?_, ?_, rfl⟩
    · rw [holds_append]
      exact or_iff_left fun hev => hact hev.2.2
    · rw [hasId_append]
      exact or_iff_left fun hev => hslot (hev.2.symm.trans hfam)

include hok in
theorem rangeStep_confirms (side : Side) : ConfirmsSide pass' side
      ↔ ConfirmsSide pass side ∨ spec.1 = side ∧ RoundFires sha256 r previousClose pass.1 spec := by
  rcases rangeStep_fires hok with ⟨hno, rfl⟩ | ⟨hfires, event, d, -, -, hside, -, -, -, rfl⟩
  · exact (or_iff_left fun h => hno h.2).symm
  · simp only [ConfirmsSide, List.mem_append, List.mem_singleton, or_and_right, exists_or,
      exists_eq_left, hside, hfires, and_true]

include hok in
/-- A round of one side does not decide about the other. -/
theorem rangeStep_other (hsha : Function.Injective sha256)
    {spec' : Side × Option (ZoneSnapshot δ) × Option (ZoneSnapshot δ)} (hne : spec.1 ≠ spec'.1) :
    RoundFires sha256 r previousClose pass'.1 spec' ↔ RoundFires sha256 r previousClose pass.1 spec' := by
  rcases rangeStep_fires hok with ⟨-, rfl⟩ | ⟨-, event, d, -, -, -, -, -, ⟨zone, -, hid⟩, rfl⟩
  · exact Iff.rfl
  · unfold RoundFires
    refine exists_congr fun zone' => exists_congr fun other => ?_
    rw [hasId_append, or_iff_left]
    rintro ⟨heq, -⟩
    rw [hid] at heq
    exact hne (marketEventId_inj hsha heq).2.1

include hok in
/-- A round whose event is in the ledger does nothing. -/
theorem rangeStep_again (hids : ∀ eventId, HasId pass'.1 eventId .rangeEdgeRejection →
      HasId l eventId .rangeEdgeRejection) (found : Findings δ) :
    rangeStep sha256 r previousClose (l, found) spec = .ok (l, found) := by
  rcases spec with ⟨side, zone?, other?⟩
  unfold rangeStep at hok ⊢
  dsimp only at hok ⊢
  split at hok
  · rename_i zone other
    obtain ⟨fires, hcand, hok⟩ := of_bind hok
    simp only [hcand, bind, Except.bind]
    cases fires with
    | false => rfl
    | true =>
      have hin : HasId pass'.1 (r.eventId sha256 zone side) .rangeEdgeRejection := by
        rcases appendEvent_cases hok with ⟨hc, rfl⟩ | ⟨hc, d, -, rfl⟩
        · exact containsEventId_iff.mp hc
        · exact hasId_append.mpr (.inr ⟨rfl, rfl⟩)
      exact appendEvent_contained (hids _ hin)
  · rfl

section RangePass

variable {bars5m bars15m : List Bar} {a15Override : Option ℚ}

/-- What the range pass does, and that it does nothing on a ledger that has its
events. -/
structure RangeSpec (sha256 : Preimage δ → δ) (r : Readings δ) (bars5m bars15m : List Bar)
    (a15Override : Option ℚ) (pass pass' : Pass δ) : Prop where
  onBar : OnBar r.bar pass → OnBar r.bar pass'
  frame : ∀ (slot : Slot) (eventId : δ), slot.2.1 ≠ .rangeEdgeRejection →
    Frame slot eventId pass pass'
  decisions : pass'.2.decisions = [] → pass.2.decisions = []
  confirms : ∀ side, ConfirmsSide pass' side
    ↔ ConfirmsSide pass side ∨ RangeFires sha256 r bars5m bars15m a15Override pass.1 side
  again : ∀ l, (∀ eventId, HasId pass'.1 eventId .rangeEdgeRejection →
      HasId l eventId .rangeEdgeRejection) →
    ∀ found, rangePass sha256 r bars5m bars15m a15Override (l, found) = .ok (l, found)

include hok in
theorem rangeStep_hasId {eventId : δ} {family : SetupFamily} (h : HasId pass.1 eventId family) :
    HasId pass'.1 eventId family := by
  rcases rangeStep_fires hok with ⟨-, rfl⟩ | ⟨-, event, d, -, -, -, -, -, -, rfl⟩
  · exact h
  · exact hasId_append.mpr (.inl h)

include hok in
theorem rangeStep_decisions (h : pass'.2.decisions = []) : pass.2.decisions = [] := by
  rcases rangeStep_fires hok with ⟨-, rfl⟩ | ⟨-, event, d, -, -, -, -, -, -, rfl⟩
  · exact h
  · exact (List.append_eq_nil_iff.mp h).1

/-- What both rounds keep, the pass keeps. -/
theorem rangePass_keeps {I : Pass δ → Prop} {p q : Pass δ}
    (hstep : ∀ side close p q, I p → rangeStep sha256 r close p (rangeZones r.book side) = .ok q →
      I q) (hp : I p) (hok : rangePass sha256 r bars5m bars15m a15Override p = .ok q) : I q := by
  obtain ⟨valid, -, hok⟩ := of_bind hok
  split at hok
  · simp only [List.foldlM_cons, List.foldlM_nil, bind_pure] at hok
    obtain ⟨mid, hlong, hsh⟩ := of_bind hok
    exact hstep .short _ _ _ (hstep .long _ _ _ hp hlong) hsh
  · cases hok
    exact hp

/-- Without a valid range, or a bar before this one, the pass does nothing. -/
theorem rangePass_idle {valid : Bool}
    (hval : rangeValid r.book.activeSupport r.book.activeResistance bars15m a15Override = .ok valid)
    (hidle : valid = true → bars5m.dropLast.getLast? = none) (p : Pass δ) :
    rangePass sha256 r bars5m bars15m a15Override p = .ok p := by
  unfold rangePass
  rw [hval]
  cases valid with
  | false => rfl
  | true =>
    rw [hidle rfl]
    rfl

/-- Otherwise it is the two rounds. -/
theorem rangePass_rounds {previous : Bar}
    (hval : rangeValid r.book.activeSupport r.book.activeResistance bars15m a15Override
      = .ok true) (hprev : bars5m.dropLast.getLast? = some previous) (p : Pass δ) :
    rangePass sha256 r bars5m bars15m a15Override p = (do
      let mid ← rangeStep sha256 r previous.close p (rangeZones r.book .long)
      rangeStep sha256 r previous.close mid (rangeZones r.book .short)) := by
  unfold rangePass
  rw [hval, hprev]
  change [rangeZones r.book .long, rangeZones r.book .short].foldlM
    (rangeStep sha256 r previous.close) p = _
  simp only [List.foldlM_cons, List.foldlM_nil, bind_pure]

omit [LinearOrder δ] in
theorem rangeFires_iff {previous : Bar}
    (hval : rangeValid r.book.activeSupport r.book.activeResistance bars15m a15Override
      = .ok true) (hprev : bars5m.dropLast.getLast? = some previous) : RangeFires sha256 r bars5m bars15m a15Override l side
      ↔ RoundFires sha256 r previous.close l (rangeZones r.book side) := by
  refine ⟨?_, fun hf => ⟨hval, previous, hprev, hf⟩⟩
  rintro ⟨-, previous', hprev', hf⟩
  obtain rfl : previous = previous' := by simpa [hprev] using hprev'
  exact hf

omit [LinearOrder δ] in
theorem rangeFires_idle {valid : Bool}
    (hval : rangeValid r.book.activeSupport r.book.activeResistance bars15m a15Override = .ok valid)
    (hidle : valid = true → bars5m.dropLast.getLast? = none) (l : EventLedger δ) (side : Side) :
    ¬ RangeFires sha256 r bars5m bars15m a15Override l side := by
  rintro ⟨hval', previous, hprev, -⟩
  obtain rfl : valid = true := by simpa [hval] using hval'
  rw [hidle rfl] at hprev
  cases hprev

theorem rangePass_spec (hsha : Function.Injective sha256) (h : LedgerInv pass.1)
    (hok : rangePass sha256 r bars5m bars15m a15Override pass = .ok pass') :
    RangeSpec sha256 r bars5m bars15m a15Override pass pass' := by
  obtain ⟨valid, hval, -⟩ := of_bind hok
  by_cases hruns : valid = true ∧ ∃ previous, bars5m.dropLast.getLast? = some previous
  · obtain ⟨rfl, previous, hprev⟩ := hruns
    rw [rangePass_rounds hval hprev] at hok
    obtain ⟨mid, hlong, hsh⟩ := of_bind hok
    have hmid : LedgerInv mid.1 := ((rangeStep_inv sha256 r previous.close ⟨h, .refl _⟩ _).of_ok hlong).1
    refine ⟨fun hp => rangeStep_onBar hsh (rangeStep_onBar hlong hp),
      fun slot eventId hs => (rangeStep_frame hlong h hs).trans (rangeStep_frame hsh hmid hs),
      fun hd => rangeStep_decisions hlong (rangeStep_decisions hsh hd), fun side => ?_,
      fun l hids found => ?_⟩
    · rw [rangeStep_confirms hsh, rangeStep_confirms hlong, rangeFires_iff hval hprev,
        rangeStep_other hlong hsha (by simp [rangeZones])]
      cases side <;> simp [rangeZones]
    · rw [rangePass_rounds hval hprev,
        rangeStep_again hlong (fun eventId hid => hids eventId (rangeStep_hasId hsh hid))]
      exact rangeStep_again hsh hids found
  · have hidle : valid = true → bars5m.dropLast.getLast? = none := fun hv =>
      Option.eq_none_iff_forall_ne_some.mpr fun previous hprev => hruns ⟨hv, previous, hprev⟩
    rw [rangePass_idle hval hidle] at hok
    cases hok
    refine ⟨id, fun _ _ _ => .refl h, id, fun side => ?_, fun l _ found => rangePass_idle hval hidle _⟩
    exact (or_iff_left (rangeFires_idle hval hidle _ _)).symm

end RangePass

end Range

/-! ### The opposite side -/

section Oppose

variable [DecidableEq δ] {r : EventLedger δ × List (StrategyDecision δ)}

omit [DecidableEq δ] in
theorem opposeEvent_none {formal e : MarketEvent δ} :
    opposeEvent formal e = .ok none ↔ opposedBy formal e = false := by
  unfold opposeEvent
  cases hopp : opposedBy formal e with
  | false => simp
  | true =>
    refine ⟨fun h => ?_, nofun⟩
    obtain ⟨d, -, h⟩ := of_bind h
    cases h

/-- What the invalidation leaves: the ACTIVE events that no formal event
opposes. -/
structure OpposeSpec (l l' : EventLedger δ) (confirmed : List (MarketEvent δ)) : Prop where
  holds : ∀ slot e, Holds l' slot e
    ↔ Holds l slot e ∧ ∀ formal ∈ confirmed, opposedBy formal e = false
  hasId : ∀ eventId family, HasId l' eventId family ↔ HasId l eventId family
  ids : l'.ids = l.ids
  seen : ∀ bar, (∀ e ∈ l, Seen bar e) → ∀ e ∈ l', Seen bar e

theorem opposeLoop_spec {formal : MarketEvent δ}
    {ds : List (StrategyDecision δ)}
    (hok : eachReplace .replacementFailed (opposeEvent formal) (fun ds d => ds ++ [d]) l ds = .ok r) :
    OpposeSpec l r.1 [formal] := by
  rw [opposeLoop_eq] at hok
  have hall := (each_ok hok).1
  have hev : List.Forall₂ Evolves l r.1 := hall.imp fun e e' hstep => by
    rcases hstep with ⟨-, rfl⟩ | ⟨d, hsome⟩
    · exact .refl e'
    · obtain ⟨-, hact, rfl, -⟩ := opposeEvent_cases hsome
      exact .conclude hact _ _ _
  refine ⟨fun slot e => ?_, fun eventId family => hasId_evolves hev, ids_evolves hev,
    fun bar hseen e' he' => ?_⟩
  · simp only [List.mem_singleton, forall_eq]
    constructor
    · rintro ⟨hmem, hslot, hact⟩
      obtain ⟨e₀, he₀, ⟨hnone, rfl⟩ | ⟨d, hsome⟩⟩ := forall₂_mem_right hall hmem
      · exact ⟨⟨he₀, hslot, hact⟩, opposeEvent_none.mp hnone⟩
      · obtain ⟨-, -, rfl, -⟩ := opposeEvent_cases hsome
        simp at hact
    · rintro ⟨⟨hmem, hslot, hact⟩, hopp⟩
      obtain ⟨e', he', ⟨-, rfl⟩ | ⟨d, hsome⟩⟩ := forall₂_mem_left hall hmem
      · exact ⟨he', hslot, hact⟩
      · rw [opposeEvent_none.mpr hopp] at hsome
        cases hsome
  · obtain ⟨e₀, he₀, ⟨-, rfl⟩ | ⟨d, hsome⟩⟩ := forall₂_mem_right hall he'
    · exact hseen e' he₀
    · obtain ⟨-, -, rfl, -⟩ := opposeEvent_cases hsome
      exact seen_of_inactive (by simp)

variable {confirmed : List (MarketEvent δ)}

theorem opposeLoops_spec :
    ∀ {acc : EventLedger δ × List (StrategyDecision δ)},
      confirmed.foldlM (fun acc formal => eachReplace .replacementFailed (opposeEvent formal)
        (fun ds d => ds ++ [d]) acc.1 acc.2) acc = .ok r → OpposeSpec acc.1 r.1 confirmed := by
  induction confirmed with
  | nil =>
    intro acc hok
    cases hok
    exact ⟨fun _ _ => by simp, fun _ _ => Iff.rfl, rfl, fun _ h => h⟩
  | cons formal confirmed ih =>
    intro acc hok
    obtain ⟨mid, hstep, hok⟩ := of_bind hok
    have hone := opposeLoop_spec hstep
    have hrest := ih hok
    refine ⟨fun slot e => ?_, fun eventId family => ?_, hrest.ids.trans hone.ids, fun bar hseen => ?_⟩
    · rw [hrest.holds, hone.holds]
      simp only [List.mem_singleton, forall_eq, List.forall_mem_cons, and_assoc]
    · rw [hrest.hasId, hone.hasId]
    · exact hrest.seen bar (hone.seen bar hseen)

theorem invalidateOppositeActive_spec
    (hok : invalidateOppositeActive l confirmed = .ok r) : OpposeSpec l r.1 confirmed :=
  opposeLoops_spec hok

end Oppose

/-! ### The first call -/

section Calls

variable [LinearOrder δ] {sha256 : Preimage δ → δ} {r : Readings δ} {bars5m bars15m : List Bar}
variable {a15Override : Option ℚ}

theorem newEvent_hasId {spec : CreationSpec δ} (hspec : spec ∈ creationSpecs sha256 r)
    {zone : ZoneSnapshot δ} {linkage : Option (BreakoutLinkage δ)} :
    HasId l (spec.newEvent zone linkage).marketEventId (spec.newEvent zone linkage).setupFamily
      ↔ HasId l (r.eventId sha256 zone spec.side) spec.family := by
  have hslot := (creationSpecs_wf sha256 r spec hspec).slot zone linkage
  simp only [MarketEvent.slot, Prod.mk.injEq] at hslot
  rw [(creationSpecs_origin r spec hspec).eventId, hslot.2.1]
  rfl

/-- The creation rounds append no range event. -/
theorem creation_hasId_range {p q : Pass δ} (h : LedgerInv p.1)
    (hok : (creationSpecs sha256 r).foldlM (createStep r.bar) p = .ok q) (eventId : δ) :
    HasId q.1 eventId .rangeEdgeRejection ↔ HasId p.1 eventId .rangeEdgeRejection := by
  have hfrm : Frame (r.bar.marketId, .rangeEdgeRejection, .long) eventId p q := by
    refine createSteps_frame (fun spec hspec => ?_) h hok
    have hfam := creationSpecs_family hspec
    refine ⟨creationSpecs_wf sha256 r spec hspec, fun heq => hfam ?_, fun _ _ _ => hfam⟩
    simp only [CreationSpec.slot, Prod.mk.injEq] at heq
    exact heq.2.1
  exact hfrm.hasId

/-- A call from pass to pass. -/
structure Trace (sha256 : Preimage δ → δ) (r : Readings δ) (bars5m bars15m : List Bar)
    (a15Override : Option ℚ) (l : EventLedger δ) (progressed created ranged : Pass δ)
    (final : EventLedger δ × List (StrategyDecision δ)) : Prop where
  progress : eachReplace .replacementFailed (progressEvent r.bar) absorbProgress l {}
    = .ok progressed
  create : (creationSpecs sha256 r).foldlM (createStep r.bar) progressed = .ok created
  range : rangePass sha256 r bars5m bars15m a15Override created = .ok ranged
  oppose : invalidateOppositeActive ranged.1 ranged.2.confirmedEvents = .ok final

theorem runPasses_trace {pass : Pass δ} :
    runPasses sha256 r bars5m bars15m a15Override l = .ok pass
      ↔ ∃ progressed created ranged final,
        Trace sha256 r bars5m bars15m a15Override l progressed created ranged final
          ∧ pass = (final.1, { ranged.2 with decisions := ranged.2.decisions ++ final.2 }) := by
  unfold runPasses
  constructor
  · intro h
    obtain ⟨progressed, hp, h⟩ := of_bind h
    obtain ⟨created, hc, h⟩ := of_bind h
    obtain ⟨ranged, hr, h⟩ := of_bind h
    obtain ⟨final, hf, h⟩ := of_bind h
    cases h
    exact ⟨progressed, created, ranged, final, ⟨hp, hc, hr, hf⟩, rfl⟩
  · rintro ⟨progressed, created, ranged, final, ht, rfl⟩
    rw [ht.progress]
    simp only [bind, Except.bind, ht.create, ht.range, ht.oppose]
    rfl

theorem evaluateStrategy_trace {inputs : StrategyEvaluationInput δ}
    {result : KernelResult δ} (hval : inputs.mandatoryDataValid = true)
    (hok : evaluateStrategy sha256 inputs l = .ok result) :
    ∃ p r progressed created ranged final, readingsOf sha256 inputs = .ok (p, r)
      ∧ Trace sha256 r inputs.bars5m p.bars15m inputs.a15Override l progressed created ranged final
      ∧ result = resultOf p final.1 (ranged.2.decisions ++ final.2) := by
  rw [evaluateStrategy_eq sha256 hval] at hok
  obtain ⟨⟨p, r⟩, hr, hok⟩ := of_bind hok
  obtain ⟨pass, hpass, hok⟩ := of_bind hok
  obtain ⟨progressed, created, ranged, final, ht, rfl⟩ := runPasses_trace.mp hpass
  cases hok
  exact ⟨p, r, progressed, created, ranged, final, hr, ht, rfl⟩

theorem createStep_onBar {pass pass' : Pass δ} {spec : CreationSpec δ}
    (hs : SpecOrigin sha256 r.bar spec) (hok : createStep r.bar pass spec = .ok pass')
    (h : OnBar r.bar pass) : OnBar r.bar pass' := by
  rcases createStep_cases.of_ok hok with rfl | ⟨zone, base, -, -, -, -, hclr, happ⟩
  · exact h
  · have hbase : OnBar r.bar base := by
      cases hclr with
      | free => exact h
      | superseded =>
        refine ⟨fun e he => ?_, h.2⟩
        rcases List.mem_or_eq_of_mem_set he with hm | rfl
        · exact h.1 e hm
        · exact seen_of_latest rfl
    rcases appendEvent_cases happ with ⟨-, rfl⟩ | ⟨-, d, -, rfl⟩
    · exact hbase
    · exact ⟨forall_mem_snoc hbase.1 (seen_of_latest (hs.latest zone _)), by simpa using hbase.2⟩

namespace Trace

variable {l : EventLedger δ} {p q g : Pass δ} {o : EventLedger δ × List (StrategyDecision δ)}
variable (t : Trace sha256 r bars5m bars15m a15Override l p q g o)

include t

theorem inv_progressed (h : LedgerInv l) : LedgerInv p.1 :=
  ((progressLoop_inv h r.bar {}).of_ok t.progress).1

theorem inv_created (h : LedgerInv l) : LedgerInv q.1 :=
  ((creation_inv sha256 r ⟨t.inv_progressed h, .refl _⟩).of_ok t.create).1

theorem inv_ranged (h : LedgerInv l) : LedgerInv g.1 :=
  ((rangePass_inv sha256 r bars5m bars15m a15Override ⟨t.inv_created h, .refl _⟩).of_ok t.range).1

theorem inv_final (h : LedgerInv l) : LedgerInv o.1 :=
  ((invalidateOppositeActive_inv (t.inv_ranged h) _).of_ok t.oppose).1

theorem onBar_created : OnBar r.bar q := by
  have hp : OnBar r.bar p := ⟨progressLoop_seen t.progress, fun formal hf =>
    ⟨(progressLoop_confirmed t.progress hf).1, (progressLoop_confirmed t.progress hf).2.1⟩⟩
  have hfold : Sat ((creationSpecs sha256 r).foldlM (createStep r.bar) p) (OnBar r.bar)
      fun _ => True := by
    refine Sat.foldlM (fun s hs spec hspec => ?_) p hp
    exact (Sat.self fun _ _ => trivial).weaken fun s' hok =>
      createStep_onBar (creationSpecs_origin r spec hspec) hok hs
  exact hfold.of_ok t.create

/-- Range ids are not touched before the range pass. -/
theorem hasId_range (h : LedgerInv l) (eventId : δ) :
    HasId q.1 eventId .rangeEdgeRejection ↔ HasId l eventId .rangeEdgeRejection :=
  (creation_hasId_range (t.inv_progressed h) t.create eventId).trans (progressLoop_hasId t.progress)

/-- The sides the call confirms, in terms of the ledger it started from. -/
theorem confirms (hsha : Function.Injective sha256) (h : LedgerInv l) (side : Side) :
    ConfirmsSide g side ↔ Confirms l r.bar side ∨ RangeFires sha256 r bars5m bars15m a15Override l side := by
  rw [(rangePass_spec hsha (t.inv_created h) t.range).confirms]
  refine or_congr ?_ ?_
  · unfold ConfirmsSide
    rw [createSteps_confirmed t.create]
    constructor
    · rintro ⟨formal, hf, rfl⟩
      exact (progressLoop_confirmed t.progress hf).2.2
    · exact progressLoop_confirms t.progress
  · simp only [RangeFires, RoundFires, t.hasId_range h]

end Trace

end Calls

end TraderAssist
