/-
TraderAssist/Kernel/Reread.lean

Evaluating the same closed candle again.

The first call leaves every event with the bar behind it, so the second call
progresses nothing.  It can still create: the blocked slots and the
confirmations of the first call are not in the ledger.  `Settled` is the exact
condition on the ledger and the readings under which it does not
(`reread_silent_iff`).
-/
import TraderAssist.Kernel.Trace

namespace TraderAssist

open Py

variable {δ : Type} [LinearOrder δ]

/-! ### The condition -/

section Condition

variable (sha256 : Preimage δ → δ) (r : Readings δ) (bars5m bars15m : List Bar)
variable (a15Override : Option ℚ) (l : EventLedger δ)

/-- The bar confirms an event of the side opposite to this one. -/
def Opposed (side : Side) : Prop :=
  Confirms l r.bar side.opposite
    ∨ RangeFires sha256 r bars5m bars15m a15Override l side.opposite

/-- The call ends with the slot of the round open for the zone, although it has
not created there. -/
def Reopens (spec : CreationSpec δ) (zone : ZoneSnapshot δ) : Prop :=
  SlotEnds l r.bar spec.family spec.side
    ∨ StaysIn l r.bar (spec.slot r.bar) zone.zoneId
      ∧ Opposed sha256 r bars5m bars15m a15Override l spec.side

/-- Wherever a slot reopens, the bar is no candidate or its event is already in
the ledger. -/
def Settled : Prop :=
  ∀ spec ∈ creationSpecs sha256 r, ∀ zone, spec.Looks zone →
    Reopens sha256 r bars5m bars15m a15Override l spec zone →
    spec.candidate zone = .ok false
      ∨ spec.candidate zone = .ok true ∧ HasId l (r.eventId sha256 zone spec.side) spec.family

/-- A creation round that finds nothing to do for this zone. -/
def QuietAt (spec : CreationSpec δ) (zone : ZoneSnapshot δ) : Prop :=
  spec.candidate zone = .ok false
    ∨ spec.candidate zone = .ok true
      ∧ ((∃ e, Holds l (spec.slot r.bar) e ∧ e.zone.zoneId = zone.zoneId)
        ∨ (∀ e, ¬ Holds l (spec.slot r.bar) e)
          ∧ HasId l (r.eventId sha256 zone spec.side) spec.family)

end Condition

variable {sha256 : Preimage δ → δ} {r : Readings δ} {bars5m bars15m : List Bar}
variable {a15Override : Option ℚ} {l : EventLedger δ}

/-! ### The second call -/

section Second

/-- A creation round without findings is silent exactly if it is quiet at the
zone it looks at. -/
theorem createStep_silent_iff (h : LedgerInv l) {spec : CreationSpec δ}
    (hspec : spec ∈ creationSpecs sha256 r) : createStep r.bar (l, {}) spec = .ok (l, {})
      ↔ ∀ zone, spec.Looks zone → QuietAt sha256 r l spec zone := by
  constructor
  · intro hok zone hlook
    have hfree : (spec.family, spec.side) ∉ ({} : Findings δ).creationBlocked := by simp
    rcases hc : spec.candidate zone with err | _ | _
    · rw [createStep_raises hlook hfree hc] at hok
      cases hok
    · exact .inl hc
    · refine .inr ⟨hc, ?_⟩
      by_cases hheld : ∃ e, Holds l (spec.slot r.bar) e ∧ e.zone.zoneId = zone.zoneId
      · exact .inl hheld
      · obtain ⟨base, hclr, heq⟩ := @createStep_opens _ _ r.bar (l, {}) _ _ hlook hfree h hc
          fun e he hz => hheld ⟨e, he, hz⟩
        rw [heq] at hok
        -- a supersession or an append would leave a decision
        cases hclr with
        | free hnone =>
          refine .inr ⟨active_none_iff.mp hnone, ?_⟩
          rcases appendEvent_cases hok with ⟨hin, -⟩ | ⟨-, d, -, hnew⟩
          · exact (newEvent_hasId hspec).mp (containsEventId_iff.mp hin)
          · simp at hnew
        | superseded =>
          rcases appendEvent_cases hok with ⟨-, hold⟩ | ⟨-, d, -, hnew⟩
          · have := congrArg (fun p : Pass δ => p.2.decisions) hold
            simp at this
          · have := congrArg (fun p : Pass δ => p.2.decisions) hnew
            simp at this
  · intro hq
    by_cases hlook : ∃ zone, spec.Looks zone
    · obtain ⟨zone, hlook⟩ := hlook
      have hfree : (spec.family, spec.side) ∉ ({} : Findings δ).creationBlocked := by simp
      rcases hq zone hlook with hc | ⟨hc, ⟨e, he, hz⟩ | ⟨hnone, hid⟩⟩
      · exact createStep_idle hlook hfree hc
      · exact createStep_held hlook hfree h he hz hc
      · obtain ⟨base, hclr, heq⟩ := @createStep_opens _ _ r.bar (l, {}) _ _ hlook hfree h hc
          fun e he => absurd he (hnone e)
        rw [heq]
        cases hclr with
        | free => exact appendEvent_contained ((newEvent_hasId hspec).mpr hid)
        | superseded hsome => exact absurd (holds_of_active hsome) (hnone _)
    · exact createStep_skip fun zone hz => absurd ⟨zone, hz⟩ hlook

/-- A creation round that changes anything takes a decision. -/
theorem createStep_decides {bar : Bar} {pass pass' : Pass δ} {spec : CreationSpec δ}
    (hok : createStep bar pass spec = .ok pass') : pass' = pass ∨ pass'.2.decisions ≠ [] := by
  rcases createStep_cases.of_ok hok with rfl | ⟨zone, base, -, -, -, -, hclr, happ⟩
  · exact .inl rfl
  · rcases appendEvent_cases happ with ⟨-, rfl⟩ | ⟨-, d, -, rfl⟩
    · cases hclr with
      | free => exact .inl rfl
      | superseded => exact .inr (by simp)
    · exact .inr (by simp)

/-- Rounds that leave no decision have all been silent. -/
theorem createSteps_silent {bar : Bar} {specs : List (CreationSpec δ)} :
    ∀ {pass pass' : Pass δ}, specs.foldlM (createStep bar) pass = .ok pass' → pass'.2.decisions = [] →
      pass' = pass ∧ ∀ spec ∈ specs, createStep bar pass spec = .ok pass := by
  induction specs with
  | nil =>
    intro pass pass' hok _
    cases hok
    exact ⟨rfl, by simp⟩
  | cons spec specs ih =>
    intro pass pass' hok hd
    obtain ⟨mid, hmid, hok⟩ := of_bind hok
    obtain ⟨rfl, hall⟩ := ih hok hd
    rcases createStep_decides hmid with rfl | hne
    · exact ⟨rfl, List.forall_mem_cons.mpr ⟨hmid, hall⟩⟩
    · exact absurd hd hne

theorem createSteps_of_silent {bar : Bar} {specs : List (CreationSpec δ)} {pass : Pass δ}
    (h : ∀ spec ∈ specs, createStep bar pass spec = .ok pass) :
    specs.foldlM (createStep bar) pass = .ok pass := by
  induction specs with
  | nil => rfl
  | cons spec specs ih =>
    rw [List.foldlM_cons, h spec (.head _)]
    exact ih fun s hs => h s (.tail _ hs)

/-- **The second call** on a ledger whose events have seen the bar, and that has
the range events of the bar: it is silent exactly if every creation round is. -/
theorem runPasses_silent_iff (hsha : Function.Injective sha256) (h : LedgerInv l)
    (hseen : ∀ e ∈ l, Seen r.bar e)
    (hrange : rangePass sha256 r bars5m bars15m a15Override (l, {}) = .ok (l, {})) :
    (∃ final, runPasses sha256 r bars5m bars15m a15Override l = .ok final
        ∧ final.1 = l ∧ final.2.decisions = [])
      ↔ ∀ spec ∈ creationSpecs sha256 r, createStep r.bar (l, {}) spec = .ok (l, {}) := by
  have hprog : eachReplace .replacementFailed (progressEvent r.bar) absorbProgress l {}
      = .ok (l, ({} : Findings δ)) := by
    rw [progressLoop_eq]
    exact each_none hseen _
  constructor
  · rintro ⟨final, hok, -, hd⟩
    obtain ⟨p, q, g, o, t, rfl⟩ := runPasses_trace.mp hok
    obtain rfl : (l, {}) = p := by simpa using hprog.symm.trans t.progress
    have hg : g.2.decisions = [] := (List.append_eq_nil_iff.mp hd).1
    have hq := (rangePass_spec hsha (t.inv_created h) t.range).decisions hg
    exact (createSteps_silent t.create hq).2
  · intro hall
    refine ⟨_, runPasses_trace.mpr ⟨(l, {}), (l, {}), (l, {}), (l, []),
      ⟨hprog, createSteps_of_silent hall, hrange, rfl⟩, rfl⟩, rfl, rfl⟩

end Second

/-! ### The slots after the first call -/

namespace Trace

variable {p q g : Pass δ} {o : EventLedger δ × List (StrategyDecision δ)}
variable (t : Trace sha256 r bars5m bars15m a15Override l p q g o)

include t

/-- An ACTIVE event of the bar's market falls to the opposite side exactly if it
is older than the bar and the bar confirms that side. -/
theorem opposed_iff (hsha : Function.Injective sha256) (h : LedgerInv l) {family : SetupFamily}
    {side : Side} {e : MarketEvent δ} (he : Holds g.1 (r.bar.marketId, family, side) e) :
    (∀ formal ∈ g.2.confirmedEvents, opposedBy formal e = false)
      ↔ ¬ (e.createdBar.openTimeMs < r.bar.openTimeMs
        ∧ Opposed sha256 r bars5m bars15m a15Override l side) := by
  have hon := (rangePass_spec hsha (t.inv_created h) t.range).onBar t.onBar_created
  obtain ⟨-, hslot, hact⟩ := he
  simp only [MarketEvent.slot, Prod.mk.injEq] at hslot
  have hone : ∀ formal ∈ g.2.confirmedEvents, (opposedBy formal e = true
      ↔ formal.side = side.opposite ∧ e.createdBar.openTimeMs < r.bar.openTimeMs) := by
    intro formal hf
    obtain ⟨hm, hlat⟩ := hon.2 formal hf
    simp only [opposedBy, hslot, hm, hlat, hact, decide_eq_true_eq, true_and, and_congr_left_iff]
    intro _
    constructor
    · rintro rfl
      simp
    · intro hs
      simp [hs]
  rw [Opposed, ← t.confirms hsha h, ← not_iff_not, not_not]
  simp only [not_forall, Bool.not_eq_false]
  constructor
  · rintro ⟨formal, hf, hopp⟩
    obtain ⟨hside, hold⟩ := (hone formal hf).mp hopp
    exact ⟨hold, formal, hf, hside⟩
  · rintro ⟨hold, formal, hf, hside⟩
    exact ⟨formal, hf, (hone formal hf).mpr ⟨hside, hold⟩⟩

section Slot

variable (hsha : Function.Injective sha256) (h : LedgerInv l)
variable {spec : CreationSpec δ} (hspec : spec ∈ creationSpecs sha256 r)

include hsha h hspec

variable {zone : ZoneSnapshot δ}

/-- From a creation round to the end of the call only the opposite side acts on
its slot. -/
theorem after_round {b : Pass δ} (hb : Frame (spec.slot r.bar) (r.eventId sha256 zone spec.side) b q) :
    (∀ e, Holds o.1 (spec.slot r.bar) e ↔ Holds b.1 (spec.slot r.bar) e
        ∧ ¬ (e.createdBar.openTimeMs < r.bar.openTimeMs
          ∧ Opposed sha256 r bars5m bars15m a15Override l spec.side))
      ∧ (HasId o.1 (r.eventId sha256 zone spec.side) spec.family
        ↔ HasId b.1 (r.eventId sha256 zone spec.side) spec.family) := by
  have hfam := creationSpecs_family hspec
  have hg := hb.trans ((rangePass_spec hsha (t.inv_created h) t.range).frame _
    (r.eventId sha256 zone spec.side) hfam)
  have ho := invalidateOppositeActive_spec t.oppose
  refine ⟨fun e => ?_, (ho.hasId _ _).trans hg.hasId⟩
  rw [ho.holds, ← hg.holds]
  exact and_congr_right fun he => t.opposed_iff hsha h he

/-- The round found the slot held in its zone. -/
theorem quietAt_held {a : Pass δ} {e : MarketEvent δ}
    (hp : Frame (spec.slot r.bar) (r.eventId sha256 zone spec.side) p a)
    (hq : Frame (spec.slot r.bar) (r.eventId sha256 zone spec.side) a q)
    (he : Holds a.1 (spec.slot r.bar) e) (hz : e.zone.zoneId = zone.zoneId)
    (hc : spec.candidate zone = .ok true) : QuietAt sha256 r o.1 spec zone
      ↔ (StaysIn l r.bar (spec.slot r.bar) zone.zoneId
          ∧ Opposed sha256 r bars5m bars15m a15Override l spec.side →
        HasId l (r.eventId sha256 zone spec.side) spec.family) := by
  obtain ⟨hhold, hids⟩ := t.after_round hsha h hspec hq
  have huniq : ∀ e', Holds a.1 (spec.slot r.bar) e' → e' = e := fun e' he' => Holds.unique hp.inv he' he
  have hstays : StaysIn l r.bar (spec.slot r.bar) zone.zoneId
      ↔ e.createdBar.openTimeMs < r.bar.openTimeMs := by
    rw [← progressLoop_stays t.progress]
    constructor
    · rintro ⟨e', he', -, hold⟩
      rwa [huniq e' ((hp.holds e').mpr he')] at hold
    · exact fun hold => ⟨e, (hp.holds e).mp he, hz, hold⟩
  have hid : HasId o.1 (r.eventId sha256 zone spec.side) spec.family
      ↔ HasId l (r.eventId sha256 zone spec.side) spec.family :=
    hids.trans (hp.hasId.trans (progressLoop_hasId t.progress))
  rw [hstays]
  by_cases hopp : e.createdBar.openTimeMs < r.bar.openTimeMs
      ∧ Opposed sha256 r bars5m bars15m a15Override l spec.side
  · have hnone : ∀ e', ¬ Holds o.1 (spec.slot r.bar) e' := by
      intro e' he'
      obtain ⟨ha', hkept⟩ := (hhold e').mp he'
      rw [huniq e' ha'] at hkept
      exact hkept hopp
    simp [QuietAt, hc, hnone, hid, hopp]
  · have hkept : Holds o.1 (spec.slot r.bar) e := (hhold e).mpr ⟨he, hopp⟩
    exact ⟨fun _ hre => absurd hre hopp, fun _ => .inr ⟨hc, .inl ⟨e, hkept, hz⟩⟩⟩

/-- The round opened the slot for its zone, or found its event in the ledger. -/
theorem quietAt_opened {base b : Pass δ} {linkage : Option (BreakoutLinkage δ)} {pass : Pass δ}
    (hinv : LedgerInv pass.1) (hclr : Cleared r.bar spec.family spec.side zone.zoneId pass base)
    (happ : appendEvent .wait spec.reason base (spec.newEvent zone linkage) = .ok b)
    (hq : Frame (spec.slot r.bar) (r.eventId sha256 zone spec.side) b q)
    (hc : spec.candidate zone = .ok true) : QuietAt sha256 r o.1 spec zone := by
  obtain ⟨hhold, hids⟩ := t.after_round hsha h hspec hq
  have hwf := creationSpecs_wf sha256 r spec hspec
  have horig := creationSpecs_origin r spec hspec
  rcases appendEvent_cases happ with ⟨hin, rfl⟩ | ⟨-, d, -, rfl⟩
  · refine .inr ⟨hc, .inr ⟨fun e he => ?_, ?_⟩⟩
    · exact ((hclr.holds hinv).mp ((hhold e).mp he).1).2 rfl
    · exact hids.mpr ((newEvent_hasId hspec).mp (containsEventId_iff.mp hin))
  · refine .inr ⟨hc, .inl ⟨spec.newEvent zone linkage, (hhold _).mpr ⟨?_, ?_⟩, ?_⟩⟩
    · exact holds_append.mpr (.inr ⟨rfl, hwf.slot zone linkage, hwf.active zone linkage⟩)
    · rw [horig.created]
      exact fun hold => lt_irrefl _ hold.1
    · rw [horig.zone]

/-- **When the slot of a creation round is quiet after the call.** -/
theorem quietAt_iff (hlook : spec.Looks zone) : QuietAt sha256 r o.1 spec zone
      ↔ (Reopens sha256 r bars5m bars15m a15Override l spec zone → spec.candidate zone = .ok false
          ∨ spec.candidate zone = .ok true ∧ HasId l (r.eventId sha256 zone spec.side) spec.family) := by
  obtain ⟨a, b, hrnd, ha, hb⟩ := creation_round hsha (t.inv_progressed h) t.create hspec zone.zoneId
  obtain ⟨hhold, hids⟩ := t.after_round hsha h hspec hb
  have hida : HasId a.1 (r.eventId sha256 zone spec.side) spec.family
      ↔ HasId l (r.eventId sha256 zone spec.side) spec.family :=
    ha.hasId.trans (progressLoop_hasId t.progress)
  have hblk : (spec.family, spec.side) ∈ a.2.creationBlocked
      ↔ SlotEnds l r.bar spec.family spec.side := by
    rw [ha.blocked]
    exact progressLoop_blocked t.progress
  by_cases hends : SlotEnds l r.bar spec.family spec.side
  · -- the round was skipped, and the slot is free
    have hskip : createStep r.bar a spec = .ok a := createStep_skip fun _ _ => hblk.mpr hends
    obtain rfl : a = b := by simpa [hskip] using hrnd
    have hfree : ∀ e, ¬ Holds o.1 (spec.slot r.bar) e := fun e he =>
      progressLoop_ended t.progress h hends e ((ha.holds e).mp ((hhold e).mp he).1)
    simp only [QuietAt, Reopens, hends, true_or, forall_const, hids, hida]
    simp [hfree]
  · have hopen : (spec.family, spec.side) ∉ a.2.creationBlocked := fun hmem => hends (hblk.mp hmem)
    rcases hc : spec.candidate zone with err | _ | _
    · rw [createStep_raises hlook hopen hc] at hrnd
      cases hrnd
    · simp [QuietAt, hc]
    · by_cases hheld : ∃ e, Holds a.1 (spec.slot r.bar) e ∧ e.zone.zoneId = zone.zoneId
      · obtain ⟨e, he, hz⟩ := hheld
        obtain rfl : a = b := by
          simpa [createStep_held hlook hopen ha.inv he hz hc] using hrnd
        rw [t.quietAt_held hsha h hspec ha hb he hz hc]
        simp [Reopens, hends]
      · obtain ⟨base, hclr, heq⟩ := createStep_opens hlook hopen ha.inv hc
          fun e he hz => hheld ⟨e, he, hz⟩
        rw [heq] at hrnd
        refine iff_of_true (t.quietAt_opened hsha h hspec ha.inv hclr hrnd hb hc) ?_
        rintro (hends' | ⟨hstays, -⟩)
        · exact absurd hends' hends
        · obtain ⟨e, he, hz, -⟩ := (progressLoop_stays t.progress).mpr hstays
          exact absurd ⟨e, (ha.holds e).mpr he, hz⟩ hheld

end Slot

end Trace

/-! ### The theorem -/

/-- **Reading the same candle again.** On a reachable ledger with valid data, the
second call returns the ledger of the first and no decision exactly if the
ledger is settled for the readings of the call. -/
theorem reread_silent_iff (hsha : Function.Injective sha256) (hl : Reachable sha256 l)
    {inputs : StrategyEvaluationInput δ} (hvalid : inputs.mandatoryDataValid = true)
    {first : KernelResult δ} (hfirst : evaluateStrategy sha256 inputs l = .ok first) :
    (∃ second, evaluateStrategy sha256 inputs first.ledger = .ok second
        ∧ second.ledger = first.ledger ∧ second.decisions = []) ↔ ∀ q, readingsOf sha256 inputs = .ok q →
        Settled sha256 q.2 inputs.bars5m q.1.bars15m inputs.a15Override l := by
  rw [evaluateStrategy_eq sha256 hvalid] at hfirst
  obtain ⟨⟨prepared, r⟩, hreadings, hfirst⟩ := of_bind hfirst
  obtain ⟨pass, hpass, hfirst⟩ := of_bind hfirst
  cases hfirst
  obtain ⟨p, q, g, o, t, rfl⟩ := runPasses_trace.mp hpass
  have h := hl.inv
  have hspec := rangePass_spec hsha (t.inv_created h) t.range
  have hoppose := invalidateOppositeActive_spec t.oppose
  have hsilent := runPasses_silent_iff hsha (t.inv_final h)
    (hoppose.seen r.bar (hspec.onBar t.onBar_created).1)
    (hspec.again o.1 (fun eventId hid => (hoppose.hasId _ _).mpr hid) {})
  have hsecond : (∃ second, evaluateStrategy sha256 inputs o.1 = .ok second
        ∧ second.ledger = o.1 ∧ second.decisions = [])
      ↔ ∃ final, runPasses sha256 r inputs.bars5m prepared.bars15m inputs.a15Override o.1
          = .ok final ∧ final.1 = o.1 ∧ final.2.decisions = [] := by
    constructor
    · rintro ⟨second, hok, hledger, hd⟩
      obtain ⟨final, hfinal, rfl⟩ := (evaluateStrategy_ok_iff sha256 hvalid hreadings).mp hok
      exact ⟨final, hfinal, hledger, hd⟩
    · rintro ⟨final, hfinal, hledger, hd⟩
      exact ⟨_, (evaluateStrategy_ok_iff sha256 hvalid hreadings).mpr ⟨final, hfinal, rfl⟩, hledger, hd⟩
  change (∃ second, evaluateStrategy sha256 inputs o.1 = .ok second
    ∧ second.ledger = o.1 ∧ second.decisions = []) ↔ _
  rw [hsecond, hsilent]
  simp only [hreadings, Except.ok.injEq, forall_eq', Settled]
  refine forall_congr' fun spec => forall_congr' fun hmem => ?_
  rw [createStep_silent_iff (t.inv_final h) hmem]
  exact forall_congr' fun zone => forall_congr' fun hlook => t.quietAt_iff hsha h hmem hlook

/-! ### A sweep confirmed while the zone book moves -/

/-- A support zone one point wide, `low` in cents. -/
def supportZone (key low : ℕ) : ZoneSnapshot (List ℕ) :=
  { sampleZone .low with
    zoneId := [key]
    center := low / 100 + 1 / 2
    low := low / 100
    high := low / 100 + 1
    low_le_center := by linarith
    center_le_high := by linarith }

def sweepBars : List Bar :=
  [centBar .m5 0 10020 10040 9950 10030 200 (by decide),
    centBar .m5 300000 10030 10120 10020 10100 200 (by decide)]

/-- The call on the first `n` bars with this support. -/
def sweepCall (zone : ZoneSnapshot (List ℕ)) (n : ℕ) : StrategyEvaluationInput (List ℕ) :=
  sampleInput ⟨[zone], [], some zone, none⟩ (sweepBars.take n)

/-- The first bar sweeps the support at 100.  The second confirms that sweep and
is itself a sweep of the support at 100.50, which the call does not create
because the slot is blocked; reading the bar again creates it. -/
theorem reread_opens_blocked_slot : (evaluateStrategy Digest.nested (sweepCall (supportZone 2 10050) 2)
        (runCalls Digest.nested [] [sweepCall (supportZone 1 10000) 1])).toOption.map
          (fun first => (first.ledger.map MarketEvent.status, first.decisions.map StrategyDecision.reason))
        = some ([.confirmed], [.sweepReclaimConfirmed])
      ∧ (evaluateStrategy Digest.nested (sweepCall (supportZone 2 10050) 2)
        (runCalls Digest.nested [] [sweepCall (supportZone 1 10000) 1,
          sweepCall (supportZone 2 10050) 2])).toOption.map
          (fun second => (second.ledger.map MarketEvent.status, second.decisions.map StrategyDecision.reason))
        = some ([.confirmed, .active], [.sweepCandidateCreated]) := by
  decide +kernel

/-- The sweep of the first bar, read again. -/
theorem reread_silent_sweep :
    ∃ first second, evaluateStrategy Digest.nested (sweepCall (supportZone 1 10000) 1) [] = .ok first
      ∧ evaluateStrategy Digest.nested (sweepCall (supportZone 1 10000) 1) first.ledger = .ok second
      ∧ second.ledger = first.ledger ∧ second.decisions = [] := by
  have hreturns : (evaluateStrategy Digest.nested (sweepCall (supportZone 1 10000) 1) []).isOk
      = true := by decide +kernel
  rcases hfirst : evaluateStrategy Digest.nested (sweepCall (supportZone 1 10000) 1) [] with err | first
  · rw [hfirst] at hreturns
    cases hreturns
  · obtain ⟨second, hsecond⟩ :=
      (reread_silent_iff Digest.nested_injective .empty rfl hfirst).mpr fun q _ spec _ zone _ hre => by
        rcases hre with ⟨e, he, -⟩ | ⟨⟨e, he, -⟩, -⟩
        · cases he
        · cases he.1
    exact ⟨first, second, rfl, hsecond⟩

end TraderAssist
