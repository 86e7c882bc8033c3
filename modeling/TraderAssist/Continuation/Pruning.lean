/-
TraderAssist/Continuation/Pruning.lean

A continuation keeps the ACTIVE events of a ledger and drops the others.

The passes of a call read ended events in one place only, the guard against an
id that is already there.  An id names the candle of the bar that made it
(`MadeOn`), so on a new bar the guard never fires (`MadeOn.fresh`), and two
ledgers with the same ACTIVE events in the same order go through a call alike
(`runPasses_same`).
-/
import TraderAssist.Kernel.Identity

namespace TraderAssist

open Py

variable {δ : Type}

/-! ### The ACTIVE events -/

/-- What `retain_result` keeps of a ledger. -/
def EventLedger.actives (l : EventLedger δ) : EventLedger δ :=
  l.filter fun e => !e.status.terminal

variable {l : EventLedger δ} {e : MarketEvent δ} {bar : Bar} {side : Side}

@[simp]
theorem mem_actives : e ∈ l.actives ↔ e ∈ l ∧ e.status = .active := by
  simp [EventLedger.actives, EventStatus.terminal]

theorem actives_actives (l : EventLedger δ) : l.actives.actives = l.actives := by
  simp [EventLedger.actives]

theorem actives_append (l m : EventLedger δ) : (l ++ m).actives = l.actives ++ m.actives :=
  List.filter_append ..

theorem actives_cons_inactive (h : e.status ≠ .active) (l : EventLedger δ) :
    EventLedger.actives (e :: l) = l.actives :=
  List.filter_cons_of_neg (by simp [EventStatus.terminal, h])

theorem actives_cons_active (h : e.status = .active) (l : EventLedger δ) :
    EventLedger.actives (e :: l) = e :: l.actives :=
  List.filter_cons_of_pos (by simp [EventStatus.terminal, h])

theorem holds_iff_mem_actives {slot : Slot} : Holds l slot e ↔ e ∈ l.actives ∧ e.slot = slot := by
  rw [mem_actives, Holds, and_assoc, and_comm (a := e.status = .active)]

theorem LedgerInv.actives (h : LedgerInv l) : LedgerInv l.actives :=
  ⟨fun e he => h.wf e (mem_actives.mp he).1, h.unique.sublist List.filter_sublist⟩

/-- Two states of a call that differ in ended events only. -/
def SamePass (p q : Pass δ) : Prop :=
  EventLedger.actives p.1 = EventLedger.actives q.1 ∧ p.2 = q.2

theorem SamePass.holds {p q : Pass δ} (h : SamePass p q) {slot : Slot} :
    Holds p.1 slot e ↔ Holds q.1 slot e := by
  rw [holds_iff_mem_actives, holds_iff_mem_actives, h.1]

/-! ### Clearing a slot -/

/-- The ACTIVE events left are those of the other slots. -/
theorem Cleared.actives {family : SetupFamily} {zoneId : δ}
    {pass base : Pass δ} (hc : Cleared bar family side zoneId pass base) (h : LedgerInv pass.1) :
    EventLedger.actives base.1
      = (EventLedger.actives pass.1).filter fun e => e.slot ≠ (bar.marketId, family, side) := by
  have hkept : ∀ e ∈ EventLedger.actives base.1,
      decide (e.slot ≠ (bar.marketId, family, side)) = true := fun e he =>
    decide_eq_true ((hc.holds h).mp (holds_iff_mem_actives.mpr ⟨he, rfl⟩)).2
  rw [← List.filter_eq_self.mpr hkept]
  cases hc with
  | free => rfl
  | @superseded old i d hsome hzone hd =>
    obtain ⟨hi, hslot, hact⟩ := active_eq_some hsome
    obtain ⟨hilt, hie⟩ := List.getElem?_eq_some_iff.mp hi
    have hspl : pass.1 = pass.1.take i ++ old :: pass.1.drop (i + 1) := by
      rw [← hie, List.getElem_cons_drop, List.take_append_drop]
    have hset := List.set_eq_take_append_cons_drop (l := pass.1) (i := i)
      (a := old.conclude .superseded .supersededByNewIndependentEvent bar)
    rw [if_pos hilt] at hset
    -- both sides lose the old event: here because it has ended, there because of its slot
    have hleft : EventLedger.actives (pass.1.set i
          (old.conclude .superseded .supersededByNewIndependentEvent bar))
        = EventLedger.actives (pass.1.take i) ++ EventLedger.actives (pass.1.drop (i + 1)) := by
      rw [hset, actives_append, actives_cons_inactive (by simp)]
    have hrt : EventLedger.actives pass.1 = EventLedger.actives (pass.1.take i)
        ++ old :: EventLedger.actives (pass.1.drop (i + 1)) := by
      conv_lhs => rw [hspl]
      rw [actives_append, actives_cons_active hact]
    rw [hleft, hrt, List.filter_append, List.filter_append, List.filter_cons_of_neg (by simp [hslot])]

theorem Cleared.same {family : SetupFamily} {zoneId : δ}
    {p q base base' : Pass δ} (h : SamePass p q) (hp : LedgerInv p.1) (hq : LedgerInv q.1)
    (hc : Cleared bar family side zoneId p base) (hc' : Cleared bar family side zoneId q base') :
    SamePass base base' := by
  refine ⟨by rw [hc.actives hp, hc'.actives hq, h.1], ?_⟩
  cases hc with
  | free hnone =>
    cases hc' with
    | free => exact h.2
    | superseded hsome =>
      exact absurd (h.holds.mpr (holds_of_active hsome)) (active_none_iff.mp hnone _)
  | superseded hsome hzone hd =>
    cases hc' with
    | free hnone => exact absurd (h.holds.mp (holds_of_active hsome)) (active_none_iff.mp hnone _)
    | superseded hsome' hzone' hd' =>
      rw [Holds.unique hq (holds_of_active hsome') (h.holds.mp (holds_of_active hsome)), hd] at hd'
      cases hd'
      rw [h.2]

/-! ### The creation rounds -/

section Passes

variable [LinearOrder δ] {sha256 : Preimage δ → δ} {r : Readings δ} {p q : Pass δ}

theorem appendEvent_same {kind : DecisionKind} {reason : Reason} {event : MarketEvent δ}
    (h : SamePass p q) (hp : ¬ HasId p.1 event.marketEventId event.setupFamily)
    (hq : ¬ HasId q.1 event.marketEventId event.setupFamily) :
    Agree (appendEvent kind reason p event) (appendEvent kind reason q event) SamePass := by
  unfold appendEvent
  rw [if_neg (mt containsEventId_iff.mp hp), if_neg (mt containsEventId_iff.mp hq)]
  rcases decisionOf event kind reason event.transition with err | d
  · exact trivial
  · exact ⟨by simp only [actives_append, h.1], by simp only [h.2]⟩

/-- A round whose id is new to both ledgers. -/
theorem createStep_same {spec : CreationSpec δ} (hspec : spec ∈ creationSpecs sha256 r)
    (hp : LedgerInv p.1) (hq : LedgerInv q.1) (h : SamePass p q)
    (hpf : ∀ zone, ¬ HasId p.1 (r.eventId sha256 zone spec.side) spec.family)
    (hqf : ∀ zone, ¬ HasId q.1 (r.eventId sha256 zone spec.side) spec.family) :
    Agree (createStep r.bar p spec) (createStep r.bar q spec) SamePass := by
  by_cases hlook : ∃ zone, spec.Looks zone ∧ (spec.family, spec.side) ∉ p.2.creationBlocked
  · obtain ⟨zone, hlook, hopen⟩ := hlook
    have hopen' := h.2 ▸ hopen
    rcases hcand : spec.candidate zone with err | - | -
    · rw [createStep_raises hlook hopen hcand, createStep_raises hlook hopen' hcand]
      exact trivial
    · rw [createStep_idle hlook hopen hcand, createStep_idle hlook hopen' hcand]
      exact h
    · by_cases hheld : ∃ e, Holds p.1 (spec.slot r.bar) e ∧ e.zone.zoneId = zone.zoneId
      · obtain ⟨e, he, hz⟩ := hheld
        rw [createStep_held hlook hopen hp he hz hcand,
          createStep_held hlook hopen' hq (h.holds.mp he) hz hcand]
        exact h
      · obtain ⟨base, hc, heq⟩ := createStep_opens hlook hopen hp hcand fun e he hz => hheld ⟨e, he, hz⟩
        obtain ⟨base', hc', heq'⟩ := createStep_opens hlook hopen' hq hcand
          fun e he hz => hheld ⟨e, h.holds.mpr he, hz⟩
        have hlink : linkageFor r.bar p spec zone = linkageFor r.bar q spec zone := by
          rw [linkageFor, linkageFor, h.2]
        rw [heq, heq', hlink]
        refine appendEvent_same (hc.same h hp hq hc') ?_ ?_
        · rw [newEvent_hasId hspec, hc.hasId]
          exact hpf zone
        · rw [newEvent_hasId hspec, hc'.hasId]
          exact hqf zone
  · have hblk : ∀ zone, spec.Looks zone → (spec.family, spec.side) ∈ p.2.creationBlocked :=
      fun zone hz => by_contra fun hn => hlook ⟨zone, hz, hn⟩
    rw [createStep_skip hblk, createStep_skip (h.2 ▸ hblk)]
    exact h

theorem createSteps_same (hsha : Function.Injective sha256) {specs : List (CreationSpec δ)}
    (hspecs : ∀ spec ∈ specs, spec ∈ creationSpecs sha256 r)
    (hsl : specs.Pairwise fun a b => a.slot r.bar ≠ b.slot r.bar) :
    ∀ {p q : Pass δ}, LedgerInv p.1 → LedgerInv q.1 → SamePass p q →
      (∀ spec ∈ specs, ∀ zone, ¬ HasId p.1 (r.eventId sha256 zone spec.side) spec.family) →
      (∀ spec ∈ specs, ∀ zone, ¬ HasId q.1 (r.eventId sha256 zone spec.side) spec.family) →
      Agree (specs.foldlM (createStep r.bar) p) (specs.foldlM (createStep r.bar) q) SamePass := by
  induction specs with
  | nil => exact fun _ _ h _ _ => h
  | cons spec specs ih =>
    intro p q hp hq h hpf hqf
    rw [List.pairwise_cons] at hsl
    have hspec := hspecs spec (.head _)
    have hwf := creationSpecs_wf sha256 r spec hspec
    -- a round leaves the ids of the later rounds as they were
    have hrest : ∀ {pass pass' : Pass δ}, LedgerInv pass.1 → createStep r.bar pass spec = .ok pass' →
        (∀ s ∈ spec :: specs, ∀ zone, ¬ HasId pass.1 (r.eventId sha256 zone s.side) s.family) →
        ∀ s ∈ specs, ∀ zone, ¬ HasId pass'.1 (r.eventId sha256 zone s.side) s.family := by
      intro pass pass' hinv hok hfr s hs zone hid
      obtain ⟨hw, hne, hforeign⟩ := creationSpecs_foreign hsha hspec (hsl.1 s hs) zone.zoneId
      exact hfr s (.tail _ hs) zone
        ((createStep_frame hinv hw hne hforeign hok).hasId.mp hid)
    refine (createStep_same hspec hp hq h (hpf spec (.head _))
      (hqf spec (.head _))).bind fun p' q' hp' hq' h' => ?_
    exact ih (fun s hs => hspecs s (.tail _ hs)) hsl.2
      ((createStep_inv hp hwf).of_ok hp').1 ((createStep_inv hq hwf).of_ok hq').1 h'
      (hrest hp hp' hpf) (hrest hq hq' hqf)

/-! ### The range pass and the invalidation -/

variable {spec : Side × Option (ZoneSnapshot δ) × Option (ZoneSnapshot δ)}

theorem rangeStep_same {previousClose : ℚ}
    (h : SamePass p q)
    (hpf : ∀ zone, ¬ HasId p.1 (r.eventId sha256 zone spec.1) .rangeEdgeRejection)
    (hqf : ∀ zone, ¬ HasId q.1 (r.eventId sha256 zone spec.1) .rangeEdgeRejection) :
    Agree (rangeStep sha256 r previousClose p spec) (rangeStep sha256 r previousClose q spec) SamePass := by
  rcases spec with ⟨side, - | zone, - | other⟩
  · exact h
  · exact h
  · exact h
  · unfold rangeStep
    dsimp only
    rcases rangeCandidate r.bar previousClose zone side r.a5 r.m20 with err | - | -
    · exact trivial
    · exact h
    · exact appendEvent_same h (hpf zone) (hqf zone)

/-- A round of one side makes no id of the other. -/
theorem rangeStep_fresh (hsha : Function.Injective sha256) {previousClose : ℚ}
    (hok : rangeStep sha256 r previousClose p spec = .ok q) (hne : spec.1 ≠ side)
    {zone : ZoneSnapshot δ} (h : ¬ HasId p.1 (r.eventId sha256 zone side) .rangeEdgeRejection) :
    ¬ HasId q.1 (r.eventId sha256 zone side) .rangeEdgeRejection := by
  rcases rangeStep_fires hok with ⟨-, rfl⟩ | ⟨-, event, d, -, -, -, -, -, ⟨zone', -, hid⟩, rfl⟩
  · exact h
  · rw [hasId_append]
    rintro (hin | ⟨heq, -⟩)
    · exact h hin
    · rw [hid] at heq
      exact hne (marketEventId_inj hsha heq).2.1

variable {bars5m bars15m : List Bar} {a15Override : Option ℚ}

theorem rangePass_same (hsha : Function.Injective sha256) (h : SamePass p q)
    (hpf : ∀ zone side, ¬ HasId p.1 (r.eventId sha256 zone side) .rangeEdgeRejection)
    (hqf : ∀ zone side, ¬ HasId q.1 (r.eventId sha256 zone side) .rangeEdgeRejection) :
    Agree (rangePass sha256 r bars5m bars15m a15Override p)
      (rangePass sha256 r bars5m bars15m a15Override q) SamePass := by
  refine (Agree.refl _).bind fun valid valid' _ _ heq => ?_
  subst heq
  rcases valid with - | -
  · exact h
  · rcases bars5m.dropLast.getLast? with - | previous
    · exact h
    · simp only [List.foldlM_cons, List.foldlM_nil, bind_pure]
      refine (rangeStep_same h (fun zone => hpf zone _) (fun zone => hqf zone _)).bind
        fun p' q' hp' hq' h' => ?_
      exact rangeStep_same h' (fun zone => rangeStep_fresh hsha hp' (by simp) (hpf zone _))
        (fun zone => rangeStep_fresh hsha hq' (by simp) (hqf zone _))

omit [LinearOrder δ] in
/-- The loops over a ledger pass over ended events. -/
theorem progressEvent_ended {e : MarketEvent δ} (h : (!e.status.terminal) = false) :
    progressEvent bar e = .ok none :=
  seen_of_inactive (by simpa [EventStatus.terminal] using h)

omit [LinearOrder δ] in
theorem opposeEvent_ended {formal e : MarketEvent δ} (h : (!e.status.terminal) = false) :
    opposeEvent formal e = .ok none := by
  have hact : e.status ≠ .active := by simpa [EventStatus.terminal] using h
  exact opposeEvent_none.mpr (by simp [opposedBy, hact])

variable {l m : EventLedger δ} {bars : List Bar}

theorem progressLoop_same (h : l.actives = m.actives) :
    Agree (eachReplace .replacementFailed (progressEvent bar) absorbProgress l {})
      (eachReplace .replacementFailed (progressEvent bar) absorbProgress m {}) SamePass := by
  rw [progressLoop_eq, progressLoop_eq]
  exact each_agree (fun _ => progressEvent_ended) h _

theorem invalidateOppositeActive_same {confirmed : List (MarketEvent δ)} (h : l.actives = m.actives) :
    Agree (invalidateOppositeActive l confirmed) (invalidateOppositeActive m confirmed)
      fun a b => EventLedger.actives a.1 = EventLedger.actives b.1 ∧ a.2 = b.2 := by
  refine Agree.foldlM (P := Eq) (List.forall₂_same.mpr fun _ _ => rfl)
    (fun s t formal _ heq hst => ?_) (l, []) (m, []) ⟨h, rfl⟩
  subst heq
  rw [opposeLoop_eq, opposeLoop_eq, hst.2]
  exact each_agree (fun _ => opposeEvent_ended) hst.1 t.2

/-! ### A call -/

/-- No event has an id the bar could give. -/
def Fresh (sha256 : Preimage δ → δ) (r : Readings δ) (l : EventLedger δ) : Prop :=
  ∀ zone side family, ¬ HasId l (r.eventId sha256 zone side) family

/-- **A call on a fresh bar sees only ACTIVE events.** -/
theorem runPasses_same (hsha : Function.Injective sha256) (hl : LedgerInv l) (hm : LedgerInv m)
    (h : l.actives = m.actives) (hlf : Fresh sha256 r l) (hmf : Fresh sha256 r m) :
    Agree (runPasses sha256 r bars5m bars15m a15Override l)
      (runPasses sha256 r bars5m bars15m a15Override m) SamePass := by
  refine (progressLoop_same h).bind fun p p' hp hp' hpp => ?_
  have hpinv := ((progressLoop_inv hl r.bar {}).of_ok hp).1
  have hpinv' := ((progressLoop_inv hm r.bar {}).of_ok hp').1
  have hpf : Fresh sha256 r p.1 := fun zone side family =>
    mt (progressLoop_hasId hp).mp (hlf zone side family)
  have hpf' : Fresh sha256 r p'.1 := fun zone side family =>
    mt (progressLoop_hasId hp').mp (hmf zone side family)
  refine (createSteps_same hsha (fun _ hs => hs) (creationSpecs_slots r) hpinv hpinv' hpp
    (fun _ _ zone => hpf zone _ _) (fun _ _ zone => hpf' zone _ _)).bind
    fun q q' hq hq' hqq => ?_
  refine (rangePass_same hsha hqq
    (fun zone side => mt (creation_hasId_range hpinv hq _).mp (hpf zone side _))
    (fun zone side => mt (creation_hasId_range hpinv' hq' _).mp (hpf' zone side _))).bind
    fun g g' _ _ hgg => ?_
  rw [hgg.2]
  refine (invalidateOppositeActive_same hgg.1).bind fun o o' _ _ hoo => ?_
  exact ⟨hoo.1, by rw [hoo.2]⟩

/-! ### Ids name candles -/

/-- Every id was given by one of the bars. -/
def MadeOn (sha256 : Preimage δ → δ) (bars : List Bar) (l : EventLedger δ) : Prop :=
  ∀ eventId ∈ l.ids, ∃ bar ∈ bars, ∃ zoneId side,
    eventId = marketEventId sha256 bar.marketId zoneId side (bar.candleId sha256)

namespace MadeOn

omit [LinearOrder δ]

variable {l : EventLedger δ}

theorem actives (h : MadeOn sha256 bars l) :
    MadeOn sha256 bars l.actives := fun eventId hid =>
  h eventId ((List.filter_sublist.map _).subset hid)

theorem mono {bars bars' : List Bar} (h : MadeOn sha256 bars l) (hsub : bars ⊆ bars') :
    MadeOn sha256 bars' l := fun eventId hid => by
  obtain ⟨bar, hbar, rest⟩ := h eventId hid
  exact ⟨bar, hsub hbar, rest⟩

/-- On a bar later than those of the ledger every id is new. -/
theorem fresh (hsha : Function.Injective sha256) (h : MadeOn sha256 bars l)
    (hbars : ∀ b ∈ bars, b.marketId = r.bar.marketId ∧ b.interval = r.bar.interval ∧ b.openTimeMs ≠ r.bar.openTimeMs) :
    Fresh sha256 r l := by
  rintro zone side family ⟨e, he, hid, -⟩
  obtain ⟨b, hb, zoneId, side', heq⟩ := h e.marketEventId (List.mem_map_of_mem he)
  obtain ⟨hmkt, hiv, hopen⟩ := hbars b hb
  rw [hid, hmkt] at heq
  obtain ⟨-, -, hcandle⟩ := marketEventId_inj hsha heq
  exact hopen (Bar.openTimeMs_eq_of_candleId hsha hmkt hiv hcandle.symm)

end MadeOn

theorem Trace.madeOn {p q g : Pass δ} {o : EventLedger δ × List (StrategyDecision δ)}
    (t : Trace sha256 r bars5m bars15m a15Override l p q g o) (hsha : Function.Injective sha256)
    (hl : LedgerInv l) (h : MadeOn sha256 bars l) :
    MadeOn sha256 (bars ++ [r.bar]) o.1 := by
  obtain ⟨made, hids, -, -⟩ := t.made hsha hl
  intro eventId hid
  rw [hids] at hid
  rcases List.mem_append.mp hid with hold | hnew
  · exact h.mono (List.subset_append_left ..) eventId hold
  · obtain ⟨m, -, rfl⟩ := List.mem_map.mp hnew
    exact ⟨r.bar, by simp, m.zone.zoneId, m.side, rfl⟩

end Passes

end TraderAssist
