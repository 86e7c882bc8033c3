/-
TraderAssist/Kernel/Identity.lean

The ids of the events in a ledger.

An id hashes market, zone, side and candle but not the family, and the guard of
a creation tests id and family together.  So a call appends one id for every
event it creates (`Trace.made`), whatever the other families have.  `Apart`
says that no two families create on one side of one zone and that no event
of another family has the id already; it is exactly what keeps the ids of a
ledger distinct (`ids_distinct_over_runs`).
-/
import TraderAssist.Kernel.Trace

namespace TraderAssist

open Py

variable {δ : Type}

/-- What a call creates: a family, a side and a zone. -/
structure Made (δ : Type) where
  family : SetupFamily
  side : Side
  zone : ZoneSnapshot δ

variable [LinearOrder δ]

section Condition

variable (sha256 : Preimage δ → δ) (r : Readings δ) (bars5m bars15m : List Bar)
variable (a15Override : Option ℚ)

def Made.eventId (m : Made δ) : δ := r.eventId sha256 m.zone m.side

/-- A creation round appends an event for the zone: the bar is a candidate, the
bar ends no event of the slot, none stays ACTIVE there in this zone, and the
id is new to the family. -/
def RoundCreates (l : EventLedger δ) (spec : CreationSpec δ) (zone : ZoneSnapshot δ) : Prop :=
  spec.Looks zone ∧ ¬ SlotEnds l r.bar spec.family spec.side ∧ spec.candidate zone = .ok true
    ∧ (¬ ∃ e, Holds l (spec.slot r.bar) e ∧ StaysActive r.bar e ∧ e.zone.zoneId = zone.zoneId)
    ∧ ¬ HasId l (r.eventId sha256 zone spec.side) spec.family

/-- What a call on the ledger creates. -/
inductive Creates (l : EventLedger δ) : Made δ → Prop
  | round {spec : CreationSpec δ} {zone : ZoneSnapshot δ} (hspec : spec ∈ creationSpecs sha256 r)
      (h : RoundCreates sha256 r l spec zone) : Creates l ⟨spec.family, spec.side, zone⟩
  | range {side : Side} {zone : ZoneSnapshot δ}
      (h : RangeFires sha256 r bars5m bars15m a15Override l side)
      (hzone : side.pick r.book.activeSupport r.book.activeResistance = some zone) :
      Creates l ⟨.rangeEdgeRejection, side, zone⟩

/-- Two families never create on one side of one zone, and no event of the ledger
has the id of a created one. -/
def Apart (l : EventLedger δ) : Prop :=
  (∀ m m', Creates sha256 r bars5m bars15m a15Override l m →
      Creates sha256 r bars5m bars15m a15Override l m' →
      m.side = m'.side → m.zone.zoneId = m'.zone.zoneId → m.family = m'.family)
    ∧ ∀ m, Creates sha256 r bars5m bars15m a15Override l m → m.eventId sha256 r ∉ l.ids

end Condition

variable {sha256 : Preimage δ → δ} {r : Readings δ} {bars5m bars15m : List Bar}
variable {a15Override : Option ℚ} {pass pass' : Pass δ} {spec : CreationSpec δ}

/-! ### The creation rounds -/

/-- `RoundCreates` in terms of the pass the round is given. -/
structure CreatesAt (sha256 : Preimage δ → δ) (r : Readings δ) (pass : Pass δ)
    (spec : CreationSpec δ) (zone : ZoneSnapshot δ) : Prop where
  looks : spec.Looks zone
  open_ : (spec.family, spec.side) ∉ pass.2.creationBlocked
  candidate : spec.candidate zone = .ok true
  unheld : ¬ ∃ e, Holds pass.1 (spec.slot r.bar) e ∧ e.zone.zoneId = zone.zoneId
  fresh : ¬ HasId pass.1 (r.eventId sha256 zone spec.side) spec.family

omit [LinearOrder δ] in
theorem createsAt_frame {zone : ZoneSnapshot δ}
    (h : Frame (spec.slot r.bar) (r.eventId sha256 zone spec.side) pass pass') :
    CreatesAt sha256 r pass' spec zone ↔ CreatesAt sha256 r pass spec zone := by
  have hid := h.hasId
  constructor
  · rintro ⟨h1, h2, h3, h4, h5⟩
    exact ⟨h1, h.blocked ▸ h2, h3, by simpa only [h.holds] using h4, mt hid.mpr h5⟩
  · rintro ⟨h1, h2, h3, h4, h5⟩
    exact ⟨h1, h.blocked ▸ h2, h3, by simpa only [h.holds] using h4, mt hid.mp h5⟩

/-- A creation round appends one id or none. -/
theorem createStep_made (h : LedgerInv pass.1)
    (hspec : spec ∈ creationSpecs sha256 r) (hok : createStep r.bar pass spec = .ok pass') :
    (∃ zone, CreatesAt sha256 r pass spec zone
        ∧ EventLedger.ids pass'.1 = EventLedger.ids pass.1 ++ [r.eventId sha256 zone spec.side])
      ∨ (∀ zone, ¬ CreatesAt sha256 r pass spec zone) ∧ EventLedger.ids pass'.1 = EventLedger.ids pass.1 := by
  by_cases hmake : ∃ zone, CreatesAt sha256 r pass spec zone
  · obtain ⟨zone, hzone⟩ := hmake
    obtain ⟨base, hclr, heq⟩ := createStep_opens hzone.looks hzone.open_ h hzone.candidate
      fun e he hz => hzone.unheld ⟨e, he, hz⟩
    rw [heq] at hok
    refine .inl ⟨zone, hzone, ?_⟩
    rcases appendEvent_cases hok with ⟨hin, -⟩ | ⟨-, d, -, rfl⟩
    · exact absurd (hclr.hasId.mp ((newEvent_hasId hspec).mp (containsEventId_iff.mp hin))) hzone.fresh
    · rw [← hclr.ids]
      simp only [EventLedger.ids, List.map_append, List.map_cons, List.map_nil,
        (creationSpecs_origin r spec hspec).eventId]
      rfl
  · refine .inr ⟨fun zone hzone => hmake ⟨zone, hzone⟩, ?_⟩
    rcases createStep_cases.of_ok hok with rfl | ⟨zone, base, hz, helig, hopen, hcand, hclr, happ⟩
    · rfl
    · rcases appendEvent_cases happ with ⟨-, rfl⟩ | ⟨hnew, d, -, rfl⟩
      · exact hclr.ids
      · refine absurd ⟨zone, ⟨hz, helig⟩, hopen, hcand, hclr.unheld h, fun hid => ?_⟩ hmake
        exact absurd (hnew.symm.trans (containsEventId_iff.mpr
          ((newEvent_hasId hspec).mpr (hclr.hasId.mpr hid)))) (by decide)

/-- The events some rounds append, in order: each round at most one, decided by
the pass the rounds start from. -/
theorem createSteps_made (hsha : Function.Injective sha256) {specs : List (CreationSpec δ)}
    (hspecs : ∀ spec ∈ specs, spec ∈ creationSpecs sha256 r)
    (hsl : specs.Pairwise fun a b => a.slot r.bar ≠ b.slot r.bar) :
    ∀ {pass pass' : Pass δ}, LedgerInv pass.1 → specs.foldlM (createStep r.bar) pass = .ok pass' →
      ∃ made : List (Made δ),
        EventLedger.ids pass'.1 = EventLedger.ids pass.1 ++ made.map (Made.eventId sha256 r)
        ∧ (∀ m, m ∈ made ↔ ∃ spec ∈ specs, m.family = spec.family ∧ m.side = spec.side
          ∧ CreatesAt sha256 r pass spec m.zone)
        ∧ made.Pairwise fun a b => ¬ (a.family = b.family ∧ a.side = b.side) := by
  induction specs with
  | nil =>
    intro pass pass' _ hok
    cases hok
    exact ⟨[], by simp, by simp, .nil⟩
  | cons spec specs ih =>
    intro pass pass' h hok
    obtain ⟨mid, hmid, hok⟩ := of_bind hok
    rw [List.pairwise_cons] at hsl
    have hspec := hspecs spec (.head _)
    have hinv := ((createStep_inv h (creationSpecs_wf sha256 r spec hspec)).of_ok hmid).1
    obtain ⟨made, hids, hmem, hpair⟩ :=
      ih (fun s hs => hspecs s (.tail _ hs)) hsl.2 hinv hok
    -- the later rounds see the same of their slots before and after this one
    have hrest : ∀ s ∈ specs, ∀ zone,
        CreatesAt sha256 r mid s zone ↔ CreatesAt sha256 r pass s zone := fun s hs zone => by
      obtain ⟨hw, hne, hid⟩ := creationSpecs_foreign hsha hspec (hsl.1 s hs) zone.zoneId
      exact createsAt_frame (createStep_frame h hw hne hid hmid)
    have hmem' : ∀ m, m ∈ made ↔ ∃ s ∈ specs, m.family = s.family ∧ m.side = s.side
        ∧ CreatesAt sha256 r pass s m.zone := fun m => by
      rw [hmem]
      exact exists_congr fun s => and_congr_right fun hs => by rw [hrest s hs]
    rcases createStep_made h hspec hmid with ⟨zone, hzone, hone⟩ | ⟨hnone, hone⟩
    · refine ⟨⟨spec.family, spec.side, zone⟩ :: made, ?_, fun m => ?_, ?_⟩
      · rw [hids, hone]
        simp [Made.eventId]
      · rw [List.mem_cons, hmem']
        simp only [List.mem_cons, exists_eq_or_imp]
        refine or_congr_left ⟨?_, ?_⟩
        · rintro rfl
          exact ⟨rfl, rfl, hzone⟩
        · rcases m with ⟨family, side, zone'⟩
          rintro ⟨rfl, rfl, hm⟩
          obtain rfl : zone' = zone := Option.some.inj (hm.looks.1.symm.trans hzone.looks.1)
          rfl
      · refine List.pairwise_cons.mpr ⟨fun m hm heq => ?_, hpair⟩
        obtain ⟨s, hs, hf, hside, -⟩ := (hmem' m).mp hm
        have hfam : spec.family = s.family := heq.1.trans hf
        have hside : spec.side = s.side := heq.2.trans hside
        exact hsl.1 s hs (by simp only [CreationSpec.slot, hfam, hside])
    · refine ⟨made, by rw [hids, hone], fun m => ?_, hpair⟩
      rw [hmem']
      simp only [List.mem_cons, exists_eq_or_imp]
      exact (or_iff_right fun hm => hnone m.zone hm.2.2).symm

/-! ### The range rounds -/

/-- The event a range round appends, if any. -/
theorem rangeStep_made {previousClose : ℚ}
    {spec : Side × Option (ZoneSnapshot δ) × Option (ZoneSnapshot δ)}
    (hok : rangeStep sha256 r previousClose pass spec = .ok pass') : ∃ made : List (Made δ),
      EventLedger.ids pass'.1 = EventLedger.ids pass.1 ++ made.map (Made.eventId sha256 r)
      ∧ (∀ m, m ∈ made ↔ m.family = .rangeEdgeRejection ∧ m.side = spec.1
        ∧ spec.2.1 = some m.zone ∧ RoundFires sha256 r previousClose pass.1 spec) ∧ made.length ≤ 1 := by
  rcases rangeStep_fires hok with ⟨hno, rfl⟩ | ⟨hfires, event, d, -, -, -, -, -, ⟨zone, hz, hid⟩, rfl⟩
  · exact ⟨[], by simp, fun m => by simp [hno], by simp⟩
  · refine ⟨[⟨.rangeEdgeRejection, spec.1, zone⟩], by simp [EventLedger.ids, Made.eventId, hid],
      fun m => ?_, by simp⟩
    rw [List.mem_singleton]
    constructor
    · rintro rfl
      exact ⟨rfl, rfl, hz, hfires⟩
    · rcases m with ⟨family, side, zone'⟩
      rintro ⟨rfl, rfl, hz', -⟩
      obtain rfl : zone = zone' := Option.some.inj (hz.symm.trans hz')
      rfl

theorem rangePass_made (hsha : Function.Injective sha256)
    (hok : rangePass sha256 r bars5m bars15m a15Override pass = .ok pass') : ∃ made : List (Made δ),
      EventLedger.ids pass'.1 = EventLedger.ids pass.1 ++ made.map (Made.eventId sha256 r)
      ∧ (∀ m, m ∈ made ↔ m.family = .rangeEdgeRejection
        ∧ RangeFires sha256 r bars5m bars15m a15Override pass.1 m.side
        ∧ m.side.pick r.book.activeSupport r.book.activeResistance = some m.zone)
      ∧ made.Pairwise fun a b => ¬ (a.family = b.family ∧ a.side = b.side) := by
  obtain ⟨valid, hval, -⟩ := of_bind hok
  by_cases hruns : valid = true ∧ ∃ previous, bars5m.dropLast.getLast? = some previous
  · obtain ⟨rfl, previous, hprev⟩ := hruns
    rw [rangePass_rounds hval hprev] at hok
    obtain ⟨mid, hlong, hsh⟩ := of_bind hok
    obtain ⟨made, hids, hmem, hlen⟩ := rangeStep_made hlong
    obtain ⟨made', hids', hmem', hlen'⟩ := rangeStep_made hsh
    have hsmall : ∀ {l : List (Made δ)} {R : Made δ → Made δ → Prop}, l.length ≤ 1 →
        l.Pairwise R := fun {l R} hl => by
      rcases l with - | ⟨a, - | ⟨b, l⟩⟩
      · exact .nil
      · exact List.pairwise_singleton _ _
      · simp at hl
    refine ⟨made ++ made', by rw [hids', hids, List.map_append, List.append_assoc], fun m => ?_,
      List.pairwise_append.mpr ⟨hsmall hlen, hsmall hlen', fun a ha b hb heq => ?_⟩⟩
    · rw [List.mem_append, hmem, hmem', rangeStep_other hlong hsha (by simp [rangeZones]),
        rangeFires_iff hval hprev]
      rcases m with ⟨family, - | -, zone⟩ <;> simp [rangeZones, and_comm]
    · have hside := ((hmem a).mp ha).2.1.symm.trans (heq.2.trans ((hmem' b).mp hb).2.1)
      simp [rangeZones] at hside
  · have hidle : valid = true → bars5m.dropLast.getLast? = none := fun hv =>
      Option.eq_none_iff_forall_ne_some.mpr fun previous hprev => hruns ⟨hv, previous, hprev⟩
    rw [rangePass_idle hval hidle] at hok
    cases hok
    exact ⟨[], by simp, fun m => by simp [rangeFires_idle hval hidle], .nil⟩

/-! ### A call -/

section Call

variable {l : EventLedger δ} {p q g : Pass δ} {o : EventLedger δ × List (StrategyDecision δ)}

theorem Trace.createsAt_iff (t : Trace sha256 r bars5m bars15m a15Override l p q g o)
    {zone : ZoneSnapshot δ} :
    CreatesAt sha256 r p spec zone ↔ RoundCreates sha256 r l spec zone := by
  have hheld : (∃ e, Holds p.1 (spec.slot r.bar) e ∧ e.zone.zoneId = zone.zoneId)
      ↔ ∃ e, Holds l (spec.slot r.bar) e ∧ StaysActive r.bar e ∧ e.zone.zoneId = zone.zoneId :=
    progressLoop_holds t.progress (P := fun o => o.zone.zoneId = zone.zoneId)
  constructor
  · rintro ⟨h1, h2, h3, h4, h5⟩
    exact ⟨h1, mt (progressLoop_blocked t.progress).mpr h2, h3, mt hheld.mpr h4,
      mt (progressLoop_hasId t.progress).mpr h5⟩
  · rintro ⟨h1, h2, h3, h4, h5⟩
    exact ⟨h1, mt (progressLoop_blocked t.progress).mp h2, h3, mt hheld.mp h4,
      mt (progressLoop_hasId t.progress).mp h5⟩

/-- **The ids a call appends**, one for each event it creates. -/
theorem Trace.made (t : Trace sha256 r bars5m bars15m a15Override l p q g o)
    (hsha : Function.Injective sha256) (h : LedgerInv l) : ∃ made : List (Made δ),
      EventLedger.ids o.1 = l.ids ++ made.map (Made.eventId sha256 r)
      ∧ (∀ m, m ∈ made ↔ Creates sha256 r bars5m bars15m a15Override l m)
      ∧ made.Pairwise fun a b => ¬ (a.family = b.family ∧ a.side = b.side) := by
  have hp : EventLedger.ids p.1 = l.ids := ids_evolves (progressLoop_evolves t.progress)
  have ho := (invalidateOppositeActive_spec t.oppose).ids
  obtain ⟨made, hids, hmem, hpair⟩ := createSteps_made hsha (fun _ hs => hs)
    (creationSpecs_slots r) (t.inv_progressed h) t.create
  obtain ⟨made', hids', hmem', hpair'⟩ := rangePass_made hsha t.range
  refine ⟨made ++ made', ?_, fun m => ?_, List.pairwise_append.mpr ⟨hpair, hpair', ?_⟩⟩
  · rw [ho, hids', hids, hp, List.map_append, List.append_assoc]
  · rw [List.mem_append, hmem, hmem']
    constructor
    · rcases m with ⟨family, side, zone⟩
      rintro (⟨spec, hspec, rfl, rfl, hm⟩ | ⟨rfl, hfires, hzone⟩)
      · exact .round hspec (t.createsAt_iff.mp hm)
      · refine .range ?_ hzone
        simpa only [RangeFires, RoundFires, t.hasId_range h] using hfires
    · rintro (⟨hspec, hm⟩ | ⟨hfires, hzone⟩)
      · exact .inl ⟨_, hspec, rfl, rfl, t.createsAt_iff.mpr hm⟩
      · refine .inr ⟨rfl, ?_, hzone⟩
        simpa only [RangeFires, RoundFires, t.hasId_range h] using hfires
  · intro a ha b hb heq
    obtain ⟨spec, hspec, hfam, -⟩ := (hmem a).mp ha
    exact creationSpecs_family hspec (hfam.symm.trans (heq.1.trans ((hmem' b).mp hb).1))

/-- The ids stay distinct exactly if what the call creates is apart. -/
theorem Trace.ids_nodup_iff (t : Trace sha256 r bars5m bars15m a15Override l p q g o)
    (hsha : Function.Injective sha256) (h : LedgerInv l) (hl : l.ids.Nodup) :
    (EventLedger.ids o.1).Nodup ↔ Apart sha256 r bars5m bars15m a15Override l := by
  obtain ⟨made, hids, hmem, hpair⟩ := t.made hsha h
  have heq : ∀ a b : Made δ, a.eventId sha256 r = b.eventId sha256 r
      ↔ a.side = b.side ∧ a.zone.zoneId = b.zone.zoneId := by
    intro a b
    constructor
    · intro hab
      obtain ⟨hz, hs, -⟩ := marketEventId_inj hsha hab
      exact ⟨hs, hz⟩
    · rintro ⟨hs, hz⟩
      simp only [Made.eventId, Readings.eventId, hs, hz]
  rw [hids, List.nodup_append]
  constructor
  · rintro ⟨-, hmade, hdisj⟩
    refine ⟨fun m m' hm hm' hside hzone => ?_, fun m hm hin => ?_⟩
    · have := List.inj_on_of_nodup_map hmade ((hmem m).mpr hm) ((hmem m').mpr hm')
        ((heq m m').mpr ⟨hside, hzone⟩)
      rw [this]
    · exact hdisj _ hin _ (List.mem_map_of_mem ((hmem m).mpr hm)) rfl
  · rintro ⟨hfam, hnew⟩
    refine ⟨hl, ?_, ?_⟩
    · rw [List.Nodup, List.pairwise_map]
      refine hpair.imp_of_mem fun {a b} ha hb hab hid => hab ?_
      obtain ⟨hside, hzone⟩ := (heq a b).mp hid
      exact ⟨hfam a b ((hmem a).mp ha) ((hmem b).mp hb) hside hzone, hside⟩
    · rintro x hx y hy rfl
      obtain ⟨m, hm, rfl⟩ := List.mem_map.mp hy
      exact hnew m ((hmem m).mp hm) hx

end Call

/-! ### Runs -/

/-- The condition of a step, on the ledger and the inputs before it. -/
def StepApart (sha256 : Preimage δ → δ) (inputs : StrategyEvaluationInput δ)
    (l : EventLedger δ) : Prop :=
  inputs.mandatoryDataValid = true → ∀ q, readingsOf sha256 inputs = .ok q →
    Apart sha256 q.2 inputs.bars5m q.1.bars15m inputs.a15Override l

/-- The ledgers of runs whose calls all meet the condition. -/
inductive ApartRun (sha256 : Preimage δ → δ) : EventLedger δ → Prop
  | empty : ApartRun sha256 []
  | evaluate {l : EventLedger δ} {inputs : StrategyEvaluationInput δ} {result : KernelResult δ} :
      ApartRun sha256 l → StepApart sha256 inputs l →
      evaluateStrategy sha256 inputs l = .ok result → ApartRun sha256 result.ledger
  | shutdown {l : EventLedger δ} : ApartRun sha256 l →
      ApartRun sha256 (markUnresolvedAtShutdown l)

variable {l : EventLedger δ}

theorem ApartRun.reachable (h : ApartRun sha256 l) : Reachable sha256 l := by
  induction h with
  | empty => exact .empty
  | evaluate _ _ hok ih => exact ih.evaluate hok
  | shutdown _ ih => exact ih.shutdown

/-- **One call**: on a ledger with distinct ids the call returns one with distinct
ids exactly if it meets the condition. -/
theorem evaluate_ids_nodup_iff (hsha : Function.Injective sha256)
    (h : LedgerInv l) (hl : l.ids.Nodup) {inputs : StrategyEvaluationInput δ}
    {result : KernelResult δ} (hok : evaluateStrategy sha256 inputs l = .ok result) :
    result.ledger.ids.Nodup ↔ StepApart sha256 inputs l := by
  cases hval : inputs.mandatoryDataValid with
  | false =>
    refine iff_of_true ?_ fun hv => absurd (hval.symm.trans hv) (by decide)
    obtain ⟨prepared, -, hok⟩ := of_bind hok
    simp only [hval, Bool.not_false, if_true] at hok
    obtain ⟨final, hfin, hok⟩ := of_bind hok
    cases hok
    exact ids_evolves ((dataInvalidLoop_inv h prepared.currentBar).of_ok hfin).1.2 ▸ hl
  | true =>
    obtain ⟨prepared, r, p, q, g, o, hread, t, rfl⟩ := evaluateStrategy_trace hval hok
    simp only [StepApart, hval, forall_const, hread, Except.ok.injEq, forall_eq']
    exact t.ids_nodup_iff hsha h hl

def swingBar (k : ℕ) : Bar := swingAt .m5 100 k

def swingDip : Bar := centBar .m5 16200000 10200 10200 9950 10200 100 (by decide)

def swingInput : StrategyEvaluationInput (List ℕ) :=
  { bars5m := (List.range 54).map swingBar ++ [swingDip], minimumTick := 1 / 100 }

end TraderAssist
