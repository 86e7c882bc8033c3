/-
TraderAssist/Kernel/Slots.lean

The ACTIVE events of a slot, and the event ids of a ledger, followed through the
passes of a call.

A creation round touches only its own slot: the rounds before and after it are
frames (`Frame`), and what the round itself does is read off the candidate test
and the holder of the slot (`createStep_idle`, `createStep_held`,
`createStep_opens`).
-/
import TraderAssist.Kernel.LedgerInvariant

namespace TraderAssist

open Py

variable {δ : Type}

abbrev Slot := Text × SetupFamily × Side

/-- `e` is an ACTIVE event of the slot. -/
def Holds (l : EventLedger δ) (slot : Slot) (e : MarketEvent δ) : Prop :=
  e ∈ l ∧ e.slot = slot ∧ e.status = .active

/-- Some event has this id and family. -/
def HasId (l : EventLedger δ) (eventId : δ) (family : SetupFamily) : Prop :=
  ∃ e ∈ l, e.marketEventId = eventId ∧ e.setupFamily = family

variable {l : EventLedger δ} {eventId : δ} {family : SetupFamily}

theorem containsEventId_iff [DecidableEq δ] :
    containsEventId l eventId family = true ↔ HasId l eventId family := by
  simp [containsEventId, HasId]

/-! ### Holders -/

theorem Holds.unique (h : LedgerInv l) {slot : Slot} {e f : MarketEvent δ} (he : Holds l slot e)
    (hf : Holds l slot f) : e = f := by
  obtain ⟨i, hi⟩ := List.mem_iff_getElem?.mp he.1
  obtain ⟨j, hj⟩ := List.mem_iff_getElem?.mp hf.1
  have hslot : e.slot = f.slot := he.2.1.trans hf.2.1.symm
  simp only [MarketEvent.slot, Prod.mk.injEq] at hslot
  have hij := h.atMostOneActive i j e f hi hj he.2.2 hf.2.2 hslot.1 hslot.2.1 hslot.2.2
  rw [hij, hj] at hi
  exact (Option.some.inj hi).symm

variable {f : SetupFamily} {spec : CreationSpec δ} {e : MarketEvent δ} {l l' : EventLedger δ} {m : Text}

theorem active_none_iff {s : Side} : l.active m f s = none ↔ ∀ e, ¬ Holds l (m, f, s) e := by
  rw [active_eq_none]
  exact ⟨fun h e he => h e he.1 he.2.1 he.2.2, fun h e he hs ha => h e ⟨he, hs, ha⟩⟩

theorem Holds.active (h : LedgerInv l) {s : Side}
    (he : Holds l (m, f, s) e) : ∃ i, l.active m f s = some (e, i) := by
  rcases hact : l.active m f s with - | ⟨e', i⟩
  · exact absurd he (active_none_iff.mp hact e)
  · obtain ⟨hi, hslot, hstat⟩ := active_eq_some hact
    have heq : e' = e := Holds.unique h ⟨List.mem_of_getElem? hi, hslot, hstat⟩ he
    exact ⟨i, by rw [heq]⟩

theorem holds_of_active {s : Side} {i : ℕ}
    (h : l.active m f s = some (e, i)) : Holds l (m, f, s) e := by
  obtain ⟨hi, hslot, hstat⟩ := active_eq_some h
  exact ⟨List.mem_of_getElem? hi, hslot, hstat⟩

theorem holds_append {slot : Slot} {e ev : MarketEvent δ} :
    Holds (l ++ [ev]) slot e ↔ Holds l slot e ∨ e = ev ∧ ev.slot = slot ∧ ev.status = .active := by
  simp only [Holds, List.mem_append, List.mem_singleton, or_and_right]
  exact or_congr_right (and_congr_right fun h => by rw [h])

/-! ### Keys -/

/-- What a decision names its event by. -/
def MarketEvent.key (e : MarketEvent δ) : δ × SetupFamily := (e.marketEventId, e.setupFamily)

abbrev EventLedger.keys (l : EventLedger δ) : List (δ × SetupFamily) := l.map MarketEvent.key

theorem key_eq_of_origin {e e' : MarketEvent δ} (h : e'.origin = e.origin) : e'.key = e.key :=
  congrArg (fun o : Origin δ => (o.marketEventId, o.setupFamily)) h

theorem hasId_iff :
    HasId l eventId family ↔ (eventId, family) ∈ l.keys := by
  simp [HasId, MarketEvent.key]

theorem hasId_append {ev : MarketEvent δ} :
    HasId (l ++ [ev]) eventId family
      ↔ HasId l eventId family ∨ ev.marketEventId = eventId ∧ ev.setupFamily = family := by
  simp [hasId_iff, MarketEvent.key, eq_comm]

theorem keys_evolves (h : List.Forall₂ Evolves l l') : l.keys = l'.keys :=
  map_eq_of_forall₂ (h.imp fun _ _ hx => (key_eq_of_origin hx.origin_eq).symm)

theorem hasId_evolves (h : List.Forall₂ Evolves l l') : HasId l' eventId family ↔ HasId l eventId family := by
  rw [hasId_iff, hasId_iff, keys_evolves h]

/-- The ids of a ledger, in order. -/
def EventLedger.ids (l : EventLedger δ) : List δ := l.map MarketEvent.marketEventId

theorem ids_evolves (h : List.Forall₂ Evolves l l') : l'.ids = l.ids :=
  (map_eq_of_forall₂ (h.imp fun _ _ hx => (congrArg Origin.marketEventId hx.origin_eq).symm)).symm

/-! ### Clearing a slot -/

namespace Cleared

variable {bar : Bar} {family : SetupFamily} {side : Side} {zoneId : δ} {pass base : Pass δ}

section

variable (hc : Cleared bar family side zoneId pass base)
include hc

theorem hasId
    {family' : SetupFamily} : HasId base.1 eventId family' ↔ HasId pass.1 eventId family' := by
  cases hc with
  | free => exact Iff.rfl
  | superseded hsome hzone hd =>
    obtain ⟨hi, -, hact⟩ := active_eq_some hsome
    exact hasId_evolves (forall₂_evolves_set hi (.conclude hact _ _ _))

/-- The other slots keep their holders; this one has none any more. -/
theorem holds (h : LedgerInv pass.1) {slot : Slot} :
    Holds base.1 slot e ↔ Holds pass.1 slot e ∧ slot ≠ (bar.marketId, family, side) := by
  cases hc with
  | free hnone =>
    refine ⟨fun he => ⟨he, ?_⟩, fun he => he.1⟩
    rintro rfl
    exact active_none_iff.mp hnone e he
  | @superseded old i d hsome hzone hd =>
    obtain ⟨hi, hslot, hact⟩ := active_eq_some hsome
    obtain ⟨hilt, hie⟩ := List.getElem?_eq_some_iff.mp hi
    constructor
    · rintro ⟨hmem, hes, hea⟩
      refine ⟨⟨?_, hes, hea⟩, ?_⟩
      · rcases List.mem_or_eq_of_mem_set hmem with hm | rfl
        · exact hm
        · exact absurd hea (by simp)
      · rintro rfl
        exact h.set_conclude_free hi hact (by decide) _ _ e hmem (hes.trans hslot.symm) hea
    · rintro ⟨⟨hmem, hes, hea⟩, hne⟩
      refine ⟨?_, hes, hea⟩
      obtain ⟨j, hj, rfl⟩ := List.getElem_of_mem hmem
      have hij : i ≠ j := by
        rintro rfl
        exact hne (hes.symm.trans (hie ▸ hslot))
      have hj' : j < (pass.1.set i
          (old.conclude .superseded .supersededByNewIndependentEvent bar)).length := by
        simpa using hj
      have hget := List.getElem_mem hj'
      rwa [List.getElem_set_ne hij] at hget

theorem blocked : base.2.creationBlocked = pass.2.creationBlocked
      ∧ base.2.confirmedEvents = pass.2.confirmedEvents := by
  cases hc <;> exact ⟨rfl, rfl⟩

theorem ids : EventLedger.ids base.1 = EventLedger.ids pass.1 := by
  cases hc with
  | free => rfl
  | superseded hsome =>
    obtain ⟨hi, -, hact⟩ := active_eq_some hsome
    exact ids_evolves (forall₂_evolves_set hi (.conclude hact _ _ _))

/-- What is cleared was not held in this zone. -/
theorem unheld (h : LedgerInv pass.1) :
    ¬ ∃ e, Holds pass.1 (bar.marketId, family, side) e ∧ e.zone.zoneId = zoneId := by
  rintro ⟨e, he, hz⟩
  cases hc with
  | free hnone => exact active_none_iff.mp hnone e he
  | superseded hsome hzone =>
    rw [Holds.unique h he (holds_of_active hsome)] at hz
    exact hzone hz

end

end Cleared

/-! ### One creation round -/

section Round

variable [DecidableEq δ] {bar : Bar} {pass : Pass δ} {spec : CreationSpec δ} {zone : ZoneSnapshot δ}

/-- The slot a creation round fills. -/
def CreationSpec.slot (spec : CreationSpec δ) (bar : Bar) : Slot :=
  (bar.marketId, spec.family, spec.side)

omit [DecidableEq δ] in
/-- The round looks at this zone. -/
def CreationSpec.Looks (spec : CreationSpec δ) (zone : ZoneSnapshot δ) : Prop :=
  spec.zone = some zone ∧ eligible zone spec.requiredType = true

theorem createStep_skip (h : ∀ zone, spec.Looks zone → (spec.family, spec.side) ∈ pass.2.creationBlocked) :
    createStep bar pass spec = .ok pass := by
  unfold createStep
  split
  · rfl
  · rename_i zone hzone
    by_cases he : eligible zone spec.requiredType = true
    · simp [he, h zone ⟨hzone, he⟩]
    · simp [he]

variable (hlook : spec.Looks zone) (hfree : (spec.family, spec.side) ∉ pass.2.creationBlocked)

include hlook hfree

theorem createStep_raises {err : KernelError} (hc : spec.candidate zone = .error err) :
    createStep bar pass spec = .error err := by
  unfold createStep
  simp [hlook.1, hlook.2, hfree, hc, bind, Except.bind]

theorem createStep_idle (hc : spec.candidate zone = .ok false) : createStep bar pass spec = .ok pass := by
  unfold createStep
  simp only [hlook.1, hlook.2, hfree, hc, bind, Except.bind, Bool.not_true, Bool.false_eq_true,
    if_false, Bool.not_false, or_true, if_true]
  split <;> rfl

/-- An ACTIVE event in the same zone keeps the slot. -/
theorem createStep_held (h : LedgerInv pass.1)
    (he : Holds pass.1 (spec.slot bar) e) (hz : e.zone.zoneId = zone.zoneId)
    (hc : spec.candidate zone = .ok true) : createStep bar pass spec = .ok pass := by
  obtain ⟨i, hact⟩ := he.active h
  unfold createStep
  simp [hlook.1, hlook.2, hfree, hc, bind, Except.bind, hact, hz]
  rfl

/-- Without one the slot is cleared and the new event appended. -/
theorem createStep_opens (h : LedgerInv pass.1) (hc : spec.candidate zone = .ok true)
    (hz : ∀ e, Holds pass.1 (spec.slot bar) e → e.zone.zoneId ≠ zone.zoneId) :
    ∃ base, Cleared bar spec.family spec.side zone.zoneId pass base ∧ createStep bar pass spec
        = appendEvent .wait spec.reason base (spec.newEvent zone (linkageFor bar pass spec zone)) := by
  rcases hact : pass.1.active bar.marketId spec.family spec.side with - | ⟨e, i⟩
  · refine ⟨pass, .free hact, ?_⟩
    unfold createStep
    simp [hlook.1, hlook.2, hfree, hc, bind, Except.bind, hact, linkageFor]
  · have hne := hz e (holds_of_active hact)
    obtain ⟨d, hd, hsup⟩ := supersedeForNewZone_isOk h hact bar
    refine ⟨_, .superseded hact hne hd, ?_⟩
    unfold createStep
    simp [hlook.1, hlook.2, hfree, hc, bind, Except.bind, hact, hne, linkageFor, hsup]

end Round

/-! ### Frames -/

/-- What a pass leaves alone, seen from a slot and an id of the slot's family. -/
structure Frame (slot : Slot) (eventId : δ) (pass pass' : Pass δ) : Prop where
  inv : LedgerInv pass'.1
  holds : ∀ e, Holds pass'.1 slot e ↔ Holds pass.1 slot e
  hasId : HasId pass'.1 eventId slot.2.1 ↔ HasId pass.1 eventId slot.2.1
  blocked : pass'.2.creationBlocked = pass.2.creationBlocked

namespace Frame

variable {slot : Slot} {eventId : δ} {p q r : Pass δ}

theorem refl (h : LedgerInv p.1) : Frame slot eventId p p :=
  ⟨h, fun _ => Iff.rfl, Iff.rfl, rfl⟩

theorem trans (h : Frame slot eventId p q) (h' : Frame slot eventId q r) : Frame slot eventId p r :=
  ⟨h'.inv, fun e => (h'.holds e).trans (h.holds e), h'.hasId.trans h.hasId, h'.blocked.trans h.blocked⟩

end Frame

section Frames

variable [DecidableEq δ] {bar : Bar} {pass pass' : Pass δ}

theorem appendEvent_contained {kind : DecisionKind} {reason : Reason} {pass : Pass δ}
    {event : MarketEvent δ} (h : HasId pass.1 event.marketEventId event.setupFamily) :
    appendEvent kind reason pass event = .ok pass := by
  unfold appendEvent
  rw [if_pos (containsEventId_iff.mpr h)]

/-- Appending an event of another slot and another id, or nothing. -/
theorem appendEvent_frame {kind : DecisionKind} {reason : Reason}
    {event : MarketEvent δ} {slot : Slot} (hinv : LedgerInv pass'.1)
    (hslot : event.status = .active → event.slot ≠ slot)
    (hid : event.marketEventId = eventId → event.setupFamily ≠ slot.2.1)
    (h : appendEvent kind reason pass event = .ok pass') : Frame slot eventId pass pass' := by
  rcases appendEvent_cases h with ⟨-, rfl⟩ | ⟨-, d, -, rfl⟩
  · exact .refl hinv
  · refine ⟨hinv, fun e => ?_, ?_, rfl⟩
    · rw [holds_append]
      exact or_iff_left fun hev => hslot hev.2.2 hev.2.1
    · rw [hasId_append]
      exact or_iff_left fun hev => hid hev.1 hev.2

/-- A creation round of another slot. -/
theorem createStep_frame {slot : Slot}
    (h : LedgerInv pass.1) (hs : SpecWf bar spec) (hslot : spec.slot bar ≠ slot)
    (hid : ∀ zone linkage, (spec.newEvent zone linkage).marketEventId = eventId → spec.family ≠ slot.2.1)
    (hok : createStep bar pass spec = .ok pass') : Frame slot eventId pass pass' := by
  have hinv := ((createStep_inv h hs).of_ok hok).1
  rcases createStep_cases.of_ok hok with rfl | ⟨zone, base, -, -, -, -, hclr, happ⟩
  · exact .refl h
  · have hbase : Frame slot eventId pass base := by
      refine ⟨(hclr.inv h).1, fun e => ?_, hclr.hasId, hclr.blocked.1⟩
      rw [hclr.holds h]
      exact and_iff_left fun heq => hslot heq.symm
    have hev := hs.slot zone (linkageFor bar pass spec zone)
    have hfam : (spec.newEvent zone (linkageFor bar pass spec zone)).setupFamily = spec.family := by
      simp only [MarketEvent.slot, Prod.mk.injEq] at hev
      exact hev.2.1
    refine hbase.trans (appendEvent_frame hinv (fun _ => ?_) (fun heq => ?_) happ)
    · rw [hev]
      exact hslot
    · rw [hfam]
      exact hid _ _ heq

/-- Rounds of other slots. -/
theorem createSteps_frame {slot : Slot} {specs : List (CreationSpec δ)}
    (hs : ∀ spec ∈ specs, SpecWf bar spec ∧ spec.slot bar ≠ slot
      ∧ ∀ zone linkage, (spec.newEvent zone linkage).marketEventId = eventId → spec.family ≠ slot.2.1) :
    ∀ {pass pass' : Pass δ}, LedgerInv pass.1 → specs.foldlM (createStep bar) pass = .ok pass' →
      Frame slot eventId pass pass' := by
  induction specs with
  | nil =>
    intro pass pass' h hok
    cases hok
    exact .refl h
  | cons spec specs ih =>
    intro pass pass' h hok
    obtain ⟨mid, hmid, hok⟩ := of_bind hok
    obtain ⟨hw, hslot, hid⟩ := hs spec (.head _)
    have hfrm := createStep_frame h hw hslot hid hmid
    exact hfrm.trans (ih (fun s hmem => hs s (.tail _ hmem)) hfrm.inv hok)

theorem createStep_confirmed
    (hok : createStep bar pass spec = .ok pass') : pass'.2.confirmedEvents = pass.2.confirmedEvents := by
  rcases createStep_cases.of_ok hok with rfl | ⟨zone, base, -, -, -, -, hclr, happ⟩
  · rfl
  · rcases appendEvent_cases happ with ⟨-, rfl⟩ | ⟨-, d, -, rfl⟩
    · exact hclr.blocked.2
    · simpa using hclr.blocked.2

theorem createSteps_confirmed {specs : List (CreationSpec δ)}
    (hok : specs.foldlM (createStep bar) pass = .ok pass') :
    pass'.2.confirmedEvents = pass.2.confirmedEvents := by
  refine (Sat.foldlM (I := fun p : Pass δ => p.2.confirmedEvents = pass.2.confirmedEvents)
    (E := fun _ => True) (fun p hp spec _ => ?_) pass rfl).of_ok hok
  exact (Sat.self fun _ _ => trivial).weaken fun _ h => (createStep_confirmed h).trans hp

end Frames

/-! ### The rounds of a call -/

theorem side_value_injective : Function.Injective Side.value := by
  intro s t h
  cases s <;> cases t <;> simp [Side.value] at h <;> rfl

/-- Zone, side and candle can be read off an event id of a market. -/
theorem marketEventId_inj {sha256 : Preimage δ → δ} (hsha : Function.Injective sha256) {z z' c c' : δ}
    {s s' : Side}
    (h : marketEventId sha256 m z s c = marketEventId sha256 m z' s' c') : z = z' ∧ s = s' ∧ c = c' := by
  have h := hsha h
  simp only [List.append_assoc] at h
  obtain ⟨-, hz, h⟩ := lit_hex_inj h
  obtain ⟨hs, hc, -⟩ := lit_hex_inj h
  exact ⟨hz, side_value_injective hs, hc⟩

/-- The origin of the events a creation round makes. -/
structure SpecOrigin (sha256 : Preimage δ → δ) (bar : Bar) (spec : CreationSpec δ) : Prop where
  zone : ∀ zone linkage, (spec.newEvent zone linkage).zone = zone
  created : ∀ zone linkage, (spec.newEvent zone linkage).createdBar = bar
  latest : ∀ zone linkage, (spec.newEvent zone linkage).latestBar = bar
  eventId : ∀ zone linkage, (spec.newEvent zone linkage).marketEventId
    = marketEventId sha256 bar.marketId zone.zoneId spec.side (bar.candleId sha256)

section Rounds

variable [LinearOrder δ] {sha256 : Preimage δ → δ} {r : Readings δ}

theorem creationSpecs_origin (r : Readings δ) :
    ∀ spec ∈ creationSpecs sha256 r, SpecOrigin sha256 r.bar spec := by
  intro spec hspec
  simp only [creationSpecs, List.mem_cons, List.not_mem_nil, or_false] at hspec
  rcases hspec with rfl | rfl | rfl | rfl <;>
    exact ⟨fun _ _ => rfl, fun _ _ => rfl, fun _ _ => rfl, fun _ _ => rfl⟩

theorem creationSpecs_slots (r : Readings δ) :
    (creationSpecs sha256 r).Pairwise fun a b => a.slot r.bar ≠ b.slot r.bar := by
  simp [creationSpecs, sweepSpec, breakoutSpec, CreationSpec.slot]

theorem creationSpecs_family
    (h : spec ∈ creationSpecs sha256 r) : spec.family ≠ .rangeEdgeRejection := by
  simp only [creationSpecs, List.mem_cons, List.not_mem_nil, or_false] at h
  rcases h with rfl | rfl | rfl | rfl <;> simp [sweepSpec, breakoutSpec]

/-- Another round of the same family is of the other side, so its ids differ. -/
theorem creationSpecs_foreign (hsha : Function.Injective sha256)
    {spec other : CreationSpec δ} (hoth : other ∈ creationSpecs sha256 r)
    (hslot : other.slot r.bar ≠ spec.slot r.bar) (zoneId : δ) :
    SpecWf r.bar other ∧ other.slot r.bar ≠ spec.slot r.bar
      ∧ ∀ zone linkage, (other.newEvent zone linkage).marketEventId
          = marketEventId sha256 r.bar.marketId zoneId spec.side (r.bar.candleId sha256) →
        other.family ≠ (spec.slot r.bar).2.1 := by
  refine ⟨creationSpecs_wf sha256 r other hoth, hslot, fun zone linkage heq hfam => hslot ?_⟩
  rw [(creationSpecs_origin r other hoth).eventId] at heq
  obtain ⟨-, hside, -⟩ := marketEventId_inj hsha heq
  simp only [CreationSpec.slot] at hfam ⊢
  rw [hfam, hside]

/-- **Each creation round of a call runs between two frames** of its slot. -/
theorem creation_round (hsha : Function.Injective sha256) {p q : Pass δ}
    (hp : LedgerInv p.1) (hok : (creationSpecs sha256 r).foldlM (createStep r.bar) p = .ok q)
    (hspec : spec ∈ creationSpecs sha256 r) (zoneId : δ) :
    ∃ a b, createStep r.bar a spec = .ok b
      ∧ Frame (spec.slot r.bar) (marketEventId sha256 r.bar.marketId zoneId spec.side
          (r.bar.candleId sha256)) p a
      ∧ Frame (spec.slot r.bar) (marketEventId sha256 r.bar.marketId zoneId spec.side
          (r.bar.candleId sha256)) b q := by
  obtain ⟨pre, post, hspl⟩ := List.append_of_mem hspec
  have hpair := @creationSpecs_slots _ _ sha256 r
  rw [hspl, List.pairwise_append, List.pairwise_cons] at hpair
  obtain ⟨-, ⟨hpost, -⟩, hpre⟩ := hpair
  rw [hspl, List.foldlM_append] at hok
  obtain ⟨a, ha, hok⟩ := of_bind hok
  obtain ⟨b, hb, hok⟩ := of_bind hok
  have hfrm : Frame (spec.slot r.bar) _ p a := createSteps_frame (fun other hmem =>
    creationSpecs_foreign hsha (by rw [hspl]; simp [hmem])
      (hpre other hmem spec (.head _)) zoneId) hp ha
  have hbinv := ((createStep_inv hfrm.inv (creationSpecs_wf sha256 r spec hspec)).of_ok hb).1
  exact ⟨a, b, hb, hfrm, createSteps_frame (fun other hmem =>
    creationSpecs_foreign hsha (by rw [hspl]; simp [hmem]) (hpost other hmem).symm zoneId)
    hbinv hok⟩

end Rounds

end TraderAssist
