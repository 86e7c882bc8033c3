/-
TraderAssist/Runtime/Launch.lean

The lifecycle planner of the Cohort Barrier (`_plan_lifecycle_updates` of `runtime.py`).

What the planner reads at a boundary (health flags, failures, last stored opens) is an
input, `BoundaryView`; a run is any list of such views, and at each of them the version
either takes the planned updates or stays.  While no market is ACTIVE the planner moves
only the lowest stage of the pre-active markets, and only if all of them are well; so the
last stage to move is all of them (`plan_launch`).  Hence no run reaches a version with
both an ACTIVE and a pre-active market (`Launch.step`), and the per-market branch of the
planner is never taken (`launch_atomic`).
-/
import TraderAssist.Registry.Types

namespace TraderAssist

open Py

/-! ### The planner -/

/-- What the planner reads of health, data authority and store. -/
structure BoundaryView where
  boundaryOpenMs : ℕ
  dataReady : Bool
  acknowledgements : List Text
  nonrecoverableMarkets : List Text
  failedMarkets : List Text
  marketFailed : Text → Bool
  lastOpen : Text → Option ℕ

namespace BoundaryView

def snapshotReady (b : BoundaryView) (selected : List RegistryMarket) : Bool :=
  b.dataReady && selected.all fun m => m.identity.coin ∈ b.acknowledgements

def blocked (b : BoundaryView) (m : RegistryMarket) : Bool :=
  decide (m.marketId ∈ b.nonrecoverableMarkets) || decide (m.marketId ∈ b.failedMarkets)
    || b.marketFailed m.marketId

/-- `_history_current_at`. -/
def current (b : BoundaryView) (m : RegistryMarket) : Bool :=
  !b.marketFailed m.marketId && decide (b.lastOpen m.marketId = some b.boundaryOpenMs)

/-- `blocked(market) or not current(market)`. -/
def held (b : BoundaryView) (m : RegistryMarket) : Bool := b.blocked m || !b.current m

end BoundaryView

/-- `selected_markets` of a version without pending additions. -/
def selectedMarkets (markets : List RegistryMarket) : List RegistryMarket :=
  markets.filter fun m => m.lifecycle ∉ [.disabled, .outcomesComplete]

def activeSelected (selected : List RegistryMarket) : List RegistryMarket :=
  selected.filter fun m => m.lifecycle = .active

/-- The stage of a pre-active market. -/
def RegistryMarket.stage (m : RegistryMarket) : ℕ := m.lifecycle.preActiveOrder.getD 0

/-- The update of one market while others are ACTIVE. -/
def BoundaryView.ownUpdate (b : BoundaryView) (snapshotReady : Bool) (m : RegistryMarket) :
    Option (Text × MarketLifecycle) :=
  if b.held m then none
  else if m.lifecycle = .warming then some (m.marketId, .historyReady)
  else if snapshotReady then
    some (m.marketId, if m.lifecycle = .historyReady then .snapshotReady else .active)
  else none

/-- `_plan_lifecycle_updates`. -/
def planLifecycleUpdates (b : BoundaryView) (selected active : List RegistryMarket) :
    Dict Text MarketLifecycle :=
  let members := selected.filter fun m => m.lifecycle.preActive
  if active = [] then
    -- initial launch: the lowest stage moves, and only if every member is well
    if members.any b.held then .empty
    else match minBy RegistryMarket.stage members with
      | none => .empty
      | some minimum =>
        if minimum.lifecycle = .warming then
          .ofPairs ((members.filter fun m => m.lifecycle = .warming).map fun m =>
            (m.marketId, .historyReady))
        else if b.snapshotReady selected = false then .empty
        else
          let target := if minimum.lifecycle = .historyReady then .snapshotReady else .active
          .ofPairs ((members.filter fun m => m.lifecycle = minimum.lifecycle).map fun m =>
            (m.marketId, target))
  else
    let updates := Dict.ofPairs (members.filterMap (b.ownUpdate (b.snapshotReady selected)))
    if updates.keys ≠ [] ∧ active.any b.held then .empty else updates

/-- The updates planned at a boundary. -/
def plannedUpdates (b : BoundaryView) (markets : List RegistryMarket) : Dict Text MarketLifecycle :=
  planLifecycleUpdates b (selectedMarkets markets) (activeSelected (selectedMarkets markets))

/-- The markets after a boundary at which the updates are applied or not. -/
def boundaryStep (markets : List RegistryMarket) (boundary : BoundaryView × Bool) :
    List RegistryMarket :=
  if boundary.2 then
    (lifecycleTargetMarkets markets (plannedUpdates boundary.1 markets)).toOption.getD markets
  else markets

/-- The markets after some boundaries. -/
def boundaryRun (markets : List RegistryMarket) (boundaries : List (BoundaryView × Bool)) :
    List RegistryMarket :=
  boundaries.foldl boundaryStep markets

/-! ### One boundary -/

/-- The next stage of a pre-active lifecycle. -/
def MarketLifecycle.advance : MarketLifecycle → Option MarketLifecycle
  | .warming => some .historyReady
  | .historyReady => some .snapshotReady
  | .snapshotReady => some .active
  | _ => none

theorem MarketLifecycle.advance_mem_next {l target : MarketLifecycle} (h : l.advance = some target) :
    target ∈ l.next := by
  cases l <;> cases h <;> decide

theorem MarketLifecycle.preActive_of_advance {l target : MarketLifecycle}
    (h : l.advance = some target) : l.preActive = true := by
  cases l <;> first | rfl | cases h

variable {markets : List RegistryMarket}

theorem mem_selected {m : RegistryMarket} (hm : m ∈ markets) (hpre : m.lifecycle.preActive = true) :
    m ∈ (selectedMarkets markets).filter fun m => m.lifecycle.preActive := by
  rw [selectedMarkets, List.mem_filter, List.mem_filter]
  refine ⟨⟨hm, ?_⟩, hpre⟩
  rcases hl : m.lifecycle <;> simp_all [MarketLifecycle.preActive, MarketLifecycle.preActiveOrder]

theorem activeSelected_eq_nil :
    activeSelected (selectedMarkets markets) = [] ↔ ∀ m ∈ markets, m.lifecycle ≠ .active := by
  simp only [activeSelected, selectedMarkets, List.filter_eq_nil_iff, List.mem_filter, decide_eq_true_eq]
  constructor
  · intro h m hm hact
    exact h m ⟨hm, by rw [hact]; decide⟩ hact
  · exact fun h m hm => h m hm.1

/-- **The plan of a version without ACTIVE market**: nothing, or the next stage for all
markets of the lowest stage, and then every pre-active market is well. -/
theorem plan_launch (b : BoundaryView) (hno : ∀ m ∈ markets, m.lifecycle ≠ .active) :
    plannedUpdates b markets = .empty ∨ (∀ m ∈ markets, m.lifecycle.preActive = true → b.held m = false)
        ∧ ∃ least target : MarketLifecycle, least.advance = some target
          ∧ (∀ m ∈ markets, m.lifecycle.preActive = true → least.preActiveOrder.getD 0 ≤ m.stage)
          ∧ plannedUpdates b markets = .ofPairs
            ((((selectedMarkets markets).filter fun m => m.lifecycle.preActive).filter fun m =>
              m.lifecycle = least).map fun m => (m.marketId, target)) := by
  rw [plannedUpdates, planLifecycleUpdates, if_pos (activeSelected_eq_nil.mpr hno)]
  by_cases hheld : (((selectedMarkets markets).filter fun m => m.lifecycle.preActive).any b.held) = true
  · rw [if_pos hheld]
    exact .inl rfl
  · rw [if_neg hheld]
    have hwell : ∀ m ∈ markets, m.lifecycle.preActive = true → b.held m = false := by
      intro m hm hpre
      rw [Bool.not_eq_true, List.any_eq_false] at hheld
      exact Bool.eq_false_iff.mpr (hheld m (mem_selected hm hpre))
    rcases hmin : minBy RegistryMarket.stage
        ((selectedMarkets markets).filter fun m => m.lifecycle.preActive) with - | minimum
    · exact .inl rfl
    · obtain ⟨hmem, hle⟩ := minBy_spec hmin
      have hleast : ∀ m ∈ markets, m.lifecycle.preActive = true →
          minimum.lifecycle.preActiveOrder.getD 0 ≤ m.stage :=
        fun m hm hpre => hle m (mem_selected hm hpre)
      dsimp only
      split_ifs with hwarming hready hhist
      · refine .inr ⟨hwell, .warming, .historyReady, rfl, hwarming ▸ hleast, rfl⟩
      · exact .inl rfl
      · exact .inr ⟨hwell, .historyReady, .snapshotReady, rfl, hhist ▸ hleast, by rw [hhist]⟩
      · -- the only stage left
        have hsnap : minimum.lifecycle = .snapshotReady := by
          rcases hl : minimum.lifecycle <;>
            simp_all [MarketLifecycle.preActive, MarketLifecycle.preActiveOrder]
        exact .inr ⟨hwell, .snapshotReady, .active, rfl, hsnap ▸ hleast, by rw [hsnap]⟩

/-- Once no pre-active market is left nothing is planned. -/
theorem plan_launched (b : BoundaryView) (h : ∀ m ∈ markets, m.lifecycle.preActive = false) :
    plannedUpdates b markets = .empty := by
  have hmems : ((selectedMarkets markets).filter fun m => m.lifecycle.preActive) = [] := by
    rw [List.filter_eq_nil_iff]
    intro m hm
    rw [h m (List.mem_filter.mp hm).1]
    decide
  rw [plannedUpdates, planLifecycleUpdates, hmems]
  by_cases hact : activeSelected (selectedMarkets markets) = []
  · rw [if_pos hact]
    rfl
  · rw [if_neg hact]
    exact if_neg fun hkeys => hkeys.1 rfl

/-- The markets a planned stage names. -/
theorem get?_stage {least target : MarketLifecycle}
    (hids : (markets.map RegistryMarket.marketId).Nodup) (hadv : least.advance = some target)
    {id : Text} {t : MarketLifecycle} :
    (Dict.ofPairs ((((selectedMarkets markets).filter fun m => m.lifecycle.preActive).filter fun m =>
        m.lifecycle = least).map fun m => (m.marketId, target))).get? id = some t
      ↔ t = target ∧ ∃ m ∈ markets, m.marketId = id ∧ m.lifecycle = least := by
  have hpre := MarketLifecycle.preActive_of_advance hadv
  rw [Dict.get?_ofPairs]
  · simp only [List.mem_map, List.mem_filter, Prod.mk.injEq, decide_eq_true_eq]
    constructor
    · rintro ⟨m, ⟨⟨hsel, -⟩, hstage⟩, rfl, rfl⟩
      exact ⟨rfl, m, (List.mem_filter.mp hsel).1, rfl, hstage⟩
    · rintro ⟨rfl, m, hm, rfl, rfl⟩
      exact ⟨m, ⟨List.mem_filter.mp (mem_selected hm hpre), rfl⟩, rfl, rfl⟩
  · rw [List.map_map]
    refine hids.sublist (List.Sublist.map _ ?_)
    exact (List.filter_sublist.trans List.filter_sublist).trans List.filter_sublist

/-! ### Runs -/

/-- No version has both an ACTIVE and a pre-active market. -/
structure Launch (markets : List RegistryMarket) : Prop where
  ids : (markets.map RegistryMarket.marketId).Nodup
  apart : (∀ m ∈ markets, m.lifecycle ≠ .active) ∨ ∀ m ∈ markets, m.lifecycle.preActive = false

/-- The updates of such a version move pre-active markets by one stage. -/
theorem Launch.advances (h : Launch markets) {b : BoundaryView} {id : Text}
    {target : MarketLifecycle} (hget : (plannedUpdates b markets).get? id = some target) :
    ∃ m ∈ markets, m.marketId = id ∧ m.lifecycle.advance = some target := by
  rcases h.apart with hno | hlau
  · rcases plan_launch b hno with hemp | ⟨-, least, t, hadv, -, hplan⟩
    · rw [hemp] at hget
      cases hget
    · rw [hplan, get?_stage h.ids hadv] at hget
      obtain ⟨rfl, m, hm, hid, rfl⟩ := hget
      exact ⟨m, hm, hid, hadv⟩
  · rw [plan_launched b hlau] at hget
    cases hget

theorem Launch.legal (h : Launch markets) (b : BoundaryView) :
    LegalUpdates markets (plannedUpdates b markets) := fun _ _ hget =>
  have ⟨m, hm, hid, hadv⟩ := h.advances hget
  ⟨m, hm, hid, MarketLifecycle.advance_mem_next hadv⟩

theorem Launch.boundaryStep_eq (h : Launch markets) (b : BoundaryView) (applied : Bool) :
    boundaryStep markets (b, applied)
      = if applied then markets.map (RegistryMarket.updated (plannedUpdates b markets)) else markets := by
  rw [boundaryStep, lifecycleTargetMarkets_of_legal h.ids (h.legal b)]
  rfl

theorem RegistryMarket.marketId_updated (updates : Dict Text MarketLifecycle) (m : RegistryMarket) :
    (m.updated updates).marketId = m.marketId := by
  rw [RegistryMarket.updated]
  rcases updates.get? m.marketId with - | lifecycle <;> rfl

/-- A market that becomes ACTIVE takes every pre-active market with it. -/
theorem Launch.all_active (h : Launch markets) {b : BoundaryView}
    (hno : ∀ m ∈ markets, m.lifecycle ≠ .active) {id : Text}
    (hact : (plannedUpdates b markets).get? id = some .active) {m : RegistryMarket}
    (hm : m ∈ markets) (hpre : m.lifecycle.preActive = true) :
    (plannedUpdates b markets).get? m.marketId = some .active := by
  rcases plan_launch b hno with hemp | ⟨-, least, t, hadv, hleast, hplan⟩
  · rw [hemp] at hact
    cases hact
  · rw [hplan, get?_stage h.ids hadv] at hact ⊢
    obtain ⟨rfl, -⟩ := hact
    -- the lowest stage is the last one, so every member is at it
    have hsnap : least = .snapshotReady := by
      cases least <;> first | rfl | cases hadv
    refine ⟨rfl, m, hm, rfl, ?_⟩
    have hstage := hleast m hm hpre
    rcases hl : m.lifecycle <;>
      simp_all [MarketLifecycle.preActive, MarketLifecycle.preActiveOrder, RegistryMarket.stage]

/-- **A boundary keeps ACTIVE and pre-active markets apart.** -/
theorem Launch.step (h : Launch markets) (boundary : BoundaryView × Bool) :
    Launch (boundaryStep markets boundary) := by
  obtain ⟨b, applied⟩ := boundary
  rw [h.boundaryStep_eq]
  cases applied with
  | false => exact h
  | true =>
    constructor
    · rw [if_pos rfl, List.map_map]
      exact (List.map_congr_left fun m _ => RegistryMarket.marketId_updated _ m) ▸ h.ids
    · rcases h.apart with hno | hlau
      · by_cases hact : ∃ id, (plannedUpdates b markets).get? id = some .active
        · -- the launch: no pre-active market is left
          obtain ⟨id, hid⟩ := hact
          refine .inr fun m' hm' => ?_
          obtain ⟨m, hm, rfl⟩ := List.mem_map.mp hm'
          rw [RegistryMarket.updated]
          by_cases hpre : m.lifecycle.preActive = true
          · rw [h.all_active hno hid hm hpre]
            rfl
          · rcases hget : (plannedUpdates b markets).get? m.marketId with - | target
            · exact Bool.eq_false_iff.mpr hpre
            · -- only pre-active markets are updated
              obtain ⟨m', hm', hid', hadv⟩ := h.advances hget
              obtain rfl := List.inj_on_of_nodup_map h.ids hm' hm hid'
              exact absurd (MarketLifecycle.preActive_of_advance hadv) hpre
        · -- nobody becomes ACTIVE
          refine .inl fun m' hm' hlife => ?_
          obtain ⟨m, hm, rfl⟩ := List.mem_map.mp hm'
          rw [RegistryMarket.updated] at hlife
          rcases hget : (plannedUpdates b markets).get? m.marketId with - | target
          · rw [hget] at hlife
            exact hno m hm hlife
          · rw [hget] at hlife
            exact hact ⟨_, hget.trans (congrArg some hlife)⟩
      · refine .inr fun m' hm' => ?_
        obtain ⟨m, hm, rfl⟩ := List.mem_map.mp hm'
        rw [plan_launched b hlau]
        exact hlau m hm

theorem Launch.run (h : Launch markets) (boundaries : List (BoundaryView × Bool)) :
    Launch (boundaryRun markets boundaries) := by
  induction boundaries generalizing markets with
  | nil => exact h
  | cons boundary boundaries ih => exact ih (h.step boundary)

/-- **The initial launch is atomic.**  From a version without ACTIVE market, after any
boundaries and at any further one: every planned update is legal and is carried out; none
is planned while a pre-active selected market is blocked or not current; and if the updates
make the first market ACTIVE they make every pre-active selected market ACTIVE. -/
theorem launch_atomic (v : RegistryVersion) (hstart : ∀ m ∈ v.markets, m.lifecycle ≠ .active)
    (boundaries : List (BoundaryView × Bool)) (b : BoundaryView) :
    let markets := boundaryRun v.markets boundaries
    let updates := plannedUpdates b markets
    LegalUpdates markets updates
      ∧ lifecycleTargetMarkets markets updates = .ok (boundaryStep markets (b, true))
      ∧ (updates.keys ≠ [] → ∀ m ∈ selectedMarkets markets, m.lifecycle.preActive = true →
        b.blocked m = false ∧ b.current m = true)
      ∧ ((∀ m ∈ markets, m.lifecycle ≠ .active) →
        (∃ m' ∈ boundaryStep markets (b, true), m'.lifecycle = .active) →
        ∀ m ∈ selectedMarkets markets, m.lifecycle.preActive = true →
          { m with lifecycle := .active } ∈ boundaryStep markets (b, true)) := by
  intro markets updates
  have h : Launch markets := Launch.run ⟨v.ids_nodup, .inl hstart⟩ boundaries
  have hstep := h.boundaryStep_eq b true
  refine ⟨h.legal b, ?_, fun hkeys m hm hpre => ?_, fun hno hsome m hm hpre => ?_⟩
  · rw [hstep]
    exact lifecycleTargetMarkets_of_legal h.ids (h.legal b)
  · have hwell : b.held m = false := by
      rcases h.apart with hno | hlaunched
      · rcases plan_launch b hno with hempty | ⟨hwell, -⟩
        · exact absurd (congrArg Dict.keys hempty) hkeys
        · exact hwell m (List.mem_filter.mp hm).1 hpre
      · exact absurd (congrArg Dict.keys (plan_launched b hlaunched)) hkeys
    simpa [BoundaryView.held] using hwell
  · obtain ⟨m', hm', hactive⟩ := hsome
    rw [hstep] at hm' ⊢
    obtain ⟨first, hfirst, rfl⟩ := List.mem_map.mp hm'
    -- the market that is ACTIVE now was updated
    have hget : updates.get? first.marketId = some .active := by
      rw [RegistryMarket.updated] at hactive
      rcases hget : updates.get? first.marketId with - | target
      · rw [show (plannedUpdates b markets).get? first.marketId = none from hget] at hactive
        exact absurd hactive (hno first hfirst)
      · rw [show (plannedUpdates b markets).get? first.marketId = some target from hget] at hactive
        exact congrArg some hactive
    have hin := (List.mem_filter.mp hm).1
    refine List.mem_map.mpr ⟨m, hin, ?_⟩
    rw [RegistryMarket.updated, h.all_active hno hget hin hpre]

/-- Two markets at different stages, launched by two boundaries. -/
theorem launch_atomic_pair :
    let market (name : Char) (lifecycle : MarketLifecycle) : RegistryMarket :=
      ⟨[name], [], ⟨['d'], [name], [name]⟩, lifecycle, []⟩
    let v : RegistryVersion := ⟨['v'], ⟨2026, 1, 1, 0, 0, 0, 0, by decide⟩,
      [market 'a' .historyReady, market 'b' .snapshotReady], by decide, by decide, by decide⟩
    let b : BoundaryView := ⟨300000, true, [['a'], ['b']], [], [], fun _ => false, fun _ => some 300000⟩
    let markets := boundaryRun v.markets [(b, true)]
    markets.map RegistryMarket.lifecycle = [.snapshotReady, .snapshotReady]
      ∧ (∀ m ∈ v.markets, m.lifecycle ≠ .active)
      ∧ lifecycleTargetMarkets markets (plannedUpdates b markets) = .ok (boundaryStep markets (b, true))
      ∧ (boundaryStep markets (b, true)).map RegistryMarket.lifecycle = [.active, .active] := by
  intro market v b markets
  have hstart : ∀ m ∈ v.markets, m.lifecycle ≠ .active := by decide
  exact ⟨by decide +kernel, hstart, (launch_atomic v hstart [(b, true)] b).2.1, by decide +kernel⟩

end TraderAssist
