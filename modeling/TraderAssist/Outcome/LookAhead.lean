/-
TraderAssist/Outcome/LookAhead.lean

Later bars and earlier outcomes.

The windows of an evaluation end at the last elapsed minute, so bars that close
later do not reach them.  Two reads are not cut off: the conflicts are those of
the whole required window, and the price of a reverse trade is looked up at the
time of its transition, which may lie after the time of the evaluation.  So later
bars leave an outcome alone exactly if they bring no new conflict into the
required window and keep that price (`lookahead_free_iff`).
-/
import TraderAssist.Outcome.Order

namespace TraderAssist

open Py

variable {δ : Type}

namespace OutcomeEngine

section LookAhead

variable [LinearOrder δ] {sha256 : MinutePayload → δ} {e : OutcomeEngine δ} {s : OutcomeState}
variable {bars : List OneMinuteBar}

/-! ### Conflicts -/

/-- The hashes of the bars for a minute. -/
def hashesAt (sha256 : MinutePayload → δ) (bars : List OneMinuteBar) (m : Text) (o : ℕ) : Finset δ :=
  ((variants bars m o).map (OneMinuteBar.canonicalHash sha256)).toFinset

/-- In every minute the plan requires the bars bring no hash that was not seen, or
there is only one hash still. -/
def AddsNoConflict (sha256 : MinutePayload → δ) (e : OutcomeEngine δ) (s : OutcomeState)
    (bars : List OneMinuteBar) : Prop :=
  ∀ o, s.Requires s.view.marketId o →
    hashesAt sha256 bars s.view.marketId o ⊆ (e.slot s.view.marketId o).seen sha256
      ∨ ((e.slot s.view.marketId o).seen sha256
        ∪ hashesAt sha256 bars s.view.marketId o).card ≤ 1

/-- One bar adds no conflict where nothing was seen. -/
theorem addsNoConflict_single {bar : OneMinuteBar}
    (h : ∀ o, (e.slot s.view.marketId o).seen sha256 = ∅) : AddsNoConflict sha256 e s [bar] := by
  intro o _
  right
  rw [h o]
  refine (List.toFinset_card_le _).trans ?_
  rw [List.length_map]
  exact List.length_filter_le _ _

omit [LinearOrder δ] in
theorem needed_of_requires {id : Text} (hs : e.states.get? id = some s) {m : Text} {o : ℕ}
    (h : s.Requires m o) : e.needed m o = true :=
  needed_iff.mpr ⟨id, s, hs, h⟩

/-- The slot of a required minute after the bars. -/
theorem seen_admitBars (hinv : EngineInv sha256 e) {m : Text} {o : ℕ} (h : e.needed m o = true) :
    ((e.admitBars sha256 bars).slot m o).seen sha256
      = (e.slot m o).seen sha256 ∪ hashesAt sha256 bars m o := by
  rw [slot_admitBars, if_pos h]
  exact (hinv.slots m o).steps.1

theorem conflictRecord_union {seen new : Finset δ}
    (h : new ⊆ seen ∨ (seen ∪ new).card ≤ 1) : conflictRecord (seen ∪ new) = conflictRecord seen := by
  rcases h with h | h
  · rw [Finset.union_eq_left.mpr h]
  · have hle : seen.card ≤ 1 := (Finset.card_le_card Finset.subset_union_left).trans h
    unfold conflictRecord
    rw [if_pos h, if_pos hle]

/-- The hashes an item of the conflicts names. -/
theorem mem_stateConflicts {item : BarConflict δ} (h : item ∈ e.stateConflicts s) :
    ∃ hashes, e.conflicts.get? (s.view.marketId, item.openTimeMs) = some hashes
      ∧ item.retainedHash ∈ hashes ∧ item.conflictingHash ∈ hashes := by
  obtain ⟨⟨⟨m, o⟩, hashes⟩, hent, hitem⟩ := List.mem_flatMap.mp (mem_sortBy.mp h)
  obtain ⟨hmem, hreq⟩ := List.mem_filter.mp hent
  have hmkt : s.view.marketId = m := (of_decide_eq_true hreq).1
  obtain ⟨-, hopen⟩ := mem_conflictsAt hitem
  refine ⟨hashes, ?_, ?_⟩
  · rw [hmkt, hopen]
    exact Dict.mem_entries.mp hmem
  · have hall : ∀ x ∈ sortedSet hashes, x ∈ hashes := fun x hx => mem_sortedSet.mp hx
    unfold conflictsAt at hitem
    generalize sortedSet hashes = ordered at hitem hall
    rcases ordered with - | ⟨retained, others⟩
    · cases hitem
    · obtain ⟨other, hoth, rfl⟩ := List.mem_map.mp hitem
      exact ⟨hall _ (.head _), hall _ (.tail _ hoth)⟩

/-- Every hash in conflict is named. -/
theorem named_of_conflict {hashes : Finset δ} {o : ℕ} (hreq : s.Requires s.view.marketId o)
    (hget : e.conflicts.get? (s.view.marketId, o) = some hashes) (hcard : ¬ hashes.card ≤ 1)
    {x : δ} (hx : x ∈ hashes) : ∃ item ∈ e.stateConflicts s, item.openTimeMs = o
      ∧ (item.retainedHash = x ∨ item.conflictingHash = x) := by
  have hits : ∀ item ∈ conflictsAt s.view.marketId o hashes, item ∈ e.stateConflicts s := by
    intro item hitem
    refine mem_sortBy.mpr (List.mem_flatMap.mpr ⟨((s.view.marketId, o), hashes), ?_, hitem⟩)
    exact List.mem_filter.mpr ⟨Dict.mem_entries.mpr hget, decide_eq_true hreq⟩
  have hx' : x ∈ sortedSet hashes := mem_sortedSet.mpr hx
  have hlen : ¬ (sortedSet hashes).length ≤ 1 := by rwa [length_sortedSet]
  unfold conflictsAt at hits
  generalize sortedSet hashes = ordered at hits hx' hlen
  rcases ordered with - | ⟨retained, - | ⟨other, others⟩⟩
  · cases hx'
  · simp at hlen
  · rcases List.mem_cons.mp hx' with rfl | hx'
    · exact ⟨_, hits _ (List.mem_map.mpr ⟨other, .head _, rfl⟩), rfl, .inl rfl⟩
    · exact ⟨_, hits _ (List.mem_map.mpr ⟨x, hx', rfl⟩), rfl, .inr rfl⟩

/-- **The conflicts of a plan stay the same** exactly if the bars add none. -/
theorem stateConflicts_admitBars_iff (hinv : EngineInv sha256 e) {id : Text}
    (hs : e.states.get? id = some s) : (e.admitBars sha256 bars).stateConflicts s = e.stateConflicts s
      ↔ AddsNoConflict sha256 e s bars := by
  have hinv' := hinv.admitBars bars
  have hconf : ∀ {o}, s.Requires s.view.marketId o →
      (e.admitBars sha256 bars).conflicts.get? (s.view.marketId, o)
        = conflictRecord ((e.slot s.view.marketId o).seen sha256
          ∪ hashesAt sha256 bars s.view.marketId o) := by
    intro o hreq
    rw [← seen_admitBars hinv (needed_of_requires hs hreq)]
    exact (hinv'.slots s.view.marketId o).conflict
  constructor
  · intro heq o hreq
    by_contra hnot
    obtain ⟨hnew, hcard⟩ := not_or.mp hnot
    obtain ⟨x, hx, huns⟩ := Finset.not_subset.mp hnew
    -- a new hash would be named after the bars, and so before them
    have hget := hconf hreq
    rw [conflictRecord, if_neg hcard] at hget
    obtain ⟨item, hitem, rfl, hnamed⟩ := named_of_conflict hreq hget hcard (Finset.mem_union_right _ hx)
    obtain ⟨hashes, hbef, hret, hcon⟩ := mem_stateConflicts (heq ▸ hitem)
    have hseen : (e.slot s.view.marketId item.openTimeMs).seen sha256 = hashes := by
      unfold MinuteSlot.seen slot
      rw [hbef]
      rfl
    rw [hseen] at huns
    rcases hnamed with rfl | rfl
    · exact huns hret
    · exact huns hcon
  · intro hadds
    refine stateConflicts_of_get? s fun m o hreq => ?_
    obtain rfl : s.view.marketId = m := hreq.1
    rw [hconf hreq, conflictRecord_union (hadds o hreq)]
    exact (hinv.slots s.view.marketId o).conflict.symm

/-! ### The price of the reverse trade -/

/-- The retained bars of the plan's market that close by then. -/
def closedBy (e : OutcomeEngine δ) (s : OutcomeState) (time : ℕ) : List OneMinuteBar :=
  (e.marketBars s.view.marketId).values.filter fun bar => bar.closeTimeMs ≤ time

/-- Those of the further bars that are of its market, required and close by then. -/
def furtherBy (e : OutcomeEngine δ) (s : OutcomeState) (bars : List OneMinuteBar) (time : ℕ) :
    List OneMinuteBar :=
  bars.filter fun bar =>
    bar.marketId = s.view.marketId ∧ e.requiresBar bar = true ∧ bar.closeTimeMs ≤ time

/-- Later bars come last, and of one minute the least hash. -/
def latestKey (sha256 : MinutePayload → δ) (bar : OneMinuteBar) : ℕ ×ₗ δᵒᵈ :=
  toLex (bar.closeTimeMs, OrderDual.toDual (bar.canonicalHash sha256))

/-- The bars keep the price of the reverse trade: its transition brings a price of
its own, or the latest bar closed by then has the same close with them. -/
def KeepsReference (sha256 : MinutePayload → δ) (e : OutcomeEngine δ) (s : OutcomeState)
    (bars : List OneMinuteBar) : Prop :=
  s.view.setupFamily = .breakoutRetest → ∀ anchor, s.anchor = some anchor →
    anchor.referencePrice = none →
      (maxBy (latestKey sha256) (e.closedBy s anchor.occurredAtMs
          ++ e.furtherBy s bars anchor.occurredAtMs)).map OneMinuteBar.close
        = (maxBy OneMinuteBar.closeTimeMs (e.closedBy s anchor.occurredAtMs)).map
          OneMinuteBar.close

/-- A retained bar after the bars was retained or is one of them. -/
theorem closedBy_admitBars {time : ℕ} (hinv : EngineInv sha256 e) {bar : OneMinuteBar}
    (h : bar ∈ (e.admitBars sha256 bars).closedBy s time) :
    bar ∈ e.closedBy s time ++ e.furtherBy s bars time := by
  obtain ⟨hmem, hcl⟩ := List.mem_filter.mp h
  obtain ⟨o, ho⟩ := Dict.mem_values.mp hmem
  obtain ⟨hmkt, hopen⟩ := (hinv.admitBars bars).filed s.view.marketId o bar ho
  have hslot : ((e.admitBars sha256 bars).slot s.view.marketId o).retained = some bar := ho
  rw [slot_admitBars] at hslot
  have hold : (e.slot s.view.marketId o).retained = some bar → bar ∈ e.closedBy s time :=
    fun h => List.mem_filter.mpr ⟨Dict.mem_values.mpr ⟨o, h⟩, hcl⟩
  split_ifs at hslot with hneed
  · rcases MinuteSlot.retained_steps hslot with h | h
    · exact List.mem_append_left _ (hold h)
    · refine List.mem_append_right _ (List.mem_filter.mpr ⟨(List.mem_filter.mp h).1, ?_⟩)
      have hreq : e.requiresBar bar = true := by rw [requiresBar, hmkt, hopen, hneed]
      exact decide_eq_true ⟨hmkt, hreq, of_decide_eq_true hcl⟩
  · exact List.mem_append_left _ (hold hslot)

/-- The hash of an old or further bar is seen afterwards. -/
theorem hash_seen {time : ℕ} (hinv : EngineInv sha256 e) {bar : OneMinuteBar}
    (h : bar ∈ e.closedBy s time ++ e.furtherBy s bars time) :
    bar.marketId = s.view.marketId ∧ bar.closeTimeMs ≤ time ∧ bar.canonicalHash sha256
        ∈ ((e.admitBars sha256 bars).slot s.view.marketId bar.openTimeMs).seen sha256 := by
  rcases List.mem_append.mp h with h | h
  · obtain ⟨hmem, hcl⟩ := List.mem_filter.mp h
    obtain ⟨o, ho⟩ := Dict.mem_values.mp hmem
    obtain ⟨hmkt, rfl⟩ := hinv.filed s.view.marketId o bar ho
    have hseen := ((hinv.slots s.view.marketId bar.openTimeMs).least bar ho).1
    refine ⟨hmkt, of_decide_eq_true hcl, ?_⟩
    by_cases hneed : e.needed s.view.marketId bar.openTimeMs = true
    · rw [seen_admitBars hinv hneed]
      exact Finset.mem_union_left _ hseen
    · rw [slot_admitBars, if_neg hneed]
      exact hseen
  · obtain ⟨hmem, hbar⟩ := List.mem_filter.mp h
    obtain ⟨hmkt, hreq, hcl⟩ := of_decide_eq_true hbar
    refine ⟨hmkt, hcl, ?_⟩
    rw [requiresBar, hmkt] at hreq
    rw [seen_admitBars hinv hreq]
    refine Finset.mem_union_right _ (List.mem_toFinset.mpr (List.mem_map.mpr ⟨bar, ?_, rfl⟩))
    exact List.mem_filter.mpr ⟨hmem, decide_eq_true ⟨hmkt, rfl⟩⟩

/-- **The latest bar after the bars.** -/
theorem latest_admitBars (hsha : Function.Injective sha256) (hinv : EngineInv sha256 e) (time : ℕ) :
    maxBy OneMinuteBar.closeTimeMs ((e.admitBars sha256 bars).closedBy s time)
      = maxBy (latestKey sha256) (e.closedBy s time ++ e.furtherBy s bars time) := by
  have hinv' := hinv.admitBars bars
  rcases hmax : maxBy (latestKey sha256) (e.closedBy s time ++ e.furtherBy s bars time) with - | b
  · rw [maxBy_eq_none] at hmax ⊢
    refine List.eq_nil_iff_forall_not_mem.mpr fun x hx => ?_
    simpa [hmax] using closedBy_admitBars hinv hx
  · obtain ⟨hb, hle⟩ := maxBy_spec hmax
    obtain ⟨hmkt, hcl, hseen⟩ := @hash_seen δ _ sha256 e s bars time hinv b hb
    refine (maxBy_eq_some fun x hx y hy => hinv'.closeTimeMs_inj x (List.mem_filter.mp hx).1 y
      (List.mem_filter.mp hy).1).mpr ⟨?_, fun x hx => ?_⟩
    · -- the bar retained for its minute is `b` itself
      have hslot := hinv'.slots s.view.marketId b.openTimeMs
      rcases hr : ((e.admitBars sha256 bars).slot s.view.marketId b.openTimeMs).retained with - | r
      · rw [hslot.empty hr] at hseen
        cases hseen
      · obtain ⟨-, hopen⟩ := hinv'.filed _ _ r hr
        have hrclose : r.closeTimeMs = b.closeTimeMs := by
          rw [OneMinuteBar.closeTimeMs, OneMinuteBar.closeTimeMs, hopen]
        have hrmem : r ∈ (e.admitBars sha256 bars).closedBy s time :=
          List.mem_filter.mpr ⟨Dict.mem_values.mpr ⟨_, hr⟩, decide_eq_true (hrclose ▸ hcl)⟩
        have hkey := hle r (closedBy_admitBars hinv hrmem)
        rw [latestKey, latestKey, hrclose, Prod.Lex.toLex_le_toLex] at hkey
        have hhash : b.canonicalHash sha256 ≤ r.canonicalHash sha256 := by
          rcases hkey with hlt | ⟨-, hdual⟩
          · exact absurd hlt (lt_irrefl _)
          · exact OrderDual.toDual_le_toDual.mp hdual
        have hsame := ((hslot.least r hr).2 _ hseen).antisymm hhash
        rw [← OneMinuteBar.canonicalHash_injective hsha hsame]
        exact hrmem
    · have hkey := hle x (closedBy_admitBars hinv hx)
      rw [latestKey, latestKey, Prod.Lex.toLex_le_toLex] at hkey
      rcases hkey with hlt | ⟨heq, -⟩
      · exact hlt.le
      · exact heq.le

/-- **The price of the reverse trade** stays the same exactly if the bars keep it. -/
theorem reverseEntry_admitBars_iff (hsha : Function.Injective sha256) (hinv : EngineInv sha256 e) :
    (e.admitBars sha256 bars).reverseEntry s = e.reverseEntry s ↔ KeepsReference sha256 e s bars := by
  unfold reverseEntry KeepsReference
  by_cases hfam : s.view.setupFamily = .breakoutRetest
  · rcases ha : s.anchor with - | anchor
    · simp [hfam]
    · rcases hpr : anchor.referencePrice with - | price
      · have hnew : (e.admitBars sha256 bars).transitionReference s anchor
            = (maxBy (latestKey sha256) (e.closedBy s anchor.occurredAtMs
              ++ e.furtherBy s bars anchor.occurredAtMs)).map OneMinuteBar.close := by
          rw [← latest_admitBars hsha hinv]
          simp only [transitionReference, hpr]
          rfl
        have hold : e.transitionReference s anchor
            = (maxBy OneMinuteBar.closeTimeMs (e.closedBy s anchor.occurredAtMs)).map
              OneMinuteBar.close := by
          simp only [transitionReference, hpr]
          rfl
        simp only [hfam, if_true, Option.bind_some, hnew, hold, forall_const, Option.some.injEq,
          forall_eq', hpr]
      · simp [hfam, transitionReference, hpr]
  · simp [hfam]

/-! ### The outcome -/

/-- Bars that close later do not reach an elapsed minute. -/
theorem sameEvidence_later {asOfMs : ℕ} (hltr : ∀ bar ∈ bars, asOfMs < bar.closeTimeMs) :
    SameEvidence (e.admitBars sha256 bars) e s.view.marketId (s.Reads asOfMs) := by
  have hslot : ∀ o, s.Reads asOfMs o →
      (e.admitBars sha256 bars).slot s.view.marketId o = e.slot s.view.marketId o := by
    intro o ho
    have hnone : variants bars s.view.marketId o = [] := by
      refine List.filter_eq_nil_iff.mpr fun bar hbar hkey => ?_
      obtain ⟨-, hopen⟩ := of_decide_eq_true hkey
      have hcl := hltr bar hbar
      have hal := bar.open_aligned
      have hfloor := ho.1
      simp only [OneMinuteBar.closeTimeMs, floorMinute, oneMinuteMs] at hcl hal hfloor
      omega
    rw [slot_admitBars, hnone]
    split_ifs <;> rfl
  exact ⟨fun o ho => congrArg MinuteSlot.retained (hslot o ho),
    fun o ho => congrArg (fun slot => slot.conflict.isSome) (hslot o ho)⟩

/-- **Look-ahead.**  In every engine of a run, bars that close after a time leave
the outcome of a plan at that time as it was exactly if they add no conflict to
its required window and keep the price of its reverse trade. -/
theorem lookahead_free_iff (hsha : Function.Injective sha256) (ops : List Op) {id : Text}
    (hs : (run sha256 {} ops).states.get? id = some s) {asOfMs : ℕ}
    (hlater : ∀ bar ∈ bars, asOfMs < bar.closeTimeMs) :
    ((run sha256 {} ops).admitBars sha256 bars).evaluate id asOfMs = (run sha256 {} ops).evaluate id asOfMs
      ↔ AddsNoConflict sha256 (run sha256 {} ops) s bars
        ∧ KeepsReference sha256 (run sha256 {} ops) s bars := by
  have hinv : EngineInv sha256 (run sha256 {} ops) := EngineInv.start.run ops
  rw [evaluate_attached hs, evaluate_attached (by rw [states_admitBars, hs]), Except.ok.injEq,
    outcomeOf_eq_iff (sameEvidence_later hlater), reverseEntry_admitBars_iff hsha hinv,
    stateConflicts_admitBars_iff hinv hs]
  exact and_comm

end LookAhead

/-! ### Later bars that change an outcome -/

/-- The breakout of plan `s` fails at minute 10, without a price. -/
def failsAtTen : Op :=
  .admitTransition
    { transitionId := ['t']
      shadowOrderId := ['s']
      marketId := ['M']
      kind := .failedBreakout
      occurredAtMs := 600000
      occurred_aligned := by decide } 600000

/-- A plan from minute 0 whose breakout failed. -/
def failedPlan : List Op := [.attach (breakoutPlan ['s'] 0), failsAtTen]

/-- **Later bars change an outcome.**  At minute 1 the outcome of the plan has no
conflicts, and after two variants of minute 5 it has one.  At minute 1 its reverse
trade has no price, and after the bar of minute 8 it has one. -/
theorem later_bars_change_outcome : (∀ bar ∈ [flatBar 5 99, flatBar 5 100], 60000 < bar.closeTimeMs)
      ∧ ((run MinutePayload.fields {} [.attach (breakoutPlan ['s'] 0)]).admitBars
          MinutePayload.fields [flatBar 5 99, flatBar 5 100]).evaluate ['s'] 60000
        ≠ (run MinutePayload.fields {} [.attach (breakoutPlan ['s'] 0)]).evaluate ['s'] 60000
      ∧ 60000 < (flatBar 8 99).closeTimeMs ∧ ((run MinutePayload.fields {} failedPlan).admitBars
          MinutePayload.fields [flatBar 8 99]).evaluate ['s'] 60000
        ≠ (run MinutePayload.fields {} failedPlan).evaluate ['s'] 60000 := by
  refine ⟨by decide +kernel, fun heq => ?_, by decide +kernel, fun heq => ?_⟩
  · have hconflicts := congrArg (fun r => r.toOption.map fun outcome => outcome.conflicts.length) heq
    revert hconflicts
    decide +kernel
  · have hentry := congrArg (fun r => r.toOption.bind fun outcome =>
      outcome.research.bind FailedBreakoutResearch.reverseEntry) heq
    revert hentry
    decide +kernel

/-- One bar for a later minute changes nothing. -/
theorem lookahead_free_single : 60000 < (flatBar 5 99).closeTimeMs
      ∧ ((run MinutePayload.fields {} [.attach (breakoutPlan ['s'] 0)]).admitBars
          MinutePayload.fields [flatBar 5 99]).evaluate ['s'] 60000
        = (run MinutePayload.fields {} [.attach (breakoutPlan ['s'] 0)]).evaluate ['s'] 60000 := by
  refine ⟨by decide +kernel, ?_⟩
  refine (lookahead_free_iff MinutePayload.fields_injective [.attach (breakoutPlan ['s'] 0)]
    (s := { view := breakoutPlan ['s'] 0 }) rfl (by decide +kernel)).mpr
      ⟨addsNoConflict_single fun o => rfl, fun _ anchor hanchor => ?_⟩
  cases hanchor

end OutcomeEngine

end TraderAssist
