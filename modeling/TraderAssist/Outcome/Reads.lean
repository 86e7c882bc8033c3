/-
TraderAssist/Outcome/Reads.lean

What an evaluation reads.

At a time an evaluation of a plan reads the bars and conflicts of the elapsed
minutes of its windows (`OutcomeState.Reads`), the price its reverse trade is
anchored at, and the conflicts of the whole required window.  Two engines that
agree on these give the plan the same outcome, and if the first agrees then the
other two are also necessary (`outcomeOf_eq_iff`).
-/
import TraderAssist.Outcome.Engine

namespace TraderAssist

open Py

variable {δ : Type}

/-! ### Windows -/

theorem mem_expectedOpens {startMs endMs o : ℕ} (h : o ∈ expectedOpens startMs endMs) :
    startMs ≤ o ∧ o < endMs := by
  obtain ⟨i, hi, rfl⟩ := List.mem_map.mp h
  have hi := List.mem_range.mp hi
  simp only [oneMinuteMs] at hi ⊢
  omega

/-- A window that is over is elapsed. -/
theorem expectedOpens_elapsed {startMs endMs asOfMs : ℕ} (hal : endMs % oneMinuteMs = 0)
    (hover : endMs ≤ asOfMs) :
    expectedOpens startMs endMs = expectedOpens startMs (elapsedEnd startMs endMs asOfMs) := by
  unfold elapsedEnd
  split_ifs with hbeg
  · unfold expectedOpens
    have hcnt : (endMs - startMs + (oneMinuteMs - 1)) / oneMinuteMs
        = (startMs - startMs + (oneMinuteMs - 1)) / oneMinuteMs := by
      simp only [oneMinuteMs]
      omega
    rw [hcnt]
  · have hmin : min endMs (floorMinute asOfMs) = endMs := by
      simp only [floorMinute, oneMinuteMs] at hal ⊢
      omega
    rw [hmin]

/-- The minutes of which an evaluation reads the bar and whether it is in
conflict. -/
def OutcomeState.Reads (s : OutcomeState) (asOfMs o : ℕ) : Prop :=
  o < floorMinute asOfMs
    ∧ ((s.view.outcomeStartMs ≤ o ∧ o < s.requiredEnd)
      ∨ ∃ anchor ∈ s.anchor, anchor.occurredAtMs ≤ o
        ∧ o < anchor.occurredAtMs + 120 * oneMinuteMs)

/-- The same bars and the same minutes in conflict, among some minutes. -/
structure SameEvidence (e e' : OutcomeEngine δ) (marketId : Text) (P : ℕ → Prop) : Prop where
  bars : ∀ o, P o → (e.marketBars marketId).get? o = (e'.marketBars marketId).get? o
  conflicts : ∀ o, P o → e.conflicts.has (marketId, o) = e'.conflicts.has (marketId, o)

namespace OutcomeEngine

variable {e e' : OutcomeEngine δ} {P : ℕ → Prop} {startMs endMs : ℕ} {marketId : Text}

theorem conflictIn_iff : e.conflictIn marketId startMs endMs = true
      ↔ ∃ o, startMs ≤ o ∧ o < endMs ∧ e.conflicts.has (marketId, o) = true := by
  unfold conflictIn
  rw [List.any_eq_true]
  constructor
  · rintro ⟨⟨m, o⟩, hmem, hkey⟩
    simp only [decide_eq_true_eq] at hkey
    obtain ⟨rfl, hs, he⟩ := hkey
    exact ⟨o, hs, he, Dict.has_eq_true.mpr (Dict.mem_keys.mp hmem)⟩
  · rintro ⟨o, hs, he, hhas⟩
    exact ⟨(marketId, o), Dict.mem_keys.mpr (Dict.has_eq_true.mp hhas), by simp [hs, he]⟩

theorem conflictIn_congr (h : SameEvidence e e' marketId P)
    (hP : ∀ o, startMs ≤ o → o < endMs → P o) :
    e.conflictIn marketId startMs endMs = e'.conflictIn marketId startMs endMs := by
  rw [Bool.eq_iff_iff, conflictIn_iff, conflictIn_iff]
  refine exists_congr fun o => and_congr_right fun hs => and_congr_right fun he => ?_
  rw [h.conflicts o (hP o hs he)]

theorem missingIn_congr (h : SameEvidence e e' marketId P)
    (hP : ∀ o, startMs ≤ o → o < endMs → P o) :
    e.missingIn marketId startMs endMs = e'.missingIn marketId startMs endMs := by
  unfold missingIn
  rw [Bool.eq_iff_iff, List.any_eq_true, List.any_eq_true]
  refine exists_congr fun o => and_congr_right fun ho => ?_
  obtain ⟨hs, he⟩ := mem_expectedOpens ho
  rw [Dict.has, Dict.has, h.bars o (hP o hs he)]

section Window

variable {s : OutcomeState} {startMs endMs asOfMs : ℕ}

theorem windowStatus_congr (h : SameEvidence e e' s.view.marketId P) (hal : endMs % oneMinuteMs = 0)
    (hP : ∀ o, startMs ≤ o → o < elapsedEnd startMs endMs asOfMs → P o) :
    e.windowStatus s startMs endMs asOfMs = e'.windowStatus s startMs endMs asOfMs := by
  have hmiss := missingIn_congr h hP
  have hwh : ¬ asOfMs < endMs →
      e.missingIn s.view.marketId startMs endMs = e'.missingIn s.view.marketId startMs endMs := by
    intro hover
    unfold missingIn at hmiss ⊢
    rw [expectedOpens_elapsed hal (not_lt.mp hover)]
    exact hmiss
  unfold windowStatus
  dsimp only
  rw [conflictIn_congr h hP, hmiss]
  by_cases hover : asOfMs < endMs
  · rw [if_pos hover, if_pos hover]
  · rw [if_neg hover, if_neg hover, hwh hover]

theorem usableBars_congr (h : SameEvidence e e' s.view.marketId P) (hal : endMs % oneMinuteMs = 0)
    (hP : ∀ o, startMs ≤ o → o < elapsedEnd startMs endMs asOfMs → P o) :
    e.usableBars s startMs endMs asOfMs = e'.usableBars s startMs endMs asOfMs := by
  unfold usableBars
  dsimp only
  rw [windowStatus_congr h hal hP]
  split_ifs
  · rfl
  · refine List.filterMap_congr fun o ho => ?_
    obtain ⟨hs, he⟩ := mem_expectedOpens ho
    exact h.bars o (hP o hs he)

end Window

/-! ### The windows of an evaluation -/

end OutcomeEngine

theorem elapsedEnd_le_floor {startMs endMs asOfMs o : ℕ} (hs : startMs ≤ o)
    (ho : o < elapsedEnd startMs endMs asOfMs) : o < floorMinute asOfMs ∧ o < endMs := by
  unfold elapsedEnd at ho
  split_ifs at ho <;> omega

namespace OutcomeState

variable {s : OutcomeState}

theorem deadline_le_requiredEnd (s : OutcomeState) : s.view.originalDeadlineMs ≤ s.requiredEnd := by
  have hfold : ∀ (l : List OutcomeTransitionView) (x : ℕ),
      x ≤ l.foldl (fun endMs transition => if transition.kind.extending then
        max endMs (transition.occurredAtMs + 120 * oneMinuteMs) else endMs) x := by
    intro l
    induction l with
    | nil => exact fun x => le_rfl
    | cons t l ih =>
      intro x
      refine le_trans ?_ (ih _)
      dsimp only
      split_ifs
      · exact le_max_left _ _
      · exact le_rfl
  unfold requiredEnd
  split_ifs
  · exact hfold _ _
  · exact le_rfl

theorem deadline_aligned (s : OutcomeState) : s.view.originalDeadlineMs % oneMinuteMs = 0 := by
  have hbeg := s.view.start_aligned
  simp only [FormalShadowView.originalDeadlineMs, oneMinuteMs] at hbeg ⊢
  omega

theorem requiredEnd_aligned (s : OutcomeState) : s.requiredEnd % oneMinuteMs = 0 := by
  have hfold : ∀ (l : List OutcomeTransitionView) (x : ℕ), x % oneMinuteMs = 0 →
      (l.foldl (fun endMs transition => if transition.kind.extending then
        max endMs (transition.occurredAtMs + 120 * oneMinuteMs) else endMs) x) % oneMinuteMs = 0 := by
    intro l
    induction l with
    | nil => exact fun x hx => hx
    | cons t l ih =>
      intro x hx
      refine ih _ ?_
      have ht := t.occurred_aligned
      dsimp only
      split_ifs
      · rcases max_choice x (t.occurredAtMs + 120 * oneMinuteMs) with h | h
        · rw [h]
          exact hx
        · rw [h]
          simp only [oneMinuteMs] at ht ⊢
          omega
      · exact hx
  unfold requiredEnd
  split_ifs
  · exact hfold _ _ s.deadline_aligned
  · exact s.deadline_aligned

/-- A window of the plan itself. -/
theorem reads_of_required {endMs asOfMs : ℕ} (hend : endMs ≤ s.requiredEnd) (o : ℕ)
    (hs : s.view.outcomeStartMs ≤ o) (ho : o < elapsedEnd s.view.outcomeStartMs endMs asOfMs) :
    s.Reads asOfMs o := by
  obtain ⟨hfloor, hlt⟩ := elapsedEnd_le_floor hs ho
  exact ⟨hfloor, .inl ⟨hs, hlt.trans_le hend⟩⟩

/-- A window of the reverse trade. -/
theorem reads_of_anchor {anchor : OutcomeTransitionView} (ha : s.anchor = some anchor)
    {endMs asOfMs : ℕ} (hend : endMs ≤ anchor.occurredAtMs + 120 * oneMinuteMs) (o : ℕ)
    (hs : anchor.occurredAtMs ≤ o) (ho : o < elapsedEnd anchor.occurredAtMs endMs asOfMs) :
    s.Reads asOfMs o := by
  obtain ⟨hfloor, hlt⟩ := elapsedEnd_le_floor hs ho
  exact ⟨hfloor, .inr ⟨anchor, ha, hs, hlt.trans_le hend⟩⟩

end OutcomeState

namespace OutcomeEngine

variable {e e' : OutcomeEngine δ} {s : OutcomeState} {asOfMs : ℕ}

/-- The price of the reverse trade. -/
def reverseEntry (e : OutcomeEngine δ) (s : OutcomeState) : Option ℚ :=
  if s.view.setupFamily = .breakoutRetest then s.anchor.bind (e.transitionReference s) else none

section Reads

variable (h : SameEvidence e e' s.view.marketId (s.Reads asOfMs))

include h

theorem required_congr {endMs : ℕ} (hend : endMs ≤ s.requiredEnd) (hal : endMs % oneMinuteMs = 0) :
    e.windowStatus s s.view.outcomeStartMs endMs asOfMs = e'.windowStatus s s.view.outcomeStartMs endMs asOfMs
      ∧ e.usableBars s s.view.outcomeStartMs endMs asOfMs
        = e'.usableBars s s.view.outcomeStartMs endMs asOfMs :=
  ⟨windowStatus_congr h hal (s.reads_of_required hend),
    usableBars_congr h hal (s.reads_of_required hend)⟩

theorem horizon_congr {minutes : ℕ} (hm : minutes ≤ 120) :
    e.horizon s asOfMs minutes = e'.horizon s asOfMs minutes := by
  have hend : s.view.outcomeStartMs + minutes * oneMinuteMs ≤ s.requiredEnd := by
    refine le_trans ?_ s.deadline_le_requiredEnd
    simp only [FormalShadowView.originalDeadlineMs, oneMinuteMs]
    omega
  have hal : (s.view.outcomeStartMs + minutes * oneMinuteMs) % oneMinuteMs = 0 := by
    rw [Nat.add_mul_mod_self_right]
    exact s.view.start_aligned
  obtain ⟨hstat, hbars⟩ := required_congr h hend hal
  unfold horizon
  simp only [hstat, hbars]

theorem reverseHorizons_congr {anchor : OutcomeTransitionView} (ha : s.anchor = some anchor)
    (entry : ℚ) : e.reverseHorizons s anchor.occurredAtMs entry asOfMs
      = e'.reverseHorizons s anchor.occurredAtMs entry asOfMs := by
  refine List.map_congr_left fun minutes hm => ?_
  have hle : minutes ≤ 120 := by
    simp only [outcomeHorizonsMinutes, List.mem_cons, List.not_mem_nil, or_false] at hm
    omega
  have hend : anchor.occurredAtMs + minutes * oneMinuteMs ≤ anchor.occurredAtMs + 120 * oneMinuteMs :=
    Nat.add_le_add_left (Nat.mul_le_mul_right _ hle) _
  have hal : (anchor.occurredAtMs + minutes * oneMinuteMs) % oneMinuteMs = 0 := by
    rw [Nat.add_mul_mod_self_right]
    exact anchor.occurred_aligned
  simp only [windowStatus_congr h hal (s.reads_of_anchor ha hend),
    usableBars_congr h hal (s.reads_of_anchor ha hend)]

/-- The research differs in nothing but the price of the reverse trade. -/
theorem failedBreakoutResearch_congr (hent : e.reverseEntry s = e'.reverseEntry s) :
    e.failedBreakoutResearch s asOfMs = e'.failedBreakoutResearch s asOfMs := by
  have horig := (required_congr h s.deadline_le_requiredEnd s.deadline_aligned).2
  have hreq := (required_congr h le_rfl s.requiredEnd_aligned).2
  unfold failedBreakoutResearch
  unfold reverseEntry at hent
  by_cases hfam : s.view.setupFamily = .breakoutRetest
  · rw [if_pos hfam, if_pos hfam] at hent
    simp only [horig, hreq, hent]
    rcases ha : s.anchor with - | anchor
    · rfl
    · generalize (some anchor).bind (e'.transitionReference s) = entry
      rcases entry with - | entry
      · rfl
      · simp only [reverseHorizons_congr h ha]
  · simp only [hfam, ne_eq, not_false_eq_true, if_true]

end Reads

theorem research_reverseEntry (e : OutcomeEngine δ) (s : OutcomeState) (asOfMs : ℕ) :
    (e.failedBreakoutResearch s asOfMs).bind FailedBreakoutResearch.reverseEntry = e.reverseEntry s := by
  unfold failedBreakoutResearch reverseEntry
  by_cases hfam : s.view.setupFamily = .breakoutRetest <;> simp [hfam]

theorem evaluate_attached [LinearOrder δ] {id : Text} (h : e.states.get? id = some s) (asOfMs : ℕ) :
    e.evaluate id asOfMs = .ok (e.outcomeOf s asOfMs) := by
  simp only [evaluate, stateOf, h, bind, Except.bind, pure, Except.pure]

theorem evaluate_unattached [LinearOrder δ] {id : Text} (h : e.states.get? id = none) (asOfMs : ℕ) :
    e.evaluate id asOfMs = .error .notAttached := by
  simp only [evaluate, stateOf, h, bind, Except.bind]

/-- **What an outcome depends on.**  With the same evidence where the plan reads
it, two engines give the same outcome iff they have the same price for the
reverse trade and the same conflicts in the required window. -/
theorem outcomeOf_eq_iff [LinearOrder δ] (h : SameEvidence e e' s.view.marketId (s.Reads asOfMs)) :
    e.outcomeOf s asOfMs = e'.outcomeOf s asOfMs
      ↔ e.reverseEntry s = e'.reverseEntry s ∧ e.stateConflicts s = e'.stateConflicts s := by
  constructor
  · intro heq
    refine ⟨?_, congrArg FormalShadowOutcome.conflicts heq⟩
    have hres : e.failedBreakoutResearch s asOfMs = e'.failedBreakoutResearch s asOfMs :=
      congrArg FormalShadowOutcome.research heq
    rw [← research_reverseEntry e s asOfMs, hres, research_reverseEntry]
  · rintro ⟨hent, hconf⟩
    obtain ⟨hstat, hbars⟩ := required_congr h s.deadline_le_requiredEnd s.deadline_aligned
    have hreq := (required_congr h le_rfl s.requiredEnd_aligned).1
    have hhor : outcomeHorizonsMinutes.map (e.horizon s asOfMs)
        = outcomeHorizonsMinutes.map (e'.horizon s asOfMs) := by
      refine List.map_congr_left fun minutes hm => horizon_congr h ?_
      simp only [outcomeHorizonsMinutes, List.mem_cons, List.not_mem_nil, or_false] at hm
      omega
    unfold outcomeOf
    simp only [hstat, hbars, hreq, hhor, hconf, failedBreakoutResearch_congr h hent]

end OutcomeEngine

end TraderAssist
