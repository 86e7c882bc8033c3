/-
TraderAssist/Kernel/Passes.lean

What each pass of a call can do to the ledger, said once.

Events change by `Evolves`: not at all, or from ACTIVE with the origin kept.
A ledger changes by `Extends`: its events evolve in place and new ones follow.
The loops that replace events are `each` over the events
(`progressLoop_eq`, `opposeLoop_eq`, `dataInvalidLoop_eq`); a creation round
either does nothing or clears its slot and appends (`createStep_cases`).
-/
import TraderAssist.Kernel.Progress

namespace TraderAssist

open Py

variable {δ : Type} {e e' : MarketEvent δ} {l : EventLedger δ} {pass pass' : Pass δ} {f : SetupFamily}
variable {i : ℕ}

/-! ### Evolution of events and ledgers -/

/-- Unchanged, or changed from ACTIVE with the origin kept. -/
def Evolves (e e' : MarketEvent δ) : Prop :=
  e' = e ∨ e.status = .active ∧ e'.origin = e.origin

namespace Evolves

theorem refl (e : MarketEvent δ) : Evolves e e := .inl rfl

theorem trans {e e' e'' : MarketEvent δ} (h : Evolves e e') (h' : Evolves e' e'') : Evolves e e'' := by
  rcases h with rfl | ⟨ha, ho⟩
  · exact h'
  · rcases h' with rfl | ⟨-, ho'⟩
    · exact .inr ⟨ha, ho⟩
    · exact .inr ⟨ha, ho'.trans ho⟩

theorem origin_eq (h : Evolves e e') : e'.origin = e.origin := by
  rcases h with rfl | ⟨-, ho⟩
  · rfl
  · exact ho

theorem active (h : Evolves e e') (ha : e'.status = .active) : e.status = .active := by
  rcases h with rfl | ⟨hact, -⟩
  · exact ha
  · exact hact

variable {e : MarketEvent δ}

theorem conclude (ha : e.status = .active) (st : EventStatus) (tr : Transition)
    (bar : Bar) : Evolves e (e.conclude st tr bar) := .inr ⟨ha, rfl⟩

end Evolves

theorem forall₂_evolves_set
    (hi : l[i]? = some e) (h : Evolves e e') : List.Forall₂ Evolves l (l.set i e') :=
  forall₂_set (fun e _ => .refl e) hi h

/-- The events of the first ledger evolve in place; new events follow. -/
def Extends (l l' : EventLedger δ) : Prop :=
  ∃ kept added, l' = kept ++ added ∧ List.Forall₂ Evolves l kept

namespace Extends

theorem of_forall₂ {l l' : EventLedger δ} (h : List.Forall₂ Evolves l l') : Extends l l' :=
  ⟨l', [], by simp, h⟩

theorem refl (l : EventLedger δ) : Extends l l :=
  of_forall₂ (List.forall₂_same.mpr fun e _ => .refl e)

theorem append (l added : EventLedger δ) : Extends l (l ++ added) :=
  ⟨l, added, rfl, List.forall₂_same.mpr fun e _ => .refl e⟩

theorem set (hi : l[i]? = some e)
    (h : Evolves e e') : Extends l (l.set i e') :=
  of_forall₂ (forall₂_evolves_set hi h)

/-- Evolving twice, the second time in front of further events. -/
theorem forall₂_trans {l kept : EventLedger δ} (h : List.Forall₂ Evolves l kept) :
    ∀ {added final : EventLedger δ}, List.Forall₂ Evolves (kept ++ added) final →
      ∃ kept' added', final = kept' ++ added' ∧ List.Forall₂ Evolves l kept' := by
  induction h with
  | nil => exact fun {_ final} _ => ⟨[], final, rfl, .nil⟩
  | cons hx _ ih =>
    intro added final hf
    obtain ⟨e'', final', hy, hrest, rfl⟩ := List.forall₂_cons_left_iff.mp hf
    obtain ⟨kept', added', rfl, hk⟩ := ih hrest
    exact ⟨e'' :: kept', added', rfl, .cons (hx.trans hy) hk⟩

theorem trans {l l' l'' : EventLedger δ} (h : Extends l l') (h' : Extends l' l'') : Extends l l'' := by
  obtain ⟨kept, added, rfl, hk⟩ := h
  obtain ⟨final, added'', rfl, hf⟩ := h'
  obtain ⟨kept', added', rfl, hk'⟩ := forall₂_trans hk hf
  exact ⟨kept', added' ++ added'', by simp, hk'⟩

end Extends

/-! ### The replacing loops -/

section Loops

variable [DecidableEq δ]

theorem progressLoop_eq (bar : Bar) (ledger : EventLedger δ) (found : Findings δ) :
    eachReplace .replacementFailed (progressEvent bar) absorbProgress ledger found
      = each (progressEvent bar) absorbProgress ledger found :=
  eachReplace_eq_each (fun _ _ _ h => progressEvent_ne h) ledger found

omit [DecidableEq δ] in
theorem conclude_ne_of_active (hact : e.status = .active)
    {st : EventStatus} (hst : st ≠ .active) (tr : Transition) (bar : Bar) : e.conclude st tr bar ≠ e := by
  intro heq
  have : (e.conclude st tr bar).status = .active := by rw [heq]; exact hact
  exact hst this

omit [DecidableEq δ] in
theorem opposeEvent_cases {formal e e' : MarketEvent δ} {d : StrategyDecision δ}
    (h : opposeEvent formal e = .ok (some (e', d))) : opposedBy formal e = true ∧ e.status = .active
      ∧ e' = e.conclude .invalidated .invalidatedByOppositeFormalEvent formal.latestBar
      ∧ decisionOf e' .invalidated .oppositeFormalEvent e'.transition = .ok d := by
  unfold opposeEvent at h
  split_ifs at h with hopp
  · obtain ⟨d', hd, h⟩ := of_bind h
    cases h
    have hact : e.status = .active := by
      simp only [opposedBy, decide_eq_true_eq] at hopp
      exact hopp.2.2.1
    exact ⟨hopp, hact, rfl, hd⟩
  · simp at h

theorem opposeLoop_eq (formal : MarketEvent δ) (ledger : EventLedger δ)
    (decisions : List (StrategyDecision δ)) :
    eachReplace .replacementFailed (opposeEvent formal) (fun ds d => ds ++ [d]) ledger decisions
      = each (opposeEvent formal) (fun ds d => ds ++ [d]) ledger decisions := by
  refine eachReplace_eq_each (fun e e' d h => ?_) ledger decisions
  obtain ⟨-, hact, rfl, -⟩ := opposeEvent_cases h
  exact conclude_ne_of_active hact (by decide) _ _

omit [DecidableEq δ] in
theorem dataInvalidEvent_cases {bar : Bar} {d : StrategyDecision δ}
    (h : dataInvalidEvent bar e = .ok (some (e', d))) :
    e.status = .active ∧ e' = e.conclude .dataInvalid .coreDataInvalid bar
      ∧ decisionOf e' .dataInvalid .multitimeframeDataInvalid e'.transition = .ok d := by
  unfold dataInvalidEvent at h
  split_ifs at h with hact
  · obtain ⟨d', hd, h⟩ := of_bind h
    cases h
    exact ⟨hact, rfl, hd⟩
  · simp at h

theorem dataInvalidLoop_eq (bar : Bar) (ledger : EventLedger δ) (decisions : List (StrategyDecision δ)) :
    eachReplace .replacementFailed (dataInvalidEvent bar) (fun ds d => ds ++ [d]) ledger decisions
      = each (dataInvalidEvent bar) (fun ds d => ds ++ [d]) ledger decisions := by
  refine eachReplace_eq_each (fun e e' d h => ?_) ledger decisions
  obtain ⟨hact, rfl, -⟩ := dataInvalidEvent_cases h
  exact conclude_ne_of_active hact (by decide) _ _

end Loops

/-! ### The newest ACTIVE event of a slot -/

/-- Market, family and side: there may be one ACTIVE event for each. -/
def MarketEvent.slot (e : MarketEvent δ) : Text × SetupFamily × Side :=
  (e.marketId, e.setupFamily, e.side)

theorem slot_eq_of_origin (h : e'.origin = e.origin) : e'.slot = e.slot :=
  congrArg (fun o : Origin δ => (o.marketId, o.setupFamily, o.side)) h

theorem MarketEvent.activeIn_iff {m : Text} {s : Side} :
    e.activeIn m f s = true ↔ e.slot = (m, f, s) ∧ e.status = .active := by
  simp [MarketEvent.activeIn, MarketEvent.slot, and_assoc]

theorem active_eq_none {m : Text} {s : Side} :
    l.active m f s = none ↔ ∀ e ∈ l, e.slot = (m, f, s) → e.status ≠ .active := by
  unfold EventLedger.active
  rw [List.find?_eq_none]
  constructor
  · intro h e he hslot hact
    obtain ⟨i, hi⟩ := List.mem_iff_getElem?.mp he
    have hmem : (e, i) ∈ l.zipIdx.reverse := List.mem_reverse.mpr (List.mem_zipIdx_iff_getElem?.mpr hi)
    exact h _ hmem (MarketEvent.activeIn_iff.mpr ⟨hslot, hact⟩)
  · rintro h ⟨e, i⟩ hp hact
    obtain ⟨hslot, hactive⟩ := MarketEvent.activeIn_iff.mp hact
    have hi := List.mem_zipIdx_iff_getElem?.mp (List.mem_reverse.mp hp)
    exact h e (List.mem_of_getElem? hi) hslot hactive

theorem active_eq_some {m : Text} {s : Side}
    (h : l.active m f s = some (e, i)) :
    l[i]? = some e ∧ e.slot = (m, f, s) ∧ e.status = .active := by
  have hmem := List.mem_reverse.mp (List.mem_of_find?_eq_some h)
  have hact := List.find?_some h
  exact ⟨List.mem_zipIdx_iff_getElem?.mp hmem, MarketEvent.activeIn_iff.mp hact⟩

/-! ### Creation rounds -/

section Creation

variable [DecidableEq δ]

/-- The slot of a creation round is free, or its event gives way to one in
another zone. -/
inductive Cleared (bar : Bar) (family : SetupFamily) (side : Side) (zoneId : δ) (pass : Pass δ) :
    Pass δ → Prop
  | free (h : pass.1.active bar.marketId family side = none) :
      Cleared bar family side zoneId pass pass
  | superseded {e : MarketEvent δ} {i : ℕ} {d : StrategyDecision δ}
      (h : pass.1.active bar.marketId family side = some (e, i))
      (hzone : e.zone.zoneId ≠ zoneId)
      (hd : decisionOf (e.conclude .superseded .supersededByNewIndependentEvent bar) .superseded
        .supersededByNewIndependentEvent .supersededByNewIndependentEvent = .ok d) :
      Cleared bar family side zoneId pass
        (pass.1.set i (e.conclude .superseded .supersededByNewIndependentEvent bar),
          { pass.2 with decisions := pass.2.decisions ++ [d] })

theorem appendEvent_cases {kind : DecisionKind} {reason : Reason}
    {event : MarketEvent δ} (h : appendEvent kind reason pass event = .ok pass') :
    (containsEventId pass.1 event.marketEventId event.setupFamily = true ∧ pass' = pass)
      ∨ (containsEventId pass.1 event.marketEventId event.setupFamily = false
        ∧ ∃ d, decisionOf event kind reason event.transition = .ok d
          ∧ pass' = (pass.1 ++ [event],
              { pass.2 with
                confirmedEvents := pass.2.confirmedEvents
                  ++ if kind = .formalSetupConfirmed then [event] else []
                decisions := pass.2.decisions ++ [d] })) := by
  unfold appendEvent at h
  by_cases hc : containsEventId pass.1 event.marketEventId event.setupFamily = true
  · rw [if_pos hc] at h
    cases h
    exact .inl ⟨hc, rfl⟩
  · rw [if_neg hc] at h
    obtain ⟨d, hd, h⟩ := of_bind h
    cases h
    exact .inr ⟨by simpa using hc, d, hd, rfl⟩

theorem appendEvent_ne_error {kind : DecisionKind} {reason : Reason} {pass : Pass δ}
    {event : MarketEvent δ} {err : KernelError}
    (hd : ∃ d, decisionOf event kind reason event.transition = .ok d) :
    appendEvent kind reason pass event ≠ .error err := by
  intro h
  obtain ⟨d, hd⟩ := hd
  unfold appendEvent at h
  by_cases hc : containsEventId pass.1 event.marketEventId event.setupFamily = true
  · rw [if_pos hc] at h
    cases h
  · rw [if_neg hc, hd] at h
    cases h

/-- Replacing the event at a position by one with another status is never the
identity. -/
theorem replaceAt_isOk (hi : l[i]? = some e)
    (hne : e' ≠ e) : replaceAt l i e' = .ok (l.set i e') := by
  unfold replaceAt
  rw [if_neg]
  intro heq
  have hi' : (l.set i e')[i]? = some e := by rw [heq]; exact hi
  have hlt : i < l.length := (List.getElem?_eq_some_iff.mp hi).1
  rw [List.getElem?_set_self hlt] at hi'
  exact hne (Option.some.inj hi')

/-- The linkage a creation round looks up. -/
def linkageFor (bar : Bar) (pass : Pass δ) (spec : CreationSpec δ) (zone : ZoneSnapshot δ) :
    Option (BreakoutLinkage δ) :=
  pass.2.acceptedReentries.lookup (zone.zoneId, spec.side, bar.marketId)

/-- **What a creation round can do**: nothing, or clear its slot and append. -/
theorem createStep_cases {bar : Bar} {spec : CreationSpec δ} :
    Sat (createStep bar pass spec)
      (fun pass' => pass' = pass ∨ ∃ zone base, spec.zone = some zone
        ∧ eligible zone spec.requiredType = true ∧ (spec.family, spec.side) ∉ pass.2.creationBlocked
        ∧ spec.candidate zone = .ok true ∧ Cleared bar spec.family spec.side zone.zoneId pass base
        ∧ appendEvent .wait spec.reason base (spec.newEvent zone (linkageFor bar pass spec zone))
          = .ok pass')
      fun err => ∃ zone, spec.candidate zone = .error err
        ∨ (∃ e i, pass.1.active bar.marketId spec.family spec.side = some (e, i)
          ∧ supersedeForNewZone pass.1 i e bar = .error err)
        ∨ ∃ linkage base, appendEvent .wait spec.reason base (spec.newEvent zone linkage) = .error err := by
  unfold createStep
  split
  · exact .inl rfl
  · rename_i zone hzone
    split_ifs with helig hblk
    · exact .inl rfl
    · exact .inl rfl
    · refine Sat.bind (Sat.self fun err herr => ⟨zone, .inl herr⟩) fun fires hcand => ?_
      simp only [Bool.not_eq_true, Bool.not_eq_false'] at helig
      split
      · rename_i e i hactive
        split_ifs with hstay
        · exact .inl rfl
        · simp only [not_or, Bool.not_eq_true, Bool.not_eq_false'] at hstay
          obtain ⟨hne, rfl⟩ := hstay
          refine Sat.bind (Sat.self fun err herr => ⟨zone, .inr (.inl ⟨e, i, hactive, herr⟩)⟩)
            fun cleared hsup => ?_
          refine (Sat.self fun err herr => ⟨zone, .inr (.inr ⟨_, _, herr⟩)⟩).weaken fun _ happ => ?_
          obtain ⟨hi, -, hact⟩ := active_eq_some hactive
          obtain ⟨ledger, hrep, hsup⟩ := of_bind hsup
          rw [replaceAt_isOk hi (conclude_ne_of_active hact (by decide) _ _)] at hrep
          cases hrep
          obtain ⟨d, hd, hsup⟩ := of_bind hsup
          cases hsup
          exact .inr ⟨zone, _, hzone, helig, hblk, hcand, .superseded hactive hne hd, happ⟩
      · rename_i hactive
        split_ifs with hfire
        · subst hfire
          exact (Sat.self fun err herr => ⟨zone, .inr (.inr ⟨_, _, herr⟩)⟩).weaken fun _ happ =>
            .inr ⟨zone, _, hzone, helig, hblk, hcand, .free hactive, happ⟩
        · exact .inl rfl

end Creation

/-! ### Range rounds -/

section Range

variable [LinearOrder δ] {sha256 : Preimage δ → δ}

/-- **What a range round can do**: nothing, or append a confirmed event.  Range events carry no
mode, so only the candidate test can raise. -/
theorem rangeStep_cases {r : Readings δ} {previousClose : ℚ}
    {spec : Side × Option (ZoneSnapshot δ) × Option (ZoneSnapshot δ)} :
    Sat (rangeStep sha256 r previousClose pass spec)
      (fun pass' => pass' = pass ∨ ∃ zone other, spec.2.1 = some zone ∧ spec.2.2 = some other
        ∧ rangeCandidate r.bar previousClose zone spec.1 r.a5 r.m20 = .ok true
        ∧ appendEvent .formalSetupConfirmed (rangeReason spec.1) pass
          (newRange sha256 r.bar zone other spec.1 r.a5 r.m20 (htfRelation r.context spec.1)
            r.scannerLinkage) = .ok pass')
      fun err => ∃ zone : ZoneSnapshot δ, rangeCandidate r.bar previousClose zone spec.1 r.a5 r.m20 = .error err := by
  unfold rangeStep
  split
  · rename_i zone other hzone hoth
    refine Sat.bind (Sat.self fun err herr => ⟨zone, herr⟩) fun fires hcand => ?_
    split_ifs with hfire
    · subst hfire
      refine (Sat.self fun err herr => ?_).weaken fun _ happ => .inr ⟨zone, other, hzone, hoth, hcand, happ⟩
      exact absurd herr (appendEvent_ne_error (decisionOf_isOk _ _ rfl))
    · exact .inl rfl
  · exact .inl rfl

end Range

end TraderAssist
