/-
TraderAssist/Kernel/LedgerInvariant.lean

The invariant of the event ledger over whole runs of `evaluate_strategy` and
`mark_unresolved_at_shutdown`: every event is well formed, and there is at most
one ACTIVE event in a slot.

Every pass keeps it and extends the ledger it was given; the only errors a call
can raise on such a ledger are those about its inputs.  `evaluateStrategy_inv`
collects this for a whole call, and the two run theorems at the end follow by
induction on how the ledger was reached.
-/
import TraderAssist.Kernel.InputErrors
import TraderAssist.Kernel.Passes

namespace TraderAssist

open Py

variable {δ : Type} {pass : Pass δ} {l : EventLedger δ}

/-! ### The invariant -/

structure LedgerInv (l : EventLedger δ) : Prop where
  wf : ∀ e ∈ l, EventWf e
  unique : l.Pairwise fun e f => e.slot = f.slot → e.status = .active → f.status ≠ .active

namespace LedgerInv

theorem nil : LedgerInv ([] : EventLedger δ) := ⟨by simp, .nil⟩

/-- Events that evolve in place and stay well formed keep the invariant: no
event becomes ACTIVE. -/
theorem evolve {l l' : EventLedger δ} (h : LedgerInv l)
    (hl : List.Forall₂ (fun e e' => Evolves e e' ∧ EventWf e') l l') : LedgerInv l' := by
  constructor
  · intro e' he'
    obtain ⟨e, -, he⟩ := forall₂_mem_right hl he'
    exact he.2
  · rw [List.pairwise_iff_getElem]
    intro i j hi hj hij hslot ha hb
    have hlen := hl.length_eq
    have hei := (hl.get (by omega) hi).1
    have hej := (hl.get (by omega) hj).1
    simp only [List.get_eq_getElem] at hei hej
    refine List.pairwise_iff_getElem.mp h.unique i j (by omega) (by omega) hij ?_
      (hei.active ha) (hej.active hb)
    rw [← slot_eq_of_origin hei.origin_eq, ← slot_eq_of_origin hej.origin_eq, hslot]

variable {l : EventLedger δ} {e : MarketEvent δ}

theorem append (h : LedgerInv l) (hw : EventWf e)
    (hfree : e.status = .active → ∀ f ∈ l, f.slot = e.slot → f.status ≠ .active) : LedgerInv (l ++ [e]) := by
  refine ⟨forall_mem_snoc h.wf hw, pairwise_snoc h.unique fun f hf hslot hact he => ?_⟩
  exact hfree he f hf hslot hact

/-- Ending the ACTIVE event at a position, other than by a confirmation. -/
theorem set_conclude (h : LedgerInv l) {i : ℕ} (hi : l[i]? = some e) (hact : e.status = .active)
    {st : EventStatus} (hst : st ≠ .active) (hst' : st ≠ .confirmed) (tr : Transition) (bar : Bar) :
    LedgerInv (l.set i (e.conclude st tr bar)) := by
  refine h.evolve (forall₂_set (fun e he => ⟨.refl e, h.wf e he⟩) hi ⟨.inr ⟨hact, rfl⟩, ?_⟩)
  exact (h.wf e (List.mem_of_getElem? hi)).conclude hact hst hst' tr bar

/-- Once the only ACTIVE event of a slot has ended, the slot is free. -/
theorem set_conclude_free (h : LedgerInv l) {i : ℕ} (hi : l[i]? = some e)
    (hact : e.status = .active) {st : EventStatus} (hst : st ≠ .active) (tr : Transition) (bar : Bar) :
    ∀ f ∈ l.set i (e.conclude st tr bar), f.slot = e.slot → f.status ≠ .active := by
  intro f hf hslot hfact
  obtain ⟨j, hj, rfl⟩ := List.getElem_of_mem hf
  rw [List.length_set] at hj
  rw [List.getElem_set] at hslot hfact
  obtain ⟨hilt, hie⟩ := List.getElem?_eq_some_iff.mp hi
  split_ifs at hslot hfact with hij
  · exact hst hfact
  · have hpair := List.pairwise_iff_getElem.mp h.unique
    rcases Nat.lt_or_gt_of_ne hij with hlt | hgt
    · exact hpair i j hilt hj hlt (by rw [hie, hslot]) (by rw [hie, hact]) hfact
    · exact hpair j i hj hilt hgt (by rw [hie, hslot]) hfact (by rw [hie, hact])

end LedgerInv

/-! ### Passes -/

/-- A pass result that keeps the invariant and extends the ledger. -/
def GoodPass (l : EventLedger δ) (pass : Pass δ) : Prop := LedgerInv pass.1 ∧ Extends l pass.1

section

variable [DecidableEq δ]

variable {l : EventLedger δ} {bar : Bar}

omit [DecidableEq δ] in
/-- A loop whose updates are well-formed evolutions keeps the invariant. -/
theorem each_inv {β σ : Type}
    {f : MarketEvent δ → Except KernelError (Option (MarketEvent δ × β))} {absorb : σ → β → σ}
    (h : LedgerInv l) (hstep : ∀ e ∈ l, ∀ e' b, f e = .ok (some (e', b)) → Evolves e e' ∧ EventWf e')
    (herr : ∀ e ∈ l, ∀ err, f e = .error err → External err) (s : σ) :
    Sat (each f absorb l s) (fun r => LedgerInv r.1 ∧ List.Forall₂ Evolves l r.1) External := by
  have hsat : Sat (each f absorb l s)
      (fun r => List.Forall₂ (fun e e' => Evolves e e' ∧ EventWf e') l r.1 ∧ True) External :=
    Sat.each (P := fun e e' => Evolves e e' ∧ EventWf e') (I := fun _ => True)
      (fun e he _ => ⟨.refl e, h.wf e he⟩)
      (fun e he e' b hb => ⟨hstep e he e' b hb, fun _ _ => trivial⟩) herr s trivial
  exact hsat.weaken fun r hr => ⟨h.evolve hr.1, hr.1.imp fun _ _ hev => hev.1⟩

theorem progressLoop_inv (h : LedgerInv l) (bar : Bar) (found : Findings δ) :
    Sat (eachReplace .replacementFailed (progressEvent bar) absorbProgress l found)
      (GoodPass l) External := by
  rw [progressLoop_eq]
  refine (each_inv h (fun e he e' p hp => ⟨?_, ?_⟩) (fun e he err herr => ?_) found).weaken
    fun r hr => ⟨hr.1, .of_forall₂ hr.2⟩
  · obtain ⟨rfl, hact, -, -, hadv⟩ := progressEvent_advances hp
    exact .inr ⟨hact, hadv.origin⟩
  · exact (progressEvent_wf (h.wf e he)).of_ok hp e' p rfl
  · exact ((progressEvent_wf (h.wf e he)).of_error herr).elim

omit [DecidableEq δ] in
/-- Ending a well-formed ACTIVE event with a decision that is no confirmation
does not raise. -/
theorem conclude_decision {e : MarketEvent δ} (hw : EventWf e) (hact : e.status = .active)
    (st : EventStatus) (tr : Transition) (bar : Bar) (kind : DecisionKind)
    (hkind : kind ≠ .formalSetupConfirmed) (reason : Reason) :
    ∃ d, decisionOf (e.conclude st tr bar) kind reason (e.conclude st tr bar).transition = .ok d :=
  EventWf.decisionOf_isOk (e := e.conclude st tr bar) (hw.mode_confirmed (by simp [hact])) hkind reason _

theorem dataInvalidLoop_inv (h : LedgerInv l) (bar : Bar) :
    Sat (eachReplace .replacementFailed (dataInvalidEvent bar) (fun ds d => ds ++ [d]) l [])
      (fun r => (LedgerInv r.1 ∧ List.Forall₂ Evolves l r.1) ∧ ∀ e ∈ r.1, e.status ≠ .active) External := by
  rw [dataInvalidLoop_eq]
  have herr : ∀ e ∈ l, ∀ err, dataInvalidEvent bar e = .error err → External err := by
    intro e he err herr
    unfold dataInvalidEvent at herr
    split_ifs at herr with hact
    obtain ⟨d, hd⟩ := conclude_decision (h.wf e he) hact .dataInvalid .coreDataInvalid bar
      .dataInvalid (by decide) .multitimeframeDataInvalid
    dsimp only at herr
    rw [hd] at herr
    cases herr
  refine (each_inv h (fun e he e' d hd => ?_) herr []).and (Sat.weaken (Sat.each
    (P := fun _ e' => e'.status ≠ .active) (I := fun _ => True) ?_ ?_ herr [] trivial) ?_)
  · obtain ⟨hact, rfl, -⟩ := dataInvalidEvent_cases hd
    exact ⟨.inr ⟨hact, rfl⟩, (h.wf e he).conclude hact (by decide) (by decide) _ _⟩
  · -- an ACTIVE event is never left alone
    intro e he hkeep hact
    rw [dataInvalidEvent, if_pos hact] at hkeep
    obtain ⟨d, -, hkeep⟩ := of_bind hkeep
    cases hkeep
  · intro e he e' d hd
    obtain ⟨-, rfl, -⟩ := dataInvalidEvent_cases hd
    exact ⟨by simp, fun _ _ => trivial⟩
  · intro r hr e he
    obtain ⟨_, -, he⟩ := forall₂_mem_right hr.1 he
    exact he

theorem opposeLoop_inv (h : LedgerInv l) (formal : MarketEvent δ) (ds : List (StrategyDecision δ)) :
    Sat (eachReplace .replacementFailed (opposeEvent formal) (fun ds d => ds ++ [d]) l ds)
      (fun r => LedgerInv r.1 ∧ List.Forall₂ Evolves l r.1) External := by
  rw [opposeLoop_eq]
  refine each_inv h (fun e he e' d hd => ?_) (fun e he err herr => ?_) ds
  · obtain ⟨-, hact, rfl, -⟩ := opposeEvent_cases hd
    exact ⟨.inr ⟨hact, rfl⟩, (h.wf e he).conclude hact (by decide) (by decide) _ _⟩
  · unfold opposeEvent at herr
    split_ifs at herr with hopp
    have hact : e.status = .active := by
      simp only [opposedBy, decide_eq_true_eq] at hopp
      exact hopp.2.2.1
    obtain ⟨d, hd⟩ := conclude_decision (h.wf e he) hact .invalidated
      .invalidatedByOppositeFormalEvent formal.latestBar .invalidated (by decide)
      .oppositeFormalEvent
    dsimp only at herr
    rw [hd] at herr
    cases herr

theorem invalidateOppositeActive_inv (h : LedgerInv l) (confirmed : List (MarketEvent δ)) :
    Sat (invalidateOppositeActive l confirmed) (fun r => LedgerInv r.1 ∧ Extends l r.1) External := by
  refine Sat.foldlM (I := fun acc : EventLedger δ × _ => LedgerInv acc.1 ∧ Extends l acc.1) ?_
    (l, []) ⟨h, .refl l⟩
  intro acc hacc formal _
  exact (opposeLoop_inv hacc.1 formal acc.2).weaken fun r hr => ⟨hr.1, hacc.2.trans (.of_forall₂ hr.2)⟩

/-- What the invariant needs of a creation round. -/
structure SpecWf (bar : Bar) (spec : CreationSpec δ) : Prop where
  candidate : ∀ zone err, spec.candidate zone = .error err → External err
  wf : ∀ zone linkage, EventWf (spec.newEvent zone linkage)
  slot : ∀ zone linkage,
    (spec.newEvent zone linkage).slot = (bar.marketId, spec.family, spec.side)
  active : ∀ zone linkage, (spec.newEvent zone linkage).status = .active

omit [DecidableEq δ] in
/-- A cleared slot: the invariant still holds, and no ACTIVE event is left in
it. -/
theorem Cleared.inv {family : SetupFamily} {side : Side} {zoneId : δ}
    {pass base : Pass δ} (hc : Cleared bar family side zoneId pass base) (h : LedgerInv pass.1) :
    LedgerInv base.1 ∧ Extends pass.1 base.1
      ∧ ∀ f ∈ base.1, f.slot = (bar.marketId, family, side) → f.status ≠ .active := by
  cases hc with
  | free hnone => exact ⟨h, .refl _, active_eq_none.mp hnone⟩
  | superseded hsome hzone hd =>
    obtain ⟨hi, hslot, hact⟩ := active_eq_some hsome
    refine ⟨h.set_conclude hi hact (by decide) (by decide) _ _,
      .set hi (.inr ⟨hact, rfl⟩), fun f hf hfs => ?_⟩
    exact h.set_conclude_free hi hact (by decide) _ _ f hf (hfs.trans hslot.symm)

theorem appendEvent_inv {kind : DecisionKind} {reason : Reason} {pass pass' : Pass δ}
    {event : MarketEvent δ} (h : LedgerInv pass.1) (hw : EventWf event)
    (hfree : event.status = .active → ∀ f ∈ pass.1, f.slot = event.slot → f.status ≠ .active)
    (happ : appendEvent kind reason pass event = .ok pass') : LedgerInv pass'.1 ∧ Extends pass.1 pass'.1 := by
  rcases appendEvent_cases happ with ⟨-, rfl⟩ | ⟨-, d, -, rfl⟩
  · exact ⟨h, .refl _⟩
  · exact ⟨h.append hw hfree, .append _ _⟩

theorem supersedeForNewZone_isOk {m : Text} {f : SetupFamily} {s : Side} {e : MarketEvent δ} {i : ℕ}
    (h : LedgerInv l) (hactive : l.active m f s = some (e, i)) (bar : Bar) :
    ∃ d, decisionOf (e.conclude .superseded .supersededByNewIndependentEvent bar) .superseded
        .supersededByNewIndependentEvent .supersededByNewIndependentEvent = .ok d
      ∧ supersedeForNewZone l i e bar
        = .ok (l.set i (e.conclude .superseded .supersededByNewIndependentEvent bar), d) := by
  obtain ⟨hi, -, hact⟩ := active_eq_some hactive
  obtain ⟨d, hd⟩ := conclude_decision (h.wf e (List.mem_of_getElem? hi)) hact .superseded
    .supersededByNewIndependentEvent bar .superseded (by decide) .supersededByNewIndependentEvent
  have hrep := replaceAt_isOk hi (conclude_ne_of_active hact (by decide : EventStatus.superseded ≠ .active)
    .supersededByNewIndependentEvent bar)
  exact ⟨d, hd, bind_eq_ok.mpr ⟨_, hrep, bind_eq_ok.mpr ⟨d, hd, rfl⟩⟩⟩

/-- A creation round on a good ledger raises only what its candidate test
raises. -/
theorem createStep_inv {spec : CreationSpec δ} (h : LedgerInv pass.1)
    (hs : SpecWf bar spec) : Sat (createStep bar pass spec) (GoodPass pass.1) External := by
  refine createStep_cases.mono ?_ ?_
  · rintro pass' (rfl | ⟨zone, base, -, -, -, -, hclr, happ⟩)
    · exact ⟨h, .refl _⟩
    · obtain ⟨hbase, hext, hfree⟩ := hclr.inv h
      have hslot := hs.slot zone (linkageFor bar pass spec zone)
      obtain ⟨hinv, hext'⟩ := appendEvent_inv hbase (hs.wf zone _)
        (fun _ f hf hfs => hfree f hf (hfs.trans hslot)) happ
      exact ⟨hinv, hext.trans hext'⟩
  · rintro err ⟨zone, herr | ⟨e, i, hact, herr⟩ | ⟨linkage, base, herr⟩⟩
    · exact hs.candidate zone err herr
    · obtain ⟨d, -, hsup⟩ := supersedeForNewZone_isOk h hact bar
      rw [hsup] at herr
      cases herr
    · have hmode := (hs.wf zone linkage).mode_confirmed (by simp [hs.active])
      exact absurd herr (appendEvent_ne_error (EventWf.decisionOf_isOk hmode (by decide) _ _))

end

/-! ### The created events are well formed -/

section

variable [LinearOrder δ] (sha256 : Preimage δ → δ)

section New

variable {bar : Bar} {zone other : ZoneSnapshot δ} {side : Side} {a5 m20 : ℚ} {relation : HtfRelation}
  {scanner : Option ScannerLinkage}

omit [LinearOrder δ] in
theorem newSweep_wf {linkage : Option (BreakoutLinkage δ)} :
    EventWf (newSweep sha256 bar zone side a5 m20 relation scanner linkage) :=
  ⟨fun _ => le_rfl, fun _ => rfl, fun _ => rfl, fun _ => ⟨rfl, rfl, rfl⟩, nofun, nofun, nofun⟩

theorem newBreakout_wf {zones : List (ZoneSnapshot δ)} :
    EventWf (newBreakout sha256 bar zone side a5 m20 relation scanner zones) :=
  ⟨fun _ => le_rfl, fun _ => rfl, fun _ => rfl, nofun, fun _ => ⟨rfl, rfl, rfl, rfl, rfl, rfl, rfl, fun _ => rfl,
    nofun, nofun, nofun, nofun, nofun⟩, nofun, nofun⟩

omit [LinearOrder δ] in
theorem newRange_wf : EventWf (newRange sha256 bar zone other side a5 m20 relation scanner) :=
  ⟨nofun, fun _ => rfl, fun _ => rfl, nofun, nofun, nofun, fun _ h => absurd rfl h⟩

end New

theorem creationSpecs_wf (r : Readings δ) : ∀ spec ∈ creationSpecs sha256 r, SpecWf r.bar spec := by
  have hsweep : ∀ side zone requiredType, SpecWf r.bar (sweepSpec sha256 r side zone requiredType) :=
    fun side zone requiredType => ⟨nofun, fun _ _ => newSweep_wf sha256, fun _ _ => rfl, fun _ _ => rfl⟩
  have hbrk : ∀ side zone requiredType, SpecWf r.bar (breakoutSpec sha256 r side zone requiredType) :=
    fun side zone requiredType => ⟨fun _ _ h => (initialBreakout_inputs _ _ _ _ _).of_error h,
      fun _ _ => newBreakout_wf sha256, fun _ _ => rfl, fun _ _ => rfl⟩
  intro spec hspec
  simp only [creationSpecs, List.mem_cons, List.not_mem_nil, or_false] at hspec
  rcases hspec with rfl | rfl | rfl | rfl
  · exact hsweep _ _ _
  · exact hsweep _ _ _
  · exact hbrk _ _ _
  · exact hbrk _ _ _

/-! ### A whole call -/

variable {l : EventLedger δ}

theorem creation_inv (r : Readings δ) (h : GoodPass l pass) :
    Sat ((creationSpecs sha256 r).foldlM (createStep r.bar) pass) (GoodPass l) External :=
  Sat.foldlM (fun p hp spec hspec =>
    (createStep_inv hp.1 (creationSpecs_wf sha256 r spec hspec)).weaken fun _ hp' =>
      ⟨hp'.1, hp.2.trans hp'.2⟩) pass h

theorem rangeStep_inv (r : Readings δ) (previousClose : ℚ) (h : GoodPass l pass)
    (spec : Side × Option (ZoneSnapshot δ) × Option (ZoneSnapshot δ)) :
    Sat (rangeStep sha256 r previousClose pass spec) (GoodPass l) External := by
  refine rangeStep_cases.mono ?_ fun _ ⟨_, hcand⟩ => (rangeCandidate_inputs _ _ _ _ _ _).of_error hcand
  rintro pass' (rfl | ⟨zone, other, -, -, -, happ⟩)
  · exact h
  · obtain ⟨hinv, hext⟩ := appendEvent_inv h.1 (newRange_wf sha256) nofun happ
    exact ⟨hinv, h.2.trans hext⟩

theorem rangePass_inv (r : Readings δ) (bars5m bars15m : List Bar) (a15Override : Option ℚ)
    (h : GoodPass l pass) :
    Sat (rangePass sha256 r bars5m bars15m a15Override pass) (GoodPass l) External := by
  refine Sat.bind (rangeValid_inputs _ _ _ _) fun valid _ => ?_
  split
  · exact Sat.foldlM (fun p hp spec _ => rangeStep_inv sha256 r _ hp spec) pass h
  · exact h

theorem runPasses_inv (r : Readings δ) (bars5m bars15m : List Bar) (a15Override : Option ℚ)
    (h : LedgerInv l) : Sat (runPasses sha256 r bars5m bars15m a15Override l) (GoodPass l) External := by
  refine (progressLoop_inv h r.bar {}).bind fun progressed hp => ?_
  refine (creation_inv sha256 r hp).bind fun created hc => ?_
  refine (rangePass_inv sha256 r bars5m bars15m a15Override hc).bind fun ranged hr => ?_
  refine (invalidateOppositeActive_inv hr.1 _).bind fun final hf => ?_
  exact ⟨hf.1, hr.2.trans hf.2⟩

/-- **A call on a good ledger** returns a good ledger that extends it, or raises
an error about its inputs; with invalid mandatory data it adds nothing and
leaves nothing ACTIVE. -/
theorem evaluateStrategy_inv (inputs : StrategyEvaluationInput δ) (h : LedgerInv l) :
    Sat (evaluateStrategy sha256 inputs l) (fun result => LedgerInv result.ledger ∧ Extends l result.ledger
        ∧ (inputs.mandatoryDataValid = false →
          result.ledger.length = l.length ∧ ∀ e ∈ result.ledger, e.status ≠ .active)) External := by
  refine Sat.bind (prepare_inputs sha256 inputs) fun p _ => ?_
  cases hval : inputs.mandatoryDataValid with
  | false =>
    refine (dataInvalidLoop_inv h p.currentBar).bind fun final hf => ?_
    exact ⟨hf.1.1, .of_forall₂ hf.1.2, fun _ => ⟨hf.1.2.length_eq.symm, hf.2⟩⟩
  | true =>
    refine Sat.bind (InputsOnly.givenOr _ (wilderAtr14_inputs _)) fun a5 _ => ?_
    refine Sat.bind (InputsOnly.givenOr _ (medianVolume_inputs _)) fun m20 _ => ?_
    refine (runPasses_inv sha256 _ _ _ _ h).bind fun final hf => ?_
    exact ⟨hf.1, hf.2, nofun⟩

end

theorem markUnresolved_inv (h : LedgerInv l) : LedgerInv (markUnresolvedAtShutdown l)
      ∧ List.Forall₂ Evolves l (markUnresolvedAtShutdown l) := by
  have hstep : List.Forall₂ (fun e e' => Evolves e e' ∧ EventWf e') l (markUnresolvedAtShutdown l) := by
    refine List.forall₂_map_right_iff.mpr (List.forall₂_same.mpr fun e he => ?_)
    split_ifs with hact
    · exact ⟨.inr ⟨hact, rfl⟩, (h.wf e he).conclude hact (by decide) (by decide)
        .unresolvedAtShutdown e.latestBar⟩
    · exact ⟨.refl e, h.wf e he⟩
  exact ⟨h.evolve hstep, hstep.imp fun _ _ hev => hev.1⟩

/-! ### Runs -/

section

variable [LinearOrder δ] (sha256 : Preimage δ → δ)

/-- The ledgers of all runs: calls with any inputs, and shutdowns, from the
empty ledger.  A call that raises leaves the ledger as it was. -/
inductive Reachable : EventLedger δ → Prop
  | empty : Reachable []
  | evaluate {l : EventLedger δ} {inputs : StrategyEvaluationInput δ} {result : KernelResult δ} :
      Reachable l → evaluateStrategy sha256 inputs l = .ok result → Reachable result.ledger
  | shutdown {l : EventLedger δ} : Reachable l → Reachable (markUnresolvedAtShutdown l)

theorem Reachable.inv (h : Reachable sha256 l) : LedgerInv l := by
  induction h with
  | empty => exact .nil
  | evaluate _ hok ih => exact ((evaluateStrategy_inv sha256 _ ih).of_ok hok).1
  | shutdown _ ih => exact (markUnresolved_inv ih).1

/-- A list of calls; one that raises leaves the ledger as it was. -/
def runCalls (l : EventLedger δ) (calls : List (StrategyEvaluationInput δ)) : EventLedger δ :=
  calls.foldl (fun l inputs =>
    match evaluateStrategy sha256 inputs l with
    | .ok result => result.ledger
    | .error _ => l) l

theorem Reachable.runCalls (h : Reachable sha256 l)
    (calls : List (StrategyEvaluationInput δ)) : Reachable sha256 (runCalls sha256 l calls) := by
  induction calls generalizing l with
  | nil => exact h
  | cons inputs calls ih =>
    rw [TraderAssist.runCalls, List.foldl_cons]
    split
    · rename_i result hok
      exact ih (h.evaluate hok)
    · exact ih h

end

/-- There is at most one ACTIVE event for a market, a family and a side. -/
def AtMostOneActive (l : EventLedger δ) : Prop :=
  ∀ (i j : ℕ) (e f : MarketEvent δ), l[i]? = some e → l[j]? = some f →
    e.status = .active → f.status = .active →
    e.marketId = f.marketId → e.setupFamily = f.setupFamily → e.side = f.side → i = j

theorem LedgerInv.atMostOneActive (h : LedgerInv l) : AtMostOneActive l := by
  intro i j e f hi hj he hf hm hfam hside
  obtain ⟨hilt, rfl⟩ := List.getElem?_eq_some_iff.mp hi
  obtain ⟨hjlt, rfl⟩ := List.getElem?_eq_some_iff.mp hj
  have hpair := List.pairwise_iff_getElem.mp h.unique
  have hslot : l[i].slot = l[j].slot := by simp [MarketEvent.slot, hm, hfam, hside]
  rcases Nat.lt_trichotomy i j with hlt | heq | hgt
  · exact absurd hf (hpair i j hilt hjlt hlt hslot he)
  · exact heq
  · exact absurd he (hpair j i hjlt hilt hgt hslot.symm hf)

/-- Every event of the first ledger is found at its position in the second with
the same identity, family, side, zone, creation bar and frozen readings, and
unchanged unless it was ACTIVE. -/
def KeepsPositions (l l' : EventLedger δ) : Prop :=
  ∀ (i : ℕ) (e : MarketEvent δ), l[i]? = some e → ∃ e', l'[i]? = some e'
    ∧ e'.marketEventId = e.marketEventId ∧ e'.setupFamily = e.setupFamily ∧ e'.side = e.side
    ∧ e'.zone = e.zone ∧ e'.createdBar = e.createdBar ∧ e'.a5Event = e.a5Event
    ∧ e'.m20Event = e.m20Event ∧ (e.status ≠ .active → e' = e)

theorem Extends.keepsPositions {l l' : EventLedger δ} (h : Extends l l') : KeepsPositions l l' := by
  obtain ⟨kept, added, rfl, hk⟩ := h
  intro i e hi
  obtain ⟨hilt, rfl⟩ := List.getElem?_eq_some_iff.mp hi
  have hlen := hk.length_eq
  have hev : Evolves l[i] kept[i] := hk.get hilt (hlen ▸ hilt)
  have ho := hev.origin_eq
  simp only [MarketEvent.origin, Origin.mk.injEq] at ho
  obtain ⟨hid, -, hf, hs, hz, hc, ha, hm, -⟩ := ho
  refine ⟨kept[i], ?_, hid, hf, hs, hz, hc, ha, hm, fun hna => ?_⟩
  · rw [List.getElem?_append_left (hlen ▸ hilt), List.getElem?_eq_getElem]
  · rcases hev with heq | ⟨hact, -⟩
    · exact heq
    · exact absurd hact hna

/-! ### A sample run

A long breakout over a resistance zone, its pullback, and the confirmation, on
three bars with every reading given. -/

theorem toRat_cents_le {a b : ℕ} (h : a ≤ b) :
    Decimal.toRat ⟨false, a, -2⟩ ≤ Decimal.toRat ⟨false, b, -2⟩ := by
  exact mul_le_mul_of_nonneg_right (Nat.cast_le.mpr h) (pow10_pos _).le

theorem toRat_cents_pos {a : ℕ} (h : 0 < a) : 0 < Decimal.toRat ⟨false, a, -2⟩ := by
  exact mul_pos (Nat.cast_pos.mpr h) (pow10_pos _)

/-- A bar of market `M` with prices in cents. -/
def centBar (interval : Interval) (openTimeMs o h l c v : ℕ)
    (valid : 0 < l ∧ (o ≤ h ∧ c ≤ h) ∧ l ≤ o ∧ l ≤ c) : Bar :=
  { marketId := ['M']
    interval := interval
    openTimeMs := openTimeMs
    closeTimeMs := openTimeMs + interval.ms
    openRepr := ⟨false, o, -2⟩
    highRepr := ⟨false, h, -2⟩
    lowRepr := ⟨false, l, -2⟩
    closeRepr := ⟨false, c, -2⟩
    volumeRepr := ⟨false, v, -2⟩
    sourceIdentity := ['S']
    marketId_ne := marketM_ne
    times := Nat.lt_add_of_pos_right interval.ms_pos
    open_pos := toRat_cents_pos (by omega)
    high_pos := toRat_cents_pos (by omega)
    low_pos := toRat_cents_pos (by omega)
    close_pos := toRat_cents_pos (by omega)
    volume_nonneg := by
      exact mul_nonneg (Nat.cast_nonneg _) (pow10_pos _).le
    open_le_high := toRat_cents_le valid.2.1.1
    close_le_high := toRat_cents_le valid.2.1.2
    low_le_open := toRat_cents_le valid.2.2.1
    low_le_close := toRat_cents_le valid.2.2.2 }

/-- Bars that swing between 100 and 104 and close at 102. -/
def swingAt (interval : Interval) (v k : ℕ) : Bar :=
  match k % 6 with
  | 0 => centBar interval (k * interval.ms) 10200 10400 10200 10200 v (by decide)
  | 3 => centBar interval (k * interval.ms) 10200 10200 10000 10200 v (by decide)
  | _ => centBar interval (k * interval.ms) 10200 10200 10200 10200 v (by decide)

/-- A usable zone from 100 to 101. -/
def sampleZone (zoneType : ZoneType) : ZoneSnapshot (List ℕ) :=
  { zoneId := [zoneType.key]
    marketId := ['M']
    zoneType := zoneType
    center := 201 / 2
    low := 100
    high := 101
    halfWidth := 1 / 2
    quality := .zq2
    reactionCount := 2
    latestReactionBarIndex := 0
    memberReactionIds := [[1], [2]]
    activeForNewEvent := true
    suppressed := false
    low_le_center := by norm_num
    center_le_high := by norm_num
    halfWidth_pos := by norm_num
    count_eq := rfl }

/-- A call on the given 5m bars with every derived reading given. -/
def sampleInput (book : ZoneBook (List ℕ)) (bars5m : List Bar) :
    StrategyEvaluationInput (List ℕ) :=
  { bars5m := bars5m
    minimumTick := 1
    bars15m := some [centBar .m15 0 10000 10000 10000 10000 0 (by decide)]
    bars1h := some []
    zoneBook := some book
    a5Override := some 1
    m20Override := some 1
    a15Override := some 1
    htfContextOverride := some unavailableContext }

def breakoutBars : List Bar :=
  [centBar .m5 0 10080 10170 10070 10160 200 (by decide),
    centBar .m5 300000 10160 10160 10110 10130 200 (by decide),
    centBar .m5 600000 10130 10180 10120 10180 200 (by decide)]

/-- The calls on the first, the first two, ... of the bars. -/
def breakoutCalls (n : ℕ) : List (StrategyEvaluationInput (List ℕ)) :=
  (List.range n).map fun k => sampleInput
    ⟨[sampleZone .high], [], none, some (sampleZone .high)⟩ (breakoutBars.take (k + 1))

/-! ### The run theorems -/

section

variable [LinearOrder δ] (sha256 : Preimage δ → δ)

/-- **The event ledger over every run**: one ACTIVE event per slot, no ACTIVE
range event, and every step extends the ledger in place; a step without valid
mandatory data adds nothing and leaves nothing ACTIVE. -/
theorem ledger_run_invariant {l : EventLedger δ} (h : Reachable sha256 l) : AtMostOneActive l
      ∧ (∀ e ∈ l, e.setupFamily = .rangeEdgeRejection → e.status ≠ .active)
      ∧ (∀ inputs result, evaluateStrategy sha256 inputs l = .ok result → KeepsPositions l result.ledger
            ∧ (inputs.mandatoryDataValid = false →
              (∀ e ∈ result.ledger, e.status ≠ .active) ∧ result.ledger.length = l.length))
      ∧ KeepsPositions l (markUnresolvedAtShutdown l) := by
  have hinv := h.inv
  refine ⟨hinv.atMostOneActive, fun e he => (hinv.wf e he).range, fun inputs result hok => ?_,
    (Extends.of_forall₂ (markUnresolved_inv hinv).2).keepsPositions⟩
  obtain ⟨-, hext, hinvalid⟩ := (evaluateStrategy_inv sha256 inputs hinv).of_ok hok
  exact ⟨hext.keepsPositions, fun hdata => ⟨(hinvalid hdata).2, (hinvalid hdata).1⟩⟩

/-- After two bars the breakout is ACTIVE in its pullback, and alone. -/
theorem ledger_run_invariant_pullback :
    (runCalls Digest.nested [] (breakoutCalls 2)).map MarketEvent.status = [.active]
      ∧ AtMostOneActive (runCalls Digest.nested [] (breakoutCalls 2)) :=
  ⟨by decide +kernel,
    (ledger_run_invariant Digest.nested (Reachable.empty.runCalls _ (breakoutCalls 2))).1⟩

/-- **Confirmation order.** A sweep or a breakout is confirmed after the bar that
created it; MICRO_FAST before any pullback, STANDARD after a typed retest seen
strictly between creation and confirmation; and no call on a reachable ledger
raises an error about an event, the ledger or a decision's mode. -/
theorem confirmation_order {l : EventLedger δ} (h : Reachable sha256 l) : (∀ e ∈ l, e.status = .confirmed →
        e.setupFamily = .sweepReclaim ∨ e.setupFamily = .breakoutRetest →
        e.createdBar.openTimeMs < e.latestBar.openTimeMs)
      ∧ (∀ e ∈ l, e.setupFamily = .breakoutRetest → e.status = .confirmed →
        (e.formalMode = some .microFast ∧ e.pullbackStarted = false)
          ∨ (e.formalMode = some .standard ∧ e.pullbackStarted = true ∧ e.retestType.isSome
            ∧ ∃ t, e.retestSeenBarTimeMs = some t ∧ e.createdBar.openTimeMs < t ∧ t < e.latestBar.openTimeMs))
      ∧ ∀ inputs err, evaluateStrategy sha256 inputs l = .error err → err.internal = false := by
  have hinv := h.inv
  refine ⟨fun e he hconf hfam => ?_, fun e he hfam hconf => ?_, fun inputs err herr => ?_⟩
  · refine (hinv.wf e he).confirmed hconf ?_
    rcases hfam with hf | hf <;> simp [hf]
  · have hb := (hinv.wf e he).breakout hfam
    obtain ⟨mode, hmode⟩ := Option.isSome_iff_exists.mp (hb.mode hconf)
    cases mode with
    | microFast => exact .inl ⟨hmode, hb.micro hmode⟩
    | standard => exact .inr ⟨hmode, hb.standard hmode⟩
  · exact (evaluateStrategy_inv sha256 inputs hinv).of_error herr

/-- The third bar confirms it as STANDARD, and a further call cannot raise an
internal error. -/
theorem confirmation_order_standard : (runCalls Digest.nested [] (breakoutCalls 3)).map
        (fun e => (e.status, e.formalMode, e.retestSeenBarTimeMs))
      = [(.confirmed, some .standard, some 300000)] ∧ ∀ inputs err, evaluateStrategy Digest.nested inputs
          (runCalls Digest.nested [] (breakoutCalls 3)) = .error err → err.internal = false :=
  ⟨by decide +kernel,
    (confirmation_order Digest.nested (Reachable.empty.runCalls _ (breakoutCalls 3))).2.2⟩

end

end TraderAssist
