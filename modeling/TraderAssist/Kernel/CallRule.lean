/-
TraderAssist/Kernel/CallRule.lean

The rule for a whole call: what every single change keeps, the call keeps.

A call changes the ledger one event at a time.  It moves an event on with the
bar, ends an ACTIVE event, or appends a new one, and notes the decision about
it.  `CallRule` says this for an invariant of the ledger, the decisions so far
and the slots filled so far; an event that is ended is never one the same call
has appended, since it is older than the bar or its slot is not filled yet.
-/
import TraderAssist.Kernel.Trace

namespace TraderAssist

open Py

variable {δ : Type}

/-- A ledger and the decisions a call has noted. -/
abbrev Account (δ : Type) := EventLedger δ × List (StrategyDecision δ)

/-- What an invariant of a call on `bar` has to keep; `New` are the events the
call can append, with the kind of their decision. -/
structure CallRule (bar : Bar) (New : DecisionKind → MarketEvent δ → Prop)
    (I : List Slot → Account δ → Prop) : Prop where
  progress : ∀ {done todo e p ds}, I [] (done ++ e :: todo, ds) →
    progressEvent bar e = .ok (some (p.1, p)) → I [] (done ++ p.1 :: todo, ds ++ p.2.toList)
  conclude : ∀ {taken done todo e ds st tr kind reason d}, I taken (done ++ e :: todo, ds) →
    e.status = .active → (e.createdBar ≠ bar ∨ e.slot ∉ taken) → st ≠ .active → st ≠ .confirmed →
    kind ≠ .formalSetupConfirmed → decisionOf (e.conclude st tr bar) kind reason tr = .ok d →
    I taken (done ++ e.conclude st tr bar :: todo, ds ++ [d])
  append : ∀ {taken l ds kind e reason d}, I taken (l, ds) → New kind e →
    ¬ HasId l e.marketEventId e.setupFamily → decisionOf e kind reason e.transition = .ok d →
    I (e.slot :: taken) (l ++ [e], ds ++ [d])

theorem absorbProgress_decisions (found : Findings δ) (p : Progress δ) :
    (absorbProgress found p).decisions = found.decisions ++ p.2.toList := by
  unfold absorbProgress
  cases p.2 <;> simp

namespace CallRule

variable {bar : Bar} {New : DecisionKind → MarketEvent δ → Prop} {I : List Slot → Account δ → Prop}
variable (hI : CallRule bar New I) {l : EventLedger δ} {taken : List Slot}

include hI

section

variable [DecidableEq δ] {pass pass' : Pass δ}

theorem progressLoop {pass : Pass δ} (h : I [] (l, []))
    (hok : eachReplace .replacementFailed (progressEvent bar) absorbProgress l {} = .ok pass) :
    I [] (pass.1, pass.2.decisions) := by
  rw [progressLoop_eq] at hok
  refine each_rule (I := fun s : List (MarketEvent δ) × Findings δ => I [] (s.1, s.2.decisions))
    (fun done e todo found e' p hs hstep => ?_) [] hok h
  obtain ⟨rfl, -⟩ := progressEvent_advances hstep
  rw [absorbProgress_decisions]
  exact hI.progress hs hstep

theorem dataInvalidLoop {r : Account δ} (h : I [] (l, []))
    (hok : eachReplace .replacementFailed (dataInvalidEvent bar) (fun ds d => ds ++ [d]) l []
      = .ok r) : I [] r := by
  rw [dataInvalidLoop_eq] at hok
  refine each_rule (I := I []) (fun done e todo ds e' d hs hstep => ?_) [] hok h
  obtain ⟨hact, rfl, hd⟩ := dataInvalidEvent_cases hstep
  exact hI.conclude hs hact (.inr List.not_mem_nil) (by decide) (by decide) (by decide) hd

theorem opposeLoop {formal : MarketEvent δ} {ds : List (StrategyDecision δ)} {acc r : Account δ}
    (hlat : formal.latestBar = bar) (h : I taken (acc.1, ds ++ acc.2))
    (hok : eachReplace .replacementFailed (opposeEvent formal) (fun ds d => ds ++ [d]) acc.1 acc.2
      = .ok r) : I taken (r.1, ds ++ r.2) := by
  rw [opposeLoop_eq] at hok
  refine each_rule (I := fun s : Account δ => I taken (s.1, ds ++ s.2))
    (fun done e todo ds' e' d hs hstep => ?_) [] hok h
  obtain ⟨hopp, hact, rfl, hd⟩ := opposeEvent_cases hstep
  rw [← List.append_assoc]
  rw [hlat] at hd ⊢
  refine hI.conclude hs hact (.inl fun hbar => ?_) (by decide) (by decide) (by decide) hd
  simp [opposedBy, hlat, hbar] at hopp

theorem oppose {confirmed : List (MarketEvent δ)} {ds : List (StrategyDecision δ)} {r : Account δ}
    (hlat : ∀ formal ∈ confirmed, formal.latestBar = bar) (h : I taken (l, ds))
    (hok : invalidateOppositeActive l confirmed = .ok r) : I taken (r.1, ds ++ r.2) := by
  have hfold : Sat (invalidateOppositeActive l confirmed) (fun r => I taken (r.1, ds ++ r.2))
      fun _ => True := by
    refine Sat.foldlM (I := fun acc : Account δ => I taken (acc.1, ds ++ acc.2))
      (fun acc hacc formal hmem => ?_) (l, []) (by simpa using h)
    exact (Sat.self fun _ _ => trivial).weaken fun r hr => hI.opposeLoop (hlat _ hmem) hacc hr
  exact hfold.of_ok hok

theorem appendEvent {kind : DecisionKind} {reason : Reason}
    {e : MarketEvent δ} (hnew : New kind e) (h : I taken (pass.1, pass.2.decisions))
    (hok : appendEvent kind reason pass e = .ok pass') :
    I taken (pass'.1, pass'.2.decisions) ∨ I (e.slot :: taken) (pass'.1, pass'.2.decisions) := by
  rcases appendEvent_cases hok with ⟨-, rfl⟩ | ⟨hc, d, hd, rfl⟩
  · exact .inl h
  · refine .inr (hI.append h hnew (fun hid => ?_) hd)
    simp [containsEventId_iff.mpr hid] at hc

theorem createStep {spec : CreationSpec δ} (hw : SpecWf bar spec)
    (hnew : ∀ zone linkage, spec.zone = some zone → spec.candidate zone = .ok true →
      New .wait (spec.newEvent zone linkage))
    (hslot : spec.slot bar ∉ taken) (h : I taken (pass.1, pass.2.decisions))
    (hok : createStep bar pass spec = .ok pass') : I taken (pass'.1, pass'.2.decisions)
      ∨ I (spec.slot bar :: taken) (pass'.1, pass'.2.decisions) := by
  rcases createStep_cases.of_ok hok with rfl | ⟨zone, base, hzone, -, -, hcand, hclr, happ⟩
  · exact .inl h
  · have hbase : I taken (base.1, base.2.decisions) := by
      cases hclr with
      | free => exact h
      | @superseded e i d hactive _ hd =>
        obtain ⟨hi, heslot, hact⟩ := active_eq_some hactive
        obtain ⟨hlt, rfl⟩ := List.getElem?_eq_some_iff.mp hi
        rw [List.set_eq_take_append_cons_drop, if_pos hlt]
        refine hI.conclude ?_ hact (.inr (heslot ▸ hslot)) (by decide) (by decide) (by decide) hd
        simpa using h
    have := hI.appendEvent (hnew zone (linkageFor bar pass spec zone) hzone hcand) hbase happ
    rwa [show (spec.newEvent zone _).slot = spec.slot bar from hw.slot _ _] at this

/-- The creation rounds fill different slots. -/
theorem createSteps {specs : List (CreationSpec δ)}
    (hspec : ∀ spec ∈ specs, SpecWf bar spec ∧ spec.slot bar ∉ taken ∧ ∀ zone linkage,
      spec.zone = some zone → spec.candidate zone = .ok true → New .wait (spec.newEvent zone linkage))
    (hsl : specs.Pairwise fun a b => a.slot bar ≠ b.slot bar)
    (h : I taken (pass.1, pass.2.decisions))
    (hok : specs.foldlM (TraderAssist.createStep bar) pass = .ok pass') :
    ∃ taken, I taken (pass'.1, pass'.2.decisions) := by
  induction specs generalizing taken pass with
  | nil =>
    cases hok
    exact ⟨taken, h⟩
  | cons spec specs ih =>
    obtain ⟨mid, hmid, hok⟩ := of_bind hok
    rw [List.forall_mem_cons] at hspec
    obtain ⟨hne, hsl⟩ := List.pairwise_cons.mp hsl
    obtain ⟨⟨hw, hfree, hnew⟩, hspec⟩ := hspec
    rcases hI.createStep hw hnew hfree h hmid with h | h
    · exact ih hspec hsl h hok
    · refine ih (fun s hs => ⟨(hspec s hs).1, ?_, (hspec s hs).2.2⟩) hsl h hok
      simp [(hspec s hs).2.1, (hne s hs).symm]

end

end CallRule

section Calls

variable [LinearOrder δ] (sha256 : Preimage δ → δ)

/-- The events a call with these readings can append. -/
inductive NewEvent (r : Readings δ) : DecisionKind → MarketEvent δ → Prop
  | candidate {spec : CreationSpec δ} {zone : ZoneSnapshot δ}
      (hspec : spec ∈ creationSpecs sha256 r) (hzone : spec.zone = some zone)
      (hcand : spec.candidate zone = .ok true) (linkage : Option (BreakoutLinkage δ)) :
      NewEvent r .wait (spec.newEvent zone linkage)
  | range {side : Side} {zone : ZoneSnapshot δ} {close : ℚ}
      (hzone : side.pick r.book.activeSupport r.book.activeResistance = some zone)
      (hcand : rangeCandidate r.bar close zone side r.a5 r.m20 = .ok true)
      (other : ZoneSnapshot δ) :
      NewEvent r .formalSetupConfirmed (newRange sha256 r.bar zone other side r.a5 r.m20
        (htfRelation r.context side) r.scannerLinkage)

/-- Such an event is of the bar, and CONFIRMED exactly with a formal decision. -/
theorem NewEvent.spec {r : Readings δ} {kind : DecisionKind} {e : MarketEvent δ}
    (h : NewEvent sha256 r kind e) : e.createdBar = r.bar ∧ e.latestBar = r.bar
      ∧ (kind = .formalSetupConfirmed ↔ e.status = .confirmed) := by
  cases h with
  | candidate hspec _ _ linkage =>
    have ho := creationSpecs_origin r _ hspec
    refine ⟨ho.created _ _, ho.latest _ _, ?_⟩
    simp [(creationSpecs_wf sha256 r _ hspec).active]
  | range => exact ⟨rfl, rfl, by simp [newRange]⟩

variable {sha256} {l : EventLedger δ} {inputs : StrategyEvaluationInput δ} {result : KernelResult δ}

/-- **The rule for a call.** -/
theorem evaluateStrategy_rule (hok : evaluateStrategy sha256 inputs l = .ok result) :
    ∃ bar, inputs.bars5m.getLast? = some bar ∧ ∀ I, CallRule bar (fun kind e =>
        ∃ q, readingsOf sha256 inputs = .ok q ∧ NewEvent sha256 q.2 kind e) I →
      I [] (l, []) → ∃ taken, I taken (result.ledger, result.decisions) := by
  cases hval : inputs.mandatoryDataValid with
  | false =>
    obtain ⟨p, hp, hok⟩ := of_bind hok
    rw [hval] at hok
    obtain ⟨final, hfin, hok⟩ := of_bind hok
    cases hok
    exact ⟨_, prepare_bar hp, fun I hI h => ⟨[], hI.dataInvalidLoop h hfin⟩⟩
  | true =>
    obtain ⟨p, r, progressed, created, ranged, last, hr, ht, rfl⟩ := evaluateStrategy_trace hval hok
    refine ⟨_, readingsOf_bar hr, fun I hI h => ?_⟩
    obtain ⟨taken, hcr⟩ := hI.createSteps (fun spec hspec =>
        ⟨creationSpecs_wf sha256 r spec hspec, List.not_mem_nil, fun zone linkage hzone hcand =>
          ⟨_, hr, .candidate hspec hzone hcand linkage⟩⟩)
      (creationSpecs_slots r) (hI.progressLoop h ht.progress) ht.create
    obtain ⟨taken, hranged⟩ : ∃ taken, I taken (ranged.1, ranged.2.decisions) := by
      refine rangePass_keeps (I := fun p : Pass δ => ∃ taken, I taken (p.1, p.2.decisions))
        (fun side close p q ⟨taken, hp⟩ hstep => ?_) ⟨taken, hcr⟩ ht.range
      rcases rangeStep_cases.of_ok hstep with rfl | ⟨zone, other, hzone, -, hcand, happ⟩
      · exact ⟨taken, hp⟩
      · exact (hI.appendEvent ⟨_, hr, .range hzone hcand other⟩ hp happ).elim
          (fun h => ⟨_, h⟩) fun h => ⟨_, h⟩
    have honBar := rangePass_keeps (I := OnBar r.bar)
      (fun _ _ _ _ hp hstep => rangeStep_onBar hstep hp) ht.onBar_created ht.range
    exact ⟨taken, hI.oppose (fun formal hf => (honBar.2 formal hf).2) hranged ht.oppose⟩

/-- The rule for what holds of every event. -/
theorem evaluateStrategy_events {P : MarketEvent δ → Prop}
    (hok : evaluateStrategy sha256 inputs l = .ok result)
    (hprog : ∀ bar, inputs.bars5m.getLast? = some bar → ∀ e p, P e →
      progressEvent bar e = .ok (some (p.1, p)) → P p.1)
    (hconc : ∀ bar, inputs.bars5m.getLast? = some bar → ∀ e st tr, P e →
      st ≠ .active → st ≠ .confirmed → P (e.conclude st tr bar))
    (hnew : ∀ q kind e, readingsOf sha256 inputs = .ok q → NewEvent sha256 q.2 kind e → P e)
    (h : ∀ e ∈ l, P e) : ∀ e ∈ result.ledger, P e := by
  obtain ⟨bar, hbar, hrule⟩ := evaluateStrategy_rule hok
  refine (hrule (fun _ s => ∀ e ∈ s.1, P e) ⟨fun hs hstep => ?_, fun hs _ _ hst hst' _ _ => ?_,
    fun hs ⟨q, hq, he⟩ _ _ => ?_⟩ h).elim fun _ hfin => hfin
  · simp only [List.forall_mem_append, List.forall_mem_cons] at hs ⊢
    exact ⟨hs.1, hprog bar hbar _ _ hs.2.1 hstep, hs.2.2⟩
  · simp only [List.forall_mem_append, List.forall_mem_cons] at hs ⊢
    exact ⟨hs.1, hconc bar hbar _ _ _ hs.2.1 hst hst', hs.2.2⟩
  · rw [List.forall_mem_append, List.forall_mem_singleton]
    exact ⟨hs, hnew q _ _ hq he⟩

end Calls

end TraderAssist
