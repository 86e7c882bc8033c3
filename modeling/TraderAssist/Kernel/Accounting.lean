/-
TraderAssist/Kernel/Accounting.lean

Every change is reported, once.

`Told` is what a call has done to an event so far, with the decisions it has noted about
it: none while the event waits, one once it has ended or was made.  It holds of every event
throughout a call (`accounted_rule`), so the decisions of a call are those about the events
that it ended or made; and as a confirmed event never changes again, a run confirms each
event at most once.
-/
import TraderAssist.Kernel.CallRule
import TraderAssist.Kernel.Identity

namespace TraderAssist

open Py

variable {δ : Type} {d : StrategyDecision δ}

/-! ### Decisions about an event -/

def StrategyDecision.key (d : StrategyDecision δ) : δ × SetupFamily :=
  (d.marketEventId, d.setupFamily)

/-- The decision reports the event as it stands. -/
def Reports (d : StrategyDecision δ) (e : MarketEvent δ) : Prop :=
  (∃ kind reason, decisionOf e kind reason e.transition = .ok d)
    ∧ (d.decision = .formalSetupConfirmed ↔ e.status = .confirmed)

theorem Reports.key_eq {e : MarketEvent δ} (h : Reports d e) : d.key = e.key := by
  obtain ⟨⟨kind, reason, h⟩, -⟩ := h
  unfold decisionOf at h
  dsimp only at h
  split at h
  · cases h
  · cases h
    rfl

/-- What a call has done to an event, and the decisions about it. -/
inductive Told (bar : Bar) (taken : List Slot) (l : EventLedger δ) (e : MarketEvent δ) :
    List (StrategyDecision δ) → Prop
  | pending {e₀ : MarketEvent δ} (h : e₀ ∈ l) (ho : e.origin = e₀.origin)
      (hs : e.status = e₀.status) : Told bar taken l e []
  | ended {e₀ : MarketEvent δ} {d : StrategyDecision δ} (h : e₀ ∈ l) (ho : e.origin = e₀.origin)
      (hact : e₀.status = .active) (hs : e.status ≠ .active) (hd : Reports d e) :
      Told bar taken l e [d]
  | made {d : StrategyDecision δ} (hkey : e.key ∉ l.keys) (hbar : e.createdBar = bar)
      (htaken : e.status = .active → e.slot ∈ taken) (hd : Reports d e) : Told bar taken l e [d]

theorem Told.mono {bar : Bar} {taken taken' : List Slot} {l : EventLedger δ} {e : MarketEvent δ}
    {ds : List (StrategyDecision δ)} (h : Told bar taken l e ds) (hsub : taken ⊆ taken') :
    Told bar taken' l e ds := by
  cases h with
  | pending h ho hs => exact .pending h ho hs
  | ended h ho hact hs hd => exact .ended h ho hact hs hd
  | made hkey hbar htaken hd => exact .made hkey hbar (fun ha => hsub (htaken ha)) hd

section Calls

variable [DecidableEq δ]

def about (ds : List (StrategyDecision δ)) (k : δ × SetupFamily) : List (StrategyDecision δ) :=
  ds.filter fun d => d.key = k

theorem about_append (ds new : List (StrategyDecision δ)) (k : δ × SetupFamily) :
    about (ds ++ new) k = about ds k ++ about new k :=
  List.filter_append ..

theorem about_eq_nil {ds : List (StrategyDecision δ)} {k : δ × SetupFamily}
    (h : ∀ d ∈ ds, d.key ≠ k) : about ds k = [] := by
  simpa [about] using h

/-- The books of a call on the ledger `l`. -/
structure Accounted (bar : Bar) (l : EventLedger δ) (taken : List Slot) (s : Account δ) :
    Prop where
  nodup : s.1.keys.Nodup
  told : ∀ e ∈ s.1, Told bar taken l e (about s.2 e.key)
  names : ∀ d ∈ s.2, d.key ∈ s.1.keys
  kept : l.keys ⊆ s.1.keys

variable {bar : Bar} {l : EventLedger δ} {taken : List Slot} {done todo : EventLedger δ}
variable {e e' : MarketEvent δ} {ds : List (StrategyDecision δ)} {s : Account δ}

variable {new : List (StrategyDecision δ)}

/-- The only event of its key, with more decisions about it. -/
theorem Accounted.replace (h : Accounted bar l taken (done ++ e :: todo, ds))
    (hkey : e'.key = e.key) (hnew : ∀ d ∈ new, d.key = e.key)
    (htold : Told bar taken l e' (about ds e.key ++ new)) :
    Accounted bar l taken (done ++ e' :: todo, ds ++ new) := by
  have hkeys : EventLedger.keys (done ++ e' :: todo) = EventLedger.keys (done ++ e :: todo) := by
    simp [hkey]
  have hnd : e.key ∉ EventLedger.keys (done ++ todo) := by
    have := h.nodup
    simp only [List.map_append, List.map_cons, List.nodup_middle, List.nodup_cons] at this
    simpa using this.1
  have hsame : about new e.key = new := List.filter_eq_self.mpr fun d hd => by simp [hnew d hd]
  refine ⟨hkeys ▸ h.nodup, fun f hf => ?_, fun d hd => ?_, hkeys ▸ h.kept⟩
  · rw [about_append]
    rcases (by simpa [or_left_comm] using hf : f = e' ∨ f ∈ done ∨ f ∈ todo) with rfl | hf
    · rw [hkey, hsame]
      exact htold
    · have hne : e.key ≠ f.key := fun heq => hnd (heq ▸ List.mem_map_of_mem (List.mem_append.mpr hf))
      have hnone : about new f.key = [] := about_eq_nil fun d hd => hnew d hd ▸ hne
      rw [hnone, List.append_nil]
      exact h.told f (by simp; tauto)
  · rw [hkeys]
    rcases List.mem_append.mp hd with hd | hd
    · exact h.names d hd
    · rw [hnew d hd]
      exact List.mem_map_of_mem (by simp)

theorem Accounted.about_eq_nil (h : Accounted bar l taken s) {k : δ × SetupFamily}
    (hk : k ∉ s.1.keys) : about s.2 k = [] :=
  TraderAssist.about_eq_nil fun d hd heq => hk (heq ▸ h.names d hd)

/-- An ACTIVE event that the call has not made is as it was, with nothing to report. -/
theorem Accounted.waiting (h : Accounted bar l taken (done ++ e :: todo, ds))
    (hact : e.status = .active) (hold : e.createdBar ≠ bar ∨ e.slot ∉ taken) :
    about ds e.key = [] ∧ ∃ e₀ ∈ l, e.origin = e₀.origin ∧ e₀.status = .active := by
  have htold := h.told e (by simp)
  generalize about ds e.key = history at htold
  cases htold with
  | pending h ho hs => exact ⟨rfl, _, h, ho, hs.symm.trans hact⟩
  | ended _ _ _ hs => exact absurd hact hs
  | made _ hbar htaken => exact (hold.elim (· hbar) (· (htaken hact))).elim

theorem Accounted.ends (h : Accounted bar l taken (done ++ e :: todo, ds))
    (hact : e.status = .active) (hold : e.createdBar ≠ bar ∨ e.slot ∉ taken)
    (ho : e'.origin = e.origin) (hs : e'.status ≠ .active)
    (hd : Reports d e') : Accounted bar l taken (done ++ e' :: todo, ds ++ [d]) := by
  obtain ⟨hnil, e₀, h₀, ho₀, hact₀⟩ := h.waiting hact hold
  refine h.replace (key_eq_of_origin ho) (fun d' hd' => ?_) ?_
  · rw [List.mem_singleton.mp hd', hd.key_eq, key_eq_of_origin ho]
  · rw [hnil]
    exact .ended h₀ (ho.trans ho₀) hact₀ hs hd

/-- **A call keeps its books.** -/
theorem accounted_rule {New : DecisionKind → MarketEvent δ → Prop}
    (hNew : ∀ kind e, New kind e → e.createdBar = bar
      ∧ (kind = .formalSetupConfirmed ↔ e.status = .confirmed)) : CallRule bar New (Accounted bar l) where
  progress {_ _ e p ds} h hstep := by
    obtain ⟨-, hact, -, -, hadv⟩ := progressEvent_advances hstep
    rcases hadv.outcome with ⟨hsame, hnone⟩ | ⟨d, hd, hne, hiff, -⟩
    · obtain ⟨hnil, e₀, h₀, ho₀, hact₀⟩ := h.waiting hact (.inr List.not_mem_nil)
      rw [hnone]
      refine h.replace (key_eq_of_origin hadv.origin) (fun d hd => (nomatch hd)) ?_
      rw [hnil]
      exact .pending h₀ (hadv.origin.trans ho₀) (hsame.trans (hact.trans hact₀.symm))
    · rw [hd]
      exact h.ends hact (.inr List.not_mem_nil) hadv.origin hne ⟨hadv.reports d hd, hiff⟩
  conclude {_ _ _ e ds st tr kind reason d} h hact hold hst hst' hkind hd := by
    refine h.ends hact hold (e.conclude_origin st tr bar) hst ⟨⟨kind, reason, hd⟩, ?_⟩
    rw [(decisionOf_spec hd).1]
    exact iff_of_false hkind hst'
  append {taken l' ds kind e reason d} h hnew hid hd := by
    obtain ⟨hbar, hiff⟩ := hNew kind e hnew
    have hfr : e.key ∉ EventLedger.keys l' := fun hmem => hid (hasId_iff.mpr hmem)
    have hd : Reports d e := ⟨⟨kind, reason, hd⟩, (decisionOf_spec hd).1 ▸ hiff⟩
    have hkeys : EventLedger.keys (l' ++ [e]) = l'.keys ++ [e.key] := by simp
    refine ⟨?_, fun f hf => ?_, fun d' hd' => ?_, ?_⟩
    · rw [hkeys]
      exact h.nodup.append (List.nodup_singleton _) (by simpa using hfr)
    · rw [about_append]
      rcases List.mem_append.mp hf with hf | hf
      · have hne : e.key ≠ f.key := fun heq => hfr (heq ▸ List.mem_map_of_mem hf)
        have hnone : about [d] f.key = [] := about_eq_nil (by simpa [hd.key_eq] using hne)
        rw [hnone, List.append_nil]
        exact (h.told f hf).mono (List.subset_cons_self _ _)
      · obtain rfl := List.mem_singleton.mp hf
        have hone : about [d] f.key = [d] := by simp [about, hd.key_eq]
        rw [h.about_eq_nil hfr, hone]
        exact .made (fun hmem => hfr (h.kept hmem)) hbar (fun _ => .head _) hd
    · rw [hkeys]
      rcases List.mem_append.mp hd' with hd' | hd'
      · exact List.mem_append_left _ (h.names d' hd')
      · rw [List.mem_singleton.mp hd', hd.key_eq]
        exact List.mem_append_right _ (List.mem_singleton_self _)
    · rw [hkeys]
      exact fun k hk => List.mem_append_left _ (h.kept hk)

/-! ### One call -/

section

variable (h : Accounted bar l taken s)
include h

/-- Every key has at most one decision. -/
theorem Accounted.about_le_one (k : δ × SetupFamily) : (about s.2 k).length ≤ 1 := by
  by_cases hk : k ∈ s.1.keys
  · obtain ⟨e, he, rfl⟩ := List.mem_map.mp hk
    have htold := h.told e he
    generalize about s.2 e.key = history at htold
    cases htold <;> simp
  · simp [h.about_eq_nil hk]

/-- An event that had ended stays, unreported. -/
theorem Accounted.stays (hl : l.keys.Nodup) (he : e ∈ l) (hne : e.status ≠ .active) :
    about s.2 e.key = [] ∧ ∃ e' ∈ s.1, e'.key = e.key ∧ e'.status = e.status := by
  obtain ⟨e', he', hkey⟩ := List.mem_map.mp (h.kept (List.mem_map_of_mem he))
  have hsame : ∀ {e₀}, e₀ ∈ l → e'.origin = e₀.origin → e₀ = e := fun h₀ ho =>
    List.inj_on_of_nodup_map hl h₀ he ((key_eq_of_origin ho).symm.trans hkey)
  have htold := h.told e' he'
  rw [hkey] at htold
  generalize about s.2 e.key = history at htold ⊢
  cases htold with
  | pending h₀ ho hs => exact ⟨rfl, e', he', hkey, hsame h₀ ho ▸ hs⟩
  | ended h₀ ho hact => exact absurd (hsame h₀ ho ▸ hact) hne
  | made hnew => exact absurd (hkey ▸ List.mem_map_of_mem he) hnew

/-- A decision reports an event that the call has ended or made. -/
theorem Accounted.reported (hl : l.keys.Nodup) (hd : d ∈ s.2) :
    ∃ e ∈ s.1, e.key = d.key ∧ e ∉ l ∧ Reports d e := by
  obtain ⟨e, he, hkey⟩ := List.mem_map.mp (h.names d hd)
  have hmem : d ∈ about s.2 e.key := List.mem_filter.mpr ⟨hd, by simp [hkey]⟩
  have htold := h.told e he
  refine ⟨e, he, hkey, ?_⟩
  generalize about s.2 e.key = history at htold hmem
  cases htold with
  | pending => cases hmem
  | ended h₀ ho hact hs hd' =>
    refine ⟨fun hin => hs ?_, List.mem_singleton.mp hmem ▸ hd'⟩
    rwa [List.inj_on_of_nodup_map hl hin h₀ (key_eq_of_origin ho)]
  | made hnew _ _ hd' =>
    exact ⟨fun hin => hnew (List.mem_map_of_mem hin), List.mem_singleton.mp hmem ▸ hd'⟩

/-! ### The books of a run -/

end

def formals (ds : List (StrategyDecision δ)) (k : δ × SetupFamily) : List (StrategyDecision δ) :=
  (about ds k).filter fun d => d.decision = .formalSetupConfirmed

/-- The books of a run: a formal decision has its CONFIRMED event, and is the only one. -/
structure Booked (l : EventLedger δ) (ds : List (StrategyDecision δ)) : Prop where
  nodup : l.keys.Nodup
  confirmed : ∀ d ∈ ds, d.decision = .formalSetupConfirmed →
    ∃ e ∈ l, e.key = d.key ∧ e.status = .confirmed
  once : ∀ k, (formals ds k).length ≤ 1

theorem Booked.evaluate (h : Booked l ds) {l' : EventLedger δ}
    (hcall : Accounted bar l taken (l', new)) : Booked l' (ds ++ new) := by
  refine ⟨hcall.nodup, fun d hd hform => ?_, fun k => ?_⟩
  · rcases List.mem_append.mp hd with hd | hd
    · obtain ⟨e, he, hkey, hconf⟩ := h.confirmed d hd hform
      obtain ⟨-, e', he', hkey', hs⟩ := hcall.stays h.nodup he (by simp [hconf])
      exact ⟨e', he', hkey'.trans hkey, hs.trans hconf⟩
    · obtain ⟨e, he, hkey, -, hreports⟩ := hcall.reported h.nodup hd
      exact ⟨e, he, hkey, hreports.2.mp hform⟩
  · rw [formals, about_append, List.filter_append, List.length_append]
    change (formals ds k).length + (formals new k).length ≤ 1
    rcases e : formals ds k with - | ⟨d, rest⟩
    · have hle : (formals new k).length ≤ 1 := (List.length_filter_le _ _).trans (hcall.about_le_one k)
      simpa using hle
    · -- the event was confirmed before: the call says nothing about it
      obtain ⟨hd, hform⟩ := List.mem_filter.mp (e ▸ (.head _) : d ∈ formals ds k)
      obtain ⟨hd, hkey⟩ := List.mem_filter.mp hd
      obtain ⟨e', he', hkey', hconf⟩ := h.confirmed d hd (of_decide_eq_true hform)
      obtain ⟨hnil, -⟩ := hcall.stays h.nodup he' (by simp [hconf])
      rw [hkey', of_decide_eq_true hkey] at hnil
      have := h.once k
      rw [e] at this
      simpa [formals, hnil] using this

end Calls

section Runs

variable [LinearOrder δ] {sha256 : Preimage δ → δ} {l : EventLedger δ} {ds : List (StrategyDecision δ)}

theorem accounted_of_evaluate {inputs : StrategyEvaluationInput δ} {result : KernelResult δ}
    (hl : l.keys.Nodup) (hok : evaluateStrategy sha256 inputs l = .ok result) :
    ∃ bar taken, Accounted bar l taken (result.ledger, result.decisions) := by
  obtain ⟨bar, hbar, hrule⟩ := evaluateStrategy_rule hok
  refine ⟨bar, hrule (Accounted bar l) (accounted_rule fun kind e ⟨q, hq, he⟩ => ?_)
    ⟨hl, fun e he => .pending he rfl rfl, fun d hd => (nomatch hd), List.Subset.refl _⟩⟩
  obtain ⟨hcr, -, hiff⟩ := he.spec
  rw [readingsOf_bar hq] at hbar
  exact ⟨hcr.trans (Option.some.inj hbar), hiff⟩

/-! ### Runs -/

/-- The ledgers of all runs whose calls meet `C`, with every decision so far. -/
inductive Evaluated (sha256 : Preimage δ → δ) (C : StrategyEvaluationInput δ → Prop) :
    EventLedger δ → List (StrategyDecision δ) → Prop
  | empty : Evaluated sha256 C [] []
  | evaluate {l : EventLedger δ} {ds : List (StrategyDecision δ)} {inputs : StrategyEvaluationInput δ}
      {result : KernelResult δ} : Evaluated sha256 C l ds → C inputs →
      evaluateStrategy sha256 inputs l = .ok result →
      Evaluated sha256 C result.ledger (ds ++ result.decisions)
  | shutdown {l : EventLedger δ} {ds : List (StrategyDecision δ)} : Evaluated sha256 C l ds →
      Evaluated sha256 C (markUnresolvedAtShutdown l) ds

theorem Evaluated.booked {C : StrategyEvaluationInput δ → Prop}
    (h : Evaluated sha256 C l ds) : Booked l ds := by
  induction h with
  | empty => exact ⟨List.nodup_nil, fun _ hd => (nomatch hd), fun _ => Nat.zero_le 1⟩
  | evaluate _ _ hok ih =>
    obtain ⟨bar, taken, hcall⟩ := accounted_of_evaluate ih.nodup hok
    exact ih.evaluate hcall
  | @shutdown l _ _ ih =>
    have hkeys : (markUnresolvedAtShutdown l).keys = l.keys := by
      rw [EventLedger.keys, markUnresolvedAtShutdown, List.map_map]
      refine List.map_congr_left fun e _ => ?_
      rw [Function.comp_apply]
      split_ifs <;> rfl
    refine ⟨hkeys ▸ ih.nodup, fun d hd hform => ?_, ih.once⟩
    obtain ⟨e, he, hkey, hconf⟩ := ih.confirmed d hd hform
    exact ⟨e, List.mem_map.mpr ⟨e, he, by simp [hconf]⟩, hkey, hconf⟩

/-- **Decision accounting.** A call reports every event whose status it changes or that it
adds exactly once, as FORMAL_SETUP_CONFIRMED if and only if the event has become CONFIRMED,
and reports nothing else; and in no run is an event confirmed twice. -/
theorem decision_accounting (h : Evaluated sha256 (fun _ => True) l ds) : (∀ k, (formals ds k).length ≤ 1)
      ∧ ∀ inputs result, evaluateStrategy sha256 inputs l = .ok result →
        result.ledger.keys.Nodup ∧ l.keys ⊆ result.ledger.keys
          ∧ (∀ e ∈ result.ledger, (∀ e₀ ∈ l, e₀.key = e.key → e₀.status ≠ e.status) →
            ∃ d, about result.decisions e.key = [d] ∧ Reports d e)
          ∧ ∀ d ∈ result.decisions, ∃ e ∈ result.ledger, e.key = d.key ∧ e ∉ l := by
  have hbooked := h.booked
  refine ⟨hbooked.once, fun inputs result hok => ?_⟩
  obtain ⟨bar, taken, hcall⟩ := accounted_of_evaluate hbooked.nodup hok
  refine ⟨hcall.nodup, hcall.kept, fun e he hchanged => ?_, fun d hd => ?_⟩
  · have htold := hcall.told e he
    generalize about result.decisions e.key = history at htold ⊢
    cases htold with
    | pending h₀ ho hs => exact absurd hs.symm (hchanged _ h₀ (key_eq_of_origin ho).symm)
    | ended _ _ _ _ hd => exact ⟨_, rfl, hd⟩
    | made _ _ _ hd => exact ⟨_, rfl, hd⟩
  · obtain ⟨e, he, hkey, hnew, -⟩ := hcall.reported hbooked.nodup hd
    exact ⟨e, he, hkey, hnew⟩

/-- A sweep and a range event of one call, each with its decision. -/
theorem decision_accounting_swing : ∃ result, evaluateStrategy Digest.nested swingInput [] = .ok result
      ∧ result.decisions.map (fun d => (d.decision, d.setupFamily))
        = [(.wait, .sweepReclaim), (.formalSetupConfirmed, .rangeEdgeRejection)]
      ∧ ∀ k, (formals ([] ++ result.decisions) k).length ≤ 1 := by
  have heval : (evaluateStrategy Digest.nested swingInput []).toOption.map
      (fun result => result.decisions.map fun d => (d.decision, d.setupFamily))
      = some [(.wait, .sweepReclaim), (.formalSetupConfirmed, .rangeEdgeRejection)] := by
    decide +kernel
  rcases hok : evaluateStrategy Digest.nested swingInput [] with err | result
  · rw [hok] at heval
    cases heval
  · rw [hok] at heval
    refine ⟨result, rfl, Option.some.inj heval, fun k => ?_⟩
    convert (decision_accounting (Evaluated.empty.evaluate trivial hok)).1 k

end Runs

end TraderAssist
