/-
TraderAssist/Kernel/EventBars.lean

The bars in a ledger come from the calls: an event carries the bar that created
it and the last one that moved it, and both are current bars of calls.
-/
import TraderAssist.Kernel.CallRule

namespace TraderAssist

open Py

variable {δ : Type}

/-- Every bar of the ledger satisfies `P`. -/
def BarsIn (P : Bar → Prop) (l : EventLedger δ) : Prop :=
  ∀ e ∈ l, P e.createdBar ∧ P e.latestBar

/-- **A call brings only its own bar into the ledger.** -/
theorem evaluate_barsIn [LinearOrder δ] {sha256 : Preimage δ → δ} {P : Bar → Prop}
    {l : EventLedger δ} {inputs : StrategyEvaluationInput δ} {result : KernelResult δ}
    (hok : evaluateStrategy sha256 inputs l = .ok result)
    (hbar : ∀ b, inputs.bars5m.getLast? = some b → P b) (h : BarsIn P l) : BarsIn P result.ledger := by
  refine evaluateStrategy_events hok (fun bar hlast e p he hstep => ?_)
    (fun bar hlast e st tr he _ _ => ⟨he.1, hbar bar hlast⟩) (fun q kind e hq he => ?_) h
  · obtain ⟨-, -, -, -, hadv⟩ := progressEvent_advances hstep
    rw [hadv.latest, show p.1.createdBar = _ from congrArg Origin.createdBar hadv.origin]
    exact ⟨he.1, hbar bar hlast⟩
  · obtain ⟨hcr, hlat, -⟩ := he.spec
    rw [hcr, hlat]
    exact ⟨hbar _ (readingsOf_bar hq), hbar _ (readingsOf_bar hq)⟩

end TraderAssist
