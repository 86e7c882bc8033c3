/-
TraderAssist/Data/Batches.lean

Batches are atomic, evidence is immutable.

Rows are only appended, whatever a call does and wherever it stops (`rows_appended`).  A
batch that raises, for whatever reason and at whatever row, leaves the table as it found it,
the market failed, and the last open as the table has it (`batches_atomic`).
-/
import TraderAssist.Data.Rows

namespace TraderAssist

open Py ClosedBarStore DataAuthority

variable {δ : Type} [DecidableEq δ] {R : RegistryRoot δ} {sha256 : EvidencePreimage δ → δ}

/-- A call appends rows to the table, or leaves it. -/
theorem rows_appended (market : RegistryMarket) (snapshot : List Payload) (receivedAt : Option Datetime)
    (cuts : ℕ → Option ℕ) (s : DataAuthority δ) :
    s.store.rows <+: (after (admitRestHistory R sha256 market snapshot receivedAt cuts) s).store.rows := by
  -- the invariant: rows were appended, and the rows to come are 5m rows of the market
  refine admitRestHistory_rule (E := fun s' => s.store.rows <+: s'.store.rows) (List.prefix_refl _)
    fun accepted hacc => ⟨True, fun l _ s' => s.store.rows <+: s'.store.rows
        ∧ ∀ b ∈ l, b.bar.marketId = market.marketId ∧ b.bar.interval = .m5,
      ⟨fun _ _ => trivial, fun h => h.2, fun _ h => h.1, fun _ h => h.1, fun h h₂ => ?_,
        fun _ _ h => h, ?_⟩, ⟨List.prefix_refl _, (arrivals_ok cuts hacc).1⟩, fun _ s' h => ?_⟩
  · rw [h₂.store]
    exact h.1
  · rintro binding a l cache s₁ ⟨hrows, hl⟩ _
    refine (admitRow_effect (hl a (.head _)).2).mono (fun _ s₂ h => ?_) fun _ s₂ h _ => ?_
    · exact ⟨hrows.trans h.1.rows, fun b hb => hl b (.tail _ hb)⟩
    · rcases h with h | h
      · exact hrows.trans h.rows
      · rw [h.store]
        exact hrows
  · rw [clearFailure_store]
    exact h.1

/-- **Batches are atomic and evidence is immutable**: no row changes or disappears in a
call; and a batch, which a call makes where no Registry is pending, leaves the table as
it was if it raises, with the market failed and its last open that of the table. -/
theorem batches_atomic (s : DataAuthority δ) (market : RegistryMarket) :
    (∀ snapshot receivedAt cuts, s.store.rows
        <+: (after (admitRestHistory R sha256 market snapshot receivedAt cuts) s).store.rows)
      ∧ ∀ (arrivals : List (Arrival δ)) cache err s',
        (∀ a ∈ arrivals, a.bar.marketId = market.marketId ∧ a.bar.interval = .m5) →
        R.pendingVersion s.registry = .ok none →
        admitHistoryBatch R sha256 market arrivals cache s = .error err s' →
        s'.store = s.store ∧ market.marketId ∈ s'.failed
          ∧ s'.lastOpen.get? market.marketId = s.store.lastOpen market.marketId := by
  refine ⟨fun snapshot receivedAt cuts => rows_appended market snapshot receivedAt cuts s, ?_⟩
  intro arrivals cache err s' harrivals hpending herr
  have hrow : ∀ (binding : RegistryVersion) (a : Arrival δ) (l : List (Arrival δ))
      (cache : WindowCache δ) (s : DataAuthority δ),
      (∀ b ∈ a :: l, b.bar.interval = .m5) →
      s.NoGap a.bar →
      Ends (admitRow R sha256 a.bar binding a.bar.provenanceHash (some cache) a.cut) s
        (fun _ _ => ∀ b ∈ l, b.bar.interval = .m5) fun _ _ => True := by
    intro binding a l cache s hl _
    exact (admitRow_effect (hl a (.head _))).mono
      (fun _ _ _ b hb => hl b (.tail _ hb)) fun _ _ _ => trivial
  have h := (admitHistoryBatch_rule (I := fun l _ _ => ∀ b ∈ l, b.bar.interval = .m5) hrow harrivals
    hpending (by rw [List.append_nil]; exact fun b hb => (harrivals b hb).2)).of_error herr
  refine ⟨h.store, ?_, h.lastOpen⟩
  rw [h.failed]
  exact Finset.mem_insert_self _ _

/-! ### A gap in a batch -/

namespace EvidenceTerm

/-- A market, and a Registry version that lists it. -/
def market : RegistryMarket := { display := ['m'], identity := ⟨[], ['c'], ['m']⟩ }

def version : RegistryVersion :=
  sampleVersion [market] (by decide) (by decide)

/-- The files of a Registry where the version is requested, and then active. -/
def pendingFiles : RegistryDisk EvidenceTerm :=
  (Manager.run registryRoot [(.stage version fun _ => some true, none),
    (.requestApply version.version, none)]).disk

def activeFiles : RegistryDisk EvidenceTerm :=
  (Manager.run registryRoot [(.stage version fun _ => some true, none),
    (.requestApply version.version, none), (.applyAdmitted version.createdAt, none)]).disk

/-- A candle that opens at a grid point. -/
def candle (index : ℕ) : Payload :=
  .candle ⟨['5', 'm'], ['c'], index * 300000, index * 300000 + 299999, some ⟨1, 1, 1, 1, 1⟩, []⟩

/-- The accepted bars of the candles at some grid points. -/
def acceptedBars (indices : List ℕ) : List (ClosedBar EvidenceTerm) :=
  match acceptedHistory EvidenceTerm.sha256 market (indices.map candle) (some version.createdAt) with
  | .ok accepted => accepted
  | .error _ => []

end EvidenceTerm

open EvidenceTerm in
/-- Two candles that are too far apart: the first one does not stay. -/
theorem batches_atomic_gap :
    let s : DataAuthority EvidenceTerm := { registry := activeFiles }
    let arrivals := (acceptedBars [0, 10]).map fun bar => ({ bar } : Arrival EvidenceTerm)
    arrivals.length = 2
      ∧ ∃ s', admitHistoryBatch registryRoot EvidenceTerm.sha256 market arrivals Dict.empty s = .error .gap s'
        ∧ s'.store = s.store ∧ market.marketId ∈ s'.failed
        ∧ s'.lastOpen.get? market.marketId = s.store.lastOpen market.marketId := by
  intro s arrivals
  have hlength : arrivals.length = 2 := by decide +kernel
  have hraised : raised (admitHistoryBatch registryRoot EvidenceTerm.sha256 market arrivals Dict.empty) s
      = some .gap := by
    decide +kernel
  have harrivals : ∀ a ∈ arrivals, a.bar.marketId = market.marketId ∧ a.bar.interval = .m5 := by
    decide +kernel
  have hpending : registryRoot.pendingVersion s.registry = .ok none := by decide +kernel
  obtain ⟨s', hs'⟩ := raised_eq_some.mp hraised
  exact ⟨hlength, s', hs', (batches_atomic s market).2 arrivals Dict.empty .gap s' harrivals hpending hs'⟩

end TraderAssist
