/-
TraderAssist/Scanner/Compose.lean

The selection of one live scanner path per market (`compose_scanner_market` and
its queries in `integration.py`).

The state is what the queries of the composition read: the retained candidate
records with live authority, in the order they were written.  A composition at a
boundary first looks for a record of that boundary, then for the active breakout
paths among the records of the last 13 bars and the one record before them, and
either advances the active path or persists what the scan discovered.  The scan
evidence itself and the payload fields that no query of this function reads (the
scan id, the timestamps, the transition rows) are left out.

What the rest of the service answers during a progression (readiness, the
retained bars, the continuation) is arbitrary at every call.  A receipt carries
the proof that its observations come from `scan_cross_section`.

The invariant of a market (`OnePath`) is that a live record is the last one of
its market or has been continued by a later record of the same candidate.  Since
the window together with its predecessor is closed upwards in time, the newest
record it holds of a candidate is the newest of all (`activeRecords_spec`), so
the window loses nothing.
-/
import TraderAssist.Scanner.Lifetime

namespace TraderAssist

open Py

variable {δ : Type} [DecidableEq δ]

/-! ### Records and queries -/

inductive CompositionError
  | observationMissing
  | contradictoryAuthority
  | multipleActivePaths
  | notReady
  | boundaryNotRetained
  | continuation
  | atrMissing
  | publicEvidence
  | scanner (error : ScannerError)
  | duplicateCheckpoint
  | notDiscovered
  | multipleAuthorities
  | suppressedBySelected
  | suppressedByActive
  | evidenceConflict
deriving DecidableEq

/-- The identity of a candidate record. -/
structure CandidateKey (δ : Type) where
  scannerCandidateId : δ
  state : ScannerState
  sourceBoundaryOpenTimeMs : ℕ
deriving DecidableEq

/-- A retained candidate with live authority; `prior` is the record it was
progressed from. -/
structure CandidateRecord (δ : Type) where
  boundary : ℕ
  candidate : ScannerCandidate δ
  prior : Option (CandidateKey δ)
deriving DecidableEq

namespace CandidateRecord

def key (r : CandidateRecord δ) : CandidateKey δ :=
  ⟨r.candidate.candidateId, r.candidate.state, r.boundary⟩

/-- A record of a candidate with a breakout bar. -/
def Breakout (r : CandidateRecord δ) : Prop := r.candidate.breakoutBarOpenTimeMs ≠ none

instance (r : CandidateRecord δ) : Decidable r.Breakout := by
  unfold Breakout
  infer_instance

end CandidateRecord

def recordsOf (records : List (CandidateRecord δ)) (marketId : Text) : List (CandidateRecord δ) :=
  records.filter fun r => r.candidate.marketId = marketId

/-- `_candidate_records`. -/
def candidateRecords (records : List (CandidateRecord δ)) (marketId : Text) (boundary : ℕ) :
    List (CandidateRecord δ) :=
  (recordsOf records marketId).filter fun r => r.boundary = boundary

/-- The length of the query window. -/
def windowMs : ℕ := 13 * fiveMinutesMs

/-- The rows of the window query, newest first. -/
def progressionWindow (records : List (CandidateRecord δ)) (marketId : Text) (before : ℕ) :
    List (CandidateRecord δ) :=
  (sortBy CandidateRecord.boundary ((recordsOf records marketId).filter fun r =>
    before ≤ r.boundary + windowMs ∧ r.boundary < before)).reverse

/-- The row of the predecessor query. -/
def progressionPredecessor (records : List (CandidateRecord δ)) (marketId : Text) (before : ℕ) :
    Option (CandidateRecord δ) :=
  maxBy CandidateRecord.boundary ((recordsOf records marketId).filter fun r =>
    r.boundary + windowMs < before)

/-- What the loop over the rows keeps. -/
structure Checkpoints (δ : Type) where
  slots : List (δ × ℕ)
  latest : Dict δ (CandidateRecord δ)

/-- The body of the loop. -/
def checkpoint (before : ℕ) (seen : Checkpoints δ) (r : CandidateRecord δ) :
    Except CompositionError (Checkpoints δ) :=
  if before ≤ r.boundary ∨ ¬ r.Breakout then .ok seen
  else if (r.candidate.candidateId, r.boundary) ∈ seen.slots then .error .duplicateCheckpoint
  else
    let newer := (seen.latest.get? r.candidate.candidateId).all fun old => old.boundary < r.boundary
    .ok
      { slots := (r.candidate.candidateId, r.boundary) :: seen.slots
        latest := if newer then seen.latest.set r.candidate.candidateId r else seen.latest }

/-- `_active_breakout_candidate_records`. -/
def activeBreakoutCandidateRecords (records : List (CandidateRecord δ)) (marketId : Text)
    (before : ℕ) : Except CompositionError (List (CandidateRecord δ)) := do
  let rows := progressionWindow records marketId before
    ++ (progressionPredecessor records marketId before).toList
  let seen ← rows.foldlM (checkpoint before) ⟨[], Dict.empty⟩
  pure (seen.latest.values.filter fun r => r.candidate.state.classify = .progressionEligible)

/-! ### Composition -/

structure ScannerPublicSnapshot where
  currentSpreadPrice : ℚ
  liquidityHealthy : Bool

/-- A validated scanner run: its observations were discovered. -/
structure ScannerRunReceipt (sha256 : Preimage δ → δ) where
  boundary : ℕ
  observations : List (ScannerObservation δ)
  publicSnapshot : Text → Option ScannerPublicSnapshot
  discovered : ∃ inputs, scanCrossSection sha256 inputs = .ok observations

/-- What the service answers when a path is to be advanced. -/
structure ProgressionAnswers where
  ready : Bool
  retained : List Bar
  continuationAtr : Option (Option ℚ)

structure ScannerCompositionReceipt (δ : Type) where
  selectedCandidate : Option (ScannerCandidate δ)
  selectedCandidateRecord : Option (CandidateRecord δ)
  rawDiscovery : Option (ScannerCandidate δ)
  rawDiscoverySuppressed : Bool

/-- `_persist_candidate_projection`: a record of the same identity is either the
same record or a conflict. -/
def persistCandidateProjection (records : List (CandidateRecord δ)) (boundary : ℕ)
    (candidate : ScannerCandidate δ) (prior : Option (CandidateRecord δ)) :
    Except CompositionError (List (CandidateRecord δ) × CandidateRecord δ) :=
  let record : CandidateRecord δ := ⟨boundary, candidate, prior.map CandidateRecord.key⟩
  match records.find? fun r => r.key = record.key with
  | none => .ok (records ++ [record], record)
  | some retained =>
    if retained = record then .ok (records, record) else .error .evidenceConflict

variable {sha256 : Preimage δ → δ}

/-- `persist_scanner_candidate`. -/
def persistScannerCandidate (records : List (CandidateRecord δ)) (receipt : ScannerRunReceipt sha256)
    (candidateId : δ) : Except CompositionError (List (CandidateRecord δ) × CandidateRecord δ) :=
  match receipt.observations.filterMap fun o => o.candidate.filter (·.candidateId = candidateId) with
  | [candidate] =>
    match candidateRecords records candidate.marketId receipt.boundary with
    | [] => do
      let active ← activeBreakoutCandidateRecords records candidate.marketId receipt.boundary
      require (active = []) .suppressedByActive
      persistCandidateProjection records receipt.boundary candidate none
    | [existing] => do
      require (existing.candidate.candidateId = candidateId) .suppressedBySelected
      pure (records, existing)
    | _ => .error .multipleAuthorities
  | _ => .error .notDiscovered

/-- The branch of an active path: advance it at this boundary. -/
def progressActive (receipt : ScannerRunReceipt sha256) (marketId : Text)
    (answers : ProgressionAnswers) (prior : CandidateRecord δ) :
    Except CompositionError (ScannerCandidate δ) := do
  require (answers.ready = true) .notReady
  require (answers.retained.getLast?.map Bar.openTimeMs = some receipt.boundary)
    .boundaryNotRetained
  let atr ← answers.continuationAtr.elim (.error .continuation) .ok
  require (atr.isSome = true) .atrMissing
  match receipt.publicSnapshot marketId with
  | none => throw .publicEvidence
  | some source =>
    (prior.candidate.advance answers.retained source.currentSpreadPrice source.liquidityHealthy
      atr).mapError .scanner

def composeScannerMarket (records : List (CandidateRecord δ)) (receipt : ScannerRunReceipt sha256)
    (marketId : Text) (answers : ProgressionAnswers) :
    Except CompositionError (List (CandidateRecord δ) × ScannerCompositionReceipt δ) :=
  match receipt.observations.filter fun o => o.marketId = marketId with
  | [raw] =>
    match candidateRecords records marketId receipt.boundary with
    | [] => do
      let active ← activeBreakoutCandidateRecords records marketId receipt.boundary
      match active with
      | [] =>
        match raw.candidate with
        | none => pure (records, ⟨none, none, none, false⟩)
        | some candidate => do
          let (records', record) ← persistScannerCandidate records receipt candidate.candidateId
          pure (records', ⟨some candidate, some record, some candidate, false⟩)
      | [prior] => do
        let progressed ← progressActive receipt marketId answers prior
        let (records', record) ←
          persistCandidateProjection records receipt.boundary progressed (some prior)
        pure (records', ⟨some progressed, some record, raw.candidate, raw.candidate.isSome⟩)
      | _ => throw .multipleActivePaths
    | [current] =>
      pure (records, ⟨some current.candidate, some current, raw.candidate,
        raw.candidate.any fun c => c.candidateId ≠ current.candidate.candidateId⟩)
    | _ => .error .contradictoryAuthority
  | _ => .error .observationMissing

/-! ### The active paths of a market -/

section Active

variable {before : ℕ} {latest : Dict δ (CandidateRecord δ)} {done : List (CandidateRecord δ)}
variable {r : CandidateRecord δ}

/-- The loop has read `done`: every entry is the newest breakout row of its
candidate, and every such candidate has an entry. -/
structure Newest (latest : Dict δ (CandidateRecord δ)) (done : List (CandidateRecord δ)) :
    Prop where
  newest : ∀ id r, latest.get? id = some r →
    r ∈ done ∧ r.Breakout ∧ r.candidate.candidateId = id
      ∧ ∀ r' ∈ done, r'.Breakout → r'.candidate.candidateId = id → r'.boundary ≤ r.boundary
  complete : ∀ r ∈ done, r.Breakout → latest.get? r.candidate.candidateId ≠ none

theorem Newest.empty : Newest (Dict.empty : Dict δ (CandidateRecord δ)) [] := by
  refine ⟨?_, by simp⟩
  intro id r h
  cases h

/-- A row that is no breakout, or not newer than the entry of its candidate. -/
theorem Newest.keep (h : Newest latest done)
    (hr : r.Breakout → ∃ kept, latest.get? r.candidate.candidateId = some kept
      ∧ r.boundary ≤ kept.boundary) : Newest latest (done ++ [r]) := by
  refine ⟨fun id old hold => ?_, forall_mem_snoc h.complete fun hb => ?_⟩
  · obtain ⟨hmem, hb, hid, hmax⟩ := h.newest id old hold
    refine ⟨List.mem_append_left _ hmem, hb, hid, forall_mem_snoc hmax fun hb' hid' => ?_⟩
    obtain ⟨kept, hkept, hle⟩ := hr hb'
    rw [hid', hold] at hkept
    rwa [Option.some.inj hkept]
  · obtain ⟨kept, hkept, -⟩ := hr hb
    rw [hkept]
    exact nofun

/-- A breakout row newer than the entry of its candidate takes its place. -/
theorem Newest.set (h : Newest latest done) (hr : r.Breakout)
    (hnewer : ∀ old, latest.get? r.candidate.candidateId = some old → old.boundary < r.boundary) :
    Newest (latest.set r.candidate.candidateId r) (done ++ [r]) := by
  refine ⟨fun id old hold => ?_, forall_mem_snoc (fun r' hr' hb hnone => ?_) fun _ => by simp⟩
  · rw [Dict.get?_set] at hold
    split_ifs at hold with hid
    · cases hold
      refine ⟨by simp, hr, hid, forall_mem_snoc (fun r' hr' hb' hid' => ?_) fun _ _ => le_rfl⟩
      rw [← hid] at hid'
      obtain ⟨old, hold⟩ := Option.ne_none_iff_exists'.mp (h.complete r' hr' hb')
      rw [hid'] at hold
      exact ((h.newest _ _ hold).2.2.2 r' hr' hb' hid').trans (hnewer old hold).le
    · obtain ⟨hmem, hb, hid', hmax⟩ := h.newest id old hold
      exact ⟨List.mem_append_left _ hmem, hb, hid', forall_mem_snoc hmax fun _ heq => absurd heq hid⟩
  · exact h.complete r' hr' hb (Dict.get?_set_eq_none.mp hnone).2

theorem Newest.checkpoint {seen seen' : Checkpoints δ}
    (h : Newest seen.latest done) (hr : r.boundary < before)
    (hok : checkpoint before seen r = .ok seen') : Newest seen'.latest (done ++ [r]) := by
  unfold TraderAssist.checkpoint at hok
  split_ifs at hok with hskip hslot
  · obtain rfl := Except.ok.inj hok
    exact h.keep fun hb => absurd hb (hskip.resolve_left (by omega))
  · obtain rfl := Except.ok.inj hok
    have hbreak : r.Breakout := by
      by_contra hb
      exact hskip (.inr hb)
    rcases e : seen.latest.get? r.candidate.candidateId with - | old
    · exact h.set hbreak fun old hold => by rw [e] at hold; cases hold
    · by_cases hlt : old.boundary < r.boundary
      · rw [Option.all_some, if_pos (decide_eq_true hlt)]
        refine h.set hbreak fun old' hold => ?_
        rw [e] at hold
        rwa [← Option.some.inj hold]
      · rw [if_neg (by simpa using hlt)]
        exact h.keep fun _ => ⟨old, e, not_lt.mp hlt⟩

theorem Newest.foldlM {rows : List (CandidateRecord δ)} {seen seen' : Checkpoints δ}
    (h : Newest seen.latest done) (hrows : ∀ r ∈ rows, r.boundary < before)
    (hok : rows.foldlM (TraderAssist.checkpoint before) seen = .ok seen') :
    Newest seen'.latest (done ++ rows) := by
  induction rows generalizing seen done with
  | nil =>
    cases hok
    simpa using h
  | cons r rows ih =>
    obtain ⟨next, hnext, hok⟩ := of_bind hok
    have := ih (h.checkpoint (hrows r (.head _)) hnext)
      (fun r' hr' => hrows r' (.tail _ hr')) hok
    simpa using this

variable {records : List (CandidateRecord δ)} {marketId : Text}

omit [DecidableEq δ] in
theorem mem_progressionWindow : r ∈ progressionWindow records marketId before
    ↔ r ∈ recordsOf records marketId ∧ before ≤ r.boundary + windowMs ∧ r.boundary < before := by
  simp [progressionWindow]

/-- The rows that the loop reads. -/
abbrev progressionRows (records : List (CandidateRecord δ)) (marketId : Text) (before : ℕ) :=
  progressionWindow records marketId before ++ (progressionPredecessor records marketId before).toList

omit [DecidableEq δ] in
/-- The rows are records of the market before the boundary, and with a row they hold every later
record. -/
theorem mem_progressionRows (hr : r ∈ progressionRows records marketId before) :
    r ∈ recordsOf records marketId ∧ r.boundary < before
      ∧ ∀ r' ∈ recordsOf records marketId, r'.boundary < before → r.boundary < r'.boundary →
        r' ∈ progressionRows records marketId before := by
  rcases List.mem_append.mp hr with hr | hr
  · obtain ⟨hmem, hwin, hlt⟩ := mem_progressionWindow.mp hr
    refine ⟨hmem, hlt, fun r' hr' hlt' haft => List.mem_append_left _ ?_⟩
    exact mem_progressionWindow.mpr ⟨hr', by omega, hlt'⟩
  · obtain ⟨hmem, hmax⟩ := maxBy_spec (Option.mem_toList.mp hr)
    simp only [List.mem_filter, decide_eq_true_eq] at hmem hmax
    refine ⟨hmem.1, by omega, fun r' hr' hlt' haft => List.mem_append_left _ ?_⟩
    -- a record after the predecessor cannot be before the window
    refine mem_progressionWindow.mpr ⟨hr', ?_, hlt'⟩
    by_contra hout
    have := hmax r' ⟨hr', by omega⟩
    omega

omit [DecidableEq δ] in
/-- The newest record of a market before the boundary is among the rows. -/
theorem newest_mem_progressionRows (hr : r ∈ recordsOf records marketId)
    (hlt : r.boundary < before) (hmax : ∀ r' ∈ recordsOf records marketId, r'.boundary ≤ r.boundary)
    (hinj : ∀ r' ∈ recordsOf records marketId, r'.boundary = r.boundary → r' = r) :
    r ∈ progressionRows records marketId before := by
  rcases le_or_gt before (r.boundary + windowMs) with hwin | hout
  · exact List.mem_append_left _ (mem_progressionWindow.mpr ⟨hr, hwin, hlt⟩)
  · apply List.mem_append_right
    rw [Option.mem_toList]
    rcases e : progressionPredecessor records marketId before with - | p
    · have hnil := maxBy_eq_none.mp e
      have hin : r ∈ (recordsOf records marketId).filter fun r => r.boundary + windowMs < before := by
        simp only [List.mem_filter, decide_eq_true_eq]
        exact ⟨hr, hout⟩
      rw [hnil] at hin
      cases hin
    · obtain ⟨hmem, hle⟩ := maxBy_spec e
      simp only [List.mem_filter, decide_eq_true_eq] at hmem hle
      rw [hinj p hmem.1 (le_antisymm (hmax p hmem.1) (hle r ⟨hr, hout⟩))]

/-- The records of one market: in order, no watch among the breakouts, and a
live record is the last or has been continued. -/
structure OnePath (path : List (CandidateRecord δ)) : Prop where
  ordered : path.Pairwise fun a b => a.boundary < b.boundary
  settled : ∀ r ∈ path, r.Breakout → r.candidate.state.classify ≠ .discoveryOnly
  continued : ∀ r ∈ path, r.candidate.Live → path.getLast? = some r
    ∨ ∃ r' ∈ path, r.boundary < r'.boundary ∧ r'.Breakout
      ∧ r'.candidate.candidateId = r.candidate.candidateId

omit [DecidableEq δ] in
theorem OnePath.last_max {path : List (CandidateRecord δ)} (h : OnePath path)
    {last : CandidateRecord δ} (hlast : path.getLast? = some last) :
    last ∈ path ∧ (∀ r ∈ path, r.boundary ≤ last.boundary)
      ∧ ∀ r ∈ path, r.boundary = last.boundary → r = last := by
  obtain ⟨front, rfl⟩ := List.getLast?_eq_some_iff.mp hlast
  have hlt : ∀ r ∈ front, r.boundary < last.boundary := fun r hr =>
    (List.pairwise_append.mp h.ordered).2.2 r hr last (.head _)
  refine ⟨by simp, forall_mem_snoc (fun r hr => (hlt r hr).le) le_rfl, ?_⟩
  exact forall_mem_snoc (fun r hr heq => absurd heq (hlt r hr).ne) fun _ => rfl

/-- **Only the last record of a market can be active, and if it is live it
is.**  The query window loses no path, however long the gap before the
boundary. -/
theorem activeRecords_spec (h : OnePath (recordsOf records marketId))
    (hbef : ∀ r ∈ recordsOf records marketId, r.boundary < before) {active : List (CandidateRecord δ)}
    (hok : activeBreakoutCandidateRecords records marketId before = .ok active) : active.length ≤ 1
      ∧ (∀ r ∈ active, (recordsOf records marketId).getLast? = some r ∧ r.candidate.Live)
      ∧ ∀ r, (recordsOf records marketId).getLast? = some r → r.candidate.Live → r ∈ active := by
  obtain ⟨seen, hseen, hok⟩ := of_bind hok
  cases hok
  have hreads := Newest.empty.foldlM (fun r hr => (mem_progressionRows hr).2.1) hseen
  have honly : ∀ r ∈ seen.latest.values.filter fun r =>
      r.candidate.state.classify = .progressionEligible,
      (recordsOf records marketId).getLast? = some r ∧ r.candidate.Live := by
    intro r hr
    rw [List.mem_filter, decide_eq_true_eq] at hr
    obtain ⟨id, hid⟩ := Dict.mem_values.mp hr.1
    obtain ⟨hrow, hbreak, hid', hmax⟩ := hreads.newest id r hid
    obtain ⟨hmem, -, hltr⟩ := mem_progressionRows hrow
    have hlive : r.candidate.Live := ⟨hbreak, hr.2⟩
    refine ⟨?_, hlive⟩
    -- a later record of the candidate would be a row, and newer
    rcases h.continued r hmem hlive with hlast | ⟨r', hr', hlt, hb', hsame⟩
    · exact hlast
    · have := hmax r' (hltr r' hr' (hbef r' hr') hlt) hb' (hsame.trans hid')
      omega
  refine ⟨?_, honly, fun r hlast hlive => ?_⟩
  · -- all entries are the last record, and entries have distinct candidates
    have hnd : (seen.latest.values.map fun r => r.candidate.candidateId).Nodup := by
      have hkeys : seen.latest.values.map (fun r => r.candidate.candidateId)
          = seen.latest.entries.map Prod.fst := by
        rw [Dict.values, List.map_map]
        refine List.map_congr_left fun e he => ?_
        exact (hreads.newest e.1 e.2 (Dict.mem_entries.mp he)).2.2.1
      rw [hkeys]
      exact seen.latest.nodup
    have hnd' := (List.Nodup.of_map _ hnd).filter
      fun r : CandidateRecord δ => decide (r.candidate.state.classify = .progressionEligible)
    generalize seen.latest.values.filter _ = active at hnd' honly ⊢
    rcases active with - | ⟨a, - | ⟨b, rest⟩⟩
    · exact Nat.zero_le 1
    · exact le_rfl
    · have ha := (honly a (by simp)).1
      have hb := (honly b (by simp)).1
      cases ha.symm.trans hb
      exact absurd (.head _) (List.nodup_cons.mp hnd').1
  · obtain ⟨hmem, hmax, hinj⟩ := h.last_max hlast
    have hrow := newest_mem_progressionRows hmem (hbef r hmem) hmax hinj
    rcases e : seen.latest.get? r.candidate.candidateId with - | r'
    · exact absurd e (hreads.complete r hrow hlive.1)
    · obtain ⟨hrow', -, -, hmax'⟩ := hreads.newest _ _ e
      have hmem' := (mem_progressionRows hrow').1
      have heq := hinj r' hmem' (le_antisymm (hmax r' hmem') (hmax' r hrow hlive.1 rfl))
      rw [List.mem_filter, decide_eq_true_eq]
      exact ⟨Dict.mem_values.mpr ⟨_, heq ▸ e⟩, hlive.2⟩

/-- `latest` is the newest record of the candidate `id` with a breakout bar. -/
def latestRecord (records : List (CandidateRecord δ)) (marketId : Text) (id : δ) :
    Option (CandidateRecord δ) :=
  maxBy CandidateRecord.boundary ((recordsOf records marketId).filter fun r =>
    r.Breakout ∧ r.candidate.candidateId = id)

/-- Unless the last record is live, every breakout candidate has ended. -/
theorem OnePath.latest_terminal (h : OnePath (recordsOf records marketId))
    (hlast : ∀ r, (recordsOf records marketId).getLast? = some r → ¬ r.candidate.Live)
    {old : CandidateRecord δ} (hold : old ∈ recordsOf records marketId) (hb : old.Breakout) :
    ∃ latest, latestRecord records marketId old.candidate.candidateId = some latest
      ∧ latest.candidate.state.classify = .terminal := by
  rcases e : latestRecord records marketId old.candidate.candidateId with - | latest
  · have hnil := List.filter_eq_nil_iff.mp (maxBy_eq_none.mp e) old hold
    exact absurd (decide_eq_true ⟨hb, rfl⟩) hnil
  · obtain ⟨hmem, hmax⟩ := maxBy_spec e
    simp only [List.mem_filter, decide_eq_true_eq] at hmem hmax
    obtain ⟨hin, hbreak, hid⟩ := hmem
    refine ⟨latest, rfl, ?_⟩
    rcases hclass : latest.candidate.state.classify
    · exact absurd hclass (h.settled latest hin hbreak)
    · -- still eligible: then it is the last record, or not the newest
      rcases h.continued latest hin ⟨hbreak, hclass⟩ with hl | ⟨r', hr', hlt, hb', hsame⟩
      · exact absurd ⟨hbreak, hclass⟩ (hlast latest hl)
      · have := hmax r' ⟨hr', hb', hsame.trans hid⟩
        omega
    · rfl

end Active

/-! ### One composition -/

section Step

variable {records : List (CandidateRecord δ)} {receipt : ScannerRunReceipt sha256} {marketId : Text}
  {answers : ProgressionAnswers} {r : CandidateRecord δ}

/-- The record a composition adds: the active path advanced, or a discovery
where no path is active. -/
structure Selected (records : List (CandidateRecord δ)) (receipt : ScannerRunReceipt sha256)
    (marketId : Text) (r : CandidateRecord δ) : Prop where
  vacant : candidateRecords records marketId receipt.boundary = []
  boundary : r.boundary = receipt.boundary
  authority :
    (∃ prior, activeBreakoutCandidateRecords records marketId receipt.boundary = .ok [prior]
        ∧ r.prior = some prior.key ∧ prior.candidate.Advances r.candidate)
      ∨ (activeBreakoutCandidateRecords records marketId receipt.boundary = .ok []
        ∧ r.prior = none ∧ r.candidate.marketId = marketId ∧ (r.Breakout → r.candidate.Live))

variable {candidate : ScannerCandidate δ} {boundary : ℕ}

/-- Not the error of two active paths. -/
def OtherError (e : CompositionError) : Prop := e ≠ .multipleActivePaths

theorem OtherError.elim {p : Prop} (e : CompositionError) (h : OtherError e)
    (heq : e = .multipleActivePaths) : p :=
  absurd heq h

theorem activeBreakoutCandidateRecords_other {before : ℕ} :
    Sat (activeBreakoutCandidateRecords records marketId before) (fun _ => True) OtherError := by
  refine (Sat.foldlM (I := fun _ => True) (fun seen _ r _ => ?_) _ trivial).bind fun _ _ => trivial
  unfold checkpoint
  split_ifs
  · trivial
  · exact nofun
  · trivial

theorem persistCandidateProjection_cases {prior : Option (CandidateRecord δ)} :
    Sat (persistCandidateProjection records boundary candidate prior) (fun out => out.1 = records
      ∨ out.1 = records ++ [⟨boundary, candidate, prior.map CandidateRecord.key⟩]) OtherError := by
  unfold persistCandidateProjection
  dsimp only
  split
  · exact .inr rfl
  · split_ifs
    · exact .inl rfl
    · exact nofun

theorem persistScannerCandidate_cases (hfnd : ∃ o ∈ receipt.observations, o.candidate = some candidate) :
    Sat (persistScannerCandidate records receipt candidate.candidateId) (fun out => out.1 = records
      ∨ out.1 = records ++ [⟨receipt.boundary, candidate, none⟩]) OtherError := by
  unfold persistScannerCandidate
  split
  · next found hmatch =>
    -- the only match is the candidate that was looked for
    have hsame : found = candidate := by
      obtain ⟨o, ho, hcand⟩ := hfnd
      have hin : candidate ∈ receipt.observations.filterMap fun o =>
          o.candidate.filter (·.candidateId = candidate.candidateId) :=
        List.mem_filterMap.mpr ⟨o, ho, by simp [hcand]⟩
      rw [hmatch, List.mem_singleton] at hin
      exact hin.symm
    subst hsame
    split
    · refine activeBreakoutCandidateRecords_other.bind fun active _ => ?_
      exact (Sat.require nofun).bind fun _ _ => persistCandidateProjection_cases
    · exact (Sat.require nofun).bind fun _ _ => .inl rfl
    · exact nofun
  · exact nofun

omit [DecidableEq δ] in
theorem progressActive_advances {prior : CandidateRecord δ} :
    Sat (progressActive receipt marketId answers prior) prior.candidate.Advances OtherError := by
  refine (Sat.require nofun).bind fun _ _ => ?_
  refine (Sat.require nofun).bind fun _ _ => ?_
  have hatr : Sat (answers.continuationAtr.elim (.error .continuation) .ok : Except _ (Option ℚ))
      (fun _ => True) OtherError := by
    rcases answers.continuationAtr with - | atr
    · exact nofun
    · trivial
  refine hatr.bind fun atr _ => ?_
  refine (Sat.require nofun).bind fun _ _ => ?_
  split
  · exact nofun
  · exact (ScannerCandidate.advance_advances _ _ _ _).mapError nofun

/-- **What a composition does**: nothing, or one more record.  Two active paths are the only
source of their error. -/
theorem composeScannerMarket_cases :
    Sat (composeScannerMarket records receipt marketId answers)
      (fun out => out.1 = records ∨ ∃ r, out.1 = records ++ [r] ∧ Selected records receipt marketId r)
      fun e => e = .multipleActivePaths → candidateRecords records marketId receipt.boundary = []
        ∧ ∃ active, activeBreakoutCandidateRecords records marketId receipt.boundary = .ok active
          ∧ 1 < active.length := by
  unfold composeScannerMarket
  split
  · next raw hraw =>
    have hrawmem : raw ∈ receipt.observations ∧ raw.marketId = marketId := by
      have : raw ∈ receipt.observations.filter fun o => o.marketId = marketId := by simp [hraw]
      simpa using this
    split
    · next hvac =>
      refine Sat.bind (Sat.self fun e he =>
        (activeBreakoutCandidateRecords_other.of_error he).elim) fun active hact => ?_
      rcases active with - | ⟨prior, - | ⟨other, rest⟩⟩
      · dsimp only
        split
        · exact .inl rfl
        · next candidate hcand =>
          obtain ⟨inputs, hinp⟩ := receipt.discovered
          obtain ⟨hmkt, hlive⟩ := scanCrossSection_discovered hinp raw hrawmem.1 candidate hcand
          refine ((persistScannerCandidate_cases ⟨raw, hrawmem.1, hcand⟩).mono (fun _ h => h)
            OtherError.elim).bind fun saved hsv => hsv.imp_right fun hs => ?_
          exact ⟨_, hs, hvac, rfl, .inr ⟨hact, rfl, hmkt.trans hrawmem.2, hlive⟩⟩
      · refine (progressActive_advances.mono (fun _ h => h) OtherError.elim).bind fun _ hprgd => ?_
        refine (persistCandidateProjection_cases.mono (fun _ h => h) OtherError.elim).bind
          fun saved hsv => hsv.imp_right fun hs => ?_
        exact ⟨_, hs, hvac, rfl, .inl ⟨prior, hact, rfl, hprgd⟩⟩
      · exact fun _ => ⟨hvac, _, hact, by simp⟩
    · exact .inl rfl
    · exact nofun
  · exact nofun

omit [DecidableEq δ] in
theorem mem_recordsOf : r ∈ recordsOf records marketId ↔ r ∈ records ∧ r.candidate.marketId = marketId := by
  simp [recordsOf]

omit [DecidableEq δ] in
theorem lt_of_vacant (hvac : candidateRecords records marketId boundary = [])
    (hle : ∀ r ∈ recordsOf records marketId, r.boundary ≤ boundary) :
    ∀ r ∈ recordsOf records marketId, r.boundary < boundary := by
  intro r hr
  have hne := List.filter_eq_nil_iff.mp hvac r hr
  rw [decide_eq_true_eq] at hne
  exact (hle r hr).lt_of_ne hne

/-- The record added is of the composed market, and the market keeps one path. -/
theorem Selected.onePath (h : Selected records receipt marketId r)
    (hpath : OnePath (recordsOf records marketId))
    (hle : ∀ r ∈ recordsOf records marketId, r.boundary ≤ receipt.boundary) :
    r.candidate.marketId = marketId ∧ OnePath (recordsOf records marketId ++ [r]) := by
  have hlt := lt_of_vacant h.vacant hle
  have hord : (recordsOf records marketId ++ [r]).Pairwise fun a b => a.boundary < b.boundary := by
    rw [← h.boundary] at hlt
    exact pairwise_snoc hpath.ordered hlt
  -- in both cases: what the new record owes, given the last record if that is live
  suffices hnew : r.candidate.marketId = marketId
      ∧ (r.Breakout → r.candidate.state.classify ≠ .discoveryOnly)
      ∧ ∀ last, (recordsOf records marketId).getLast? = some last → last.candidate.Live →
        r.Breakout ∧ r.candidate.candidateId = last.candidate.candidateId by
    obtain ⟨hmkt, hsett, hconts⟩ := hnew
    refine ⟨hmkt, hord, forall_mem_snoc hpath.settled hsett,
      forall_mem_snoc (fun a ha hlive => .inr ?_) fun _ => .inl (by simp)⟩
    rcases hpath.continued a ha hlive with hlast | ⟨a', ha', hltr⟩
    · exact ⟨r, by simp, h.boundary ▸ hlt a ha, hconts a hlast hlive⟩
    · exact ⟨a', List.mem_append_left _ ha', hltr⟩
  rcases h.authority with ⟨prior, hact, -, hadv⟩ | ⟨hact, -, hmkt, hlive⟩
  · obtain ⟨-, honly, -⟩ := activeRecords_spec hpath hlt hact
    obtain ⟨hlast, hlive⟩ := honly prior (.head _)
    have hmem := (hpath.last_max hlast).1
    have hbreak : r.Breakout := by
      rw [CandidateRecord.Breakout, hadv.breakoutBar]
      exact hlive.1
    refine ⟨hadv.marketId.trans (mem_recordsOf.mp hmem).2, fun _ => hadv.settled ?_, ?_⟩
    · rw [hlive.2]
      decide
    · intro last hl _
      cases hlast.symm.trans hl
      exact ⟨hbreak, hadv.candidateId⟩
  · obtain ⟨-, -, hcmpl⟩ := activeRecords_spec hpath hlt hact
    refine ⟨hmkt, fun hb => ?_, fun last hl hlast => ?_⟩
    · rw [(hlive hb).2]
      decide
    · exact absurd (hcmpl last hl hlast) List.not_mem_nil

end Step

/-! ### Runs -/

section Run

/-- One call of `compose_scanner_market`. -/
structure Composition (sha256 : Preimage δ → δ) where
  receipt : ScannerRunReceipt sha256
  marketId : Text
  answers : ProgressionAnswers

/-- The records after a call; one that raises leaves them as they are. -/
def composition (records : List (CandidateRecord δ)) (call : Composition sha256) :
    List (CandidateRecord δ) :=
  match composeScannerMarket records call.receipt call.marketId call.answers with
  | .ok out => out.1
  | .error _ => records

def compositions (calls : List (Composition sha256)) : List (CandidateRecord δ) :=
  calls.foldl composition []

variable {calls : List (Composition sha256)} {call : Composition sha256}
  {records : List (CandidateRecord δ)}

/-- The calls of each market come in the order of their boundaries. -/
def InOrder (calls : List (Composition sha256)) : Prop :=
  calls.Pairwise fun a b => a.marketId = b.marketId → a.receipt.boundary ≤ b.receipt.boundary

/-- The records after `calls`: one path per market, each record from a call. -/
structure Composed (calls : List (Composition sha256)) (records : List (CandidateRecord δ)) :
    Prop where
  onePath : ∀ marketId, OnePath (recordsOf records marketId)
  processed : ∀ r ∈ records, ∃ call ∈ calls, call.marketId = r.candidate.marketId
    ∧ call.receipt.boundary = r.boundary

theorem composition_cases (records : List (CandidateRecord δ)) (call : Composition sha256) :
    composition records call = records ∨ ∃ r, composition records call = records ++ [r]
        ∧ Selected records call.receipt call.marketId r := by
  unfold composition
  split
  · next out h => exact composeScannerMarket_cases.of_ok h
  · exact .inl rfl

omit [DecidableEq δ] in
theorem Composed.le (h : Composed calls records) (hord : InOrder (calls ++ [call])) :
    ∀ r ∈ recordsOf records call.marketId, r.boundary ≤ call.receipt.boundary := by
  intro r hr
  obtain ⟨hmem, hmkt⟩ := mem_recordsOf.mp hr
  obtain ⟨earlier, hearl, hm, hb⟩ := h.processed r hmem
  rw [← hb]
  exact (List.pairwise_append.mp hord).2.2 earlier hearl call (.head _) (hm.trans hmkt)

theorem Composed.step (h : Composed calls records) (hord : InOrder (calls ++ [call])) :
    Composed (calls ++ [call]) (composition records call) := by
  have hproc : ∀ r ∈ records, ∃ c ∈ calls ++ [call], c.marketId = r.candidate.marketId
      ∧ c.receipt.boundary = r.boundary := by
    intro r hr
    obtain ⟨c, hc, hrest⟩ := h.processed r hr
    exact ⟨c, List.mem_append_left _ hc, hrest⟩
  rcases composition_cases records call with hsame | ⟨r, hnew, hsel⟩
  · rw [hsame]
    exact ⟨h.onePath, hproc⟩
  · rw [hnew]
    obtain ⟨hmkt, hpath⟩ := hsel.onePath (h.onePath call.marketId) (h.le hord)
    refine ⟨fun m => ?_, forall_mem_snoc hproc ⟨call, by simp, hmkt.symm, hsel.boundary.symm⟩⟩
    by_cases hm : r.candidate.marketId = m
    · have : recordsOf (records ++ [r]) m = recordsOf records m ++ [r] := by
        simp [recordsOf, hm]
      rw [this, ← hm, hmkt]
      exact hpath
    · have : recordsOf (records ++ [r]) m = recordsOf records m := by
        simp [recordsOf, hm]
      rw [this]
      exact h.onePath m

theorem composed_compositions (hord : InOrder calls) : Composed calls (compositions calls) := by
  induction calls using List.reverseRecOn with
  | nil =>
    exact ⟨fun m => ⟨List.Pairwise.nil, by simp [compositions, recordsOf],
      by simp [compositions, recordsOf]⟩, by simp [compositions]⟩
  | append_singleton calls call ih =>
    have hbef : InOrder calls := (List.pairwise_append.mp hord).1
    rw [compositions, List.foldl_append]
    exact (ih hbef).step hord

/-- **One live path per market.**  In any run of compositions whose boundaries
do not go back within a market, no call meets two active paths, and a record
that starts a breakout path is added only when every earlier breakout candidate
of the market has ended in its latest record. -/
theorem one_live_path_per_market (sha256 : Preimage δ → δ) (calls : List (Composition sha256))
    (horder : InOrder calls) (earlier later : List (Composition sha256))
    (call : Composition sha256) (hcalls : calls = earlier ++ call :: later) :
    composeScannerMarket (compositions earlier) call.receipt call.marketId call.answers
        ≠ .error .multipleActivePaths
      ∧ ∀ r ∈ composition (compositions earlier) call, r ∉ compositions earlier → r.Breakout →
        (r.prior = none ∨ ∀ old ∈ recordsOf (compositions earlier) call.marketId,
          old.candidate.candidateId ≠ r.candidate.candidateId) → r.candidate.marketId = call.marketId
          ∧ ∀ old ∈ recordsOf (compositions earlier) call.marketId, old.Breakout →
            ∃ latest, latestRecord (compositions earlier) call.marketId
                old.candidate.candidateId = some latest ∧ latest.candidate.state.classify = .terminal := by
  have hprefix : InOrder (earlier ++ [call]) := by
    rw [hcalls, List.append_cons] at horder
    exact (List.pairwise_append.mp horder).1
  have hcomposed := composed_compositions (List.pairwise_append.mp hprefix).1
  have hpath := hcomposed.onePath call.marketId
  have hle := hcomposed.le hprefix
  refine ⟨fun hmany => ?_, fun r hr hnew hbreak hfresh => ?_⟩
  · obtain ⟨hvacant, active, hactive, htwo⟩ := composeScannerMarket_cases.of_error hmany rfl
    have := (activeRecords_spec hpath (lt_of_vacant hvacant hle) hactive).1
    omega
  · rcases composition_cases (compositions earlier) call with hsame | ⟨added, hadded, hsel⟩
    · rw [hsame] at hr
      exact absurd hr hnew
    · rw [hadded] at hr
      obtain rfl := List.mem_singleton.mp ((List.mem_append.mp hr).resolve_left hnew)
      have hlt := lt_of_vacant hsel.vacant hle
      refine ⟨(hsel.onePath hpath hle).1, fun old hold hb => ?_⟩
      refine hpath.latest_terminal (fun last hlast hlive => ?_) hold hb
      -- a live last record would have been advanced instead
      rcases hsel.authority with ⟨prior, hactive, hprior, hadv⟩ | ⟨hactive, -⟩
      · obtain ⟨hl, -⟩ := (activeRecords_spec hpath hlt hactive).2.1 prior (.head _)
        rcases hfresh with hnone | hdistinct
        · rw [hprior] at hnone
          cases hnone
        · exact hdistinct prior (hpath.last_max hl).1 hadv.candidateId.symm
      · exact absurd ((activeRecords_spec hpath hlt hactive).2.2 last hlast hlive) List.not_mem_nil

end Run

/-! ### A path across a gap

A market breaks out at bar 36.  The next boundary composed is twenty bars later,
outside the query window: the path expires there, and the market may break out
again at the bar after. -/

def jumpObservations (k : ℕ) :
    { observations // ∃ inputs, scanCrossSection rollingHash inputs = .ok observations } :=
  match h : scanCrossSection rollingHash [jumpInput k] with
  | .ok observations => ⟨observations, _, h⟩
  | .error _ => ⟨[], [], rfl⟩

def jumpReceipt (k : ℕ) : ScannerRunReceipt rollingHash :=
  ⟨k * 300000, (jumpObservations k).1, fun _ => some ⟨1 / 100, true⟩, (jumpObservations k).2⟩

def jumpCall (k : ℕ) : Composition rollingHash :=
  ⟨jumpReceipt k, ['M'], ⟨true, [jumpBar k], some (some 1)⟩⟩

/-- The record of the breakout at bar 36. -/
def jumpRecord : CandidateRecord ℕ where
  boundary := 10800000
  candidate :=
    { candidateId := scannerCandidateId rollingHash ['M'] (some .long) .breakoutDetected
        (jumpBar 36) (some ⟨false, 10000, -2⟩)
      marketId := ['M']
      side := some .long
      state := .breakoutDetected
      createdBarOpenTimeMs := 10800000
      breakoutBarOpenTimeMs := some 10800000
      breakoutLevel := some ⟨false, 10000, -2⟩
      breakoutBuffer := some (1 / 10)
      secondaryLevelBroken := true
      retestTouchBarOpenTimeMs := none
      chase := some .early
      chaseDistanceAtr := some (7 / 10)
      reason := .breakoutDetected
      transitions := [(none, .breakoutDetected)] }
  prior := none

/-- Its progression at bar 56. -/
def jumpEnded : CandidateRecord ℕ :=
  ⟨16800000, jumpRecord.candidate.closeAs .expiredNoRetest .retestWindowEnded,
    some jumpRecord.key⟩

theorem one_live_path_per_market_sample : InOrder [jumpCall 36, jumpCall 56, jumpCall 57]
      ∧ compositions [jumpCall 36, jumpCall 56] = [jumpRecord, jumpEnded]
      ∧ (composition [jumpRecord, jumpEnded] (jumpCall 57)).map (fun r => (r.candidate.state, r.prior.isSome))
        = [(.breakoutDetected, false), (.expiredNoRetest, true), (.breakoutDetected, false)]
      ∧ composeScannerMarket (compositions [jumpCall 36, jumpCall 56]) (jumpCall 57).receipt
          (jumpCall 57).marketId (jumpCall 57).answers ≠ .error .multipleActivePaths := by
  have horder : InOrder [jumpCall 36, jumpCall 56, jumpCall 57] := by
    simp [InOrder, jumpCall, jumpReceipt]
  refine ⟨horder, by decide +kernel, by decide +kernel, ?_⟩
  exact (one_live_path_per_market rollingHash _ horder [jumpCall 36, jumpCall 56] [] (jumpCall 57) rfl).1

end TraderAssist
