/-
TraderAssist/Data/Authority.lean

The Data authority (`data.py`, `MultiAssetDataAuthority`).

A method is a computation on the authority that returns or raises; what it did before it
raised stays done.  `put` and `put_deferred` differ only in what becomes of their row
when the process stops or the transaction is rolled back, so they are one function here: in a
transaction the rows go back to its start when something raises, elsewhere a row that was put
is committed.

An interruption (a write that fails, a signal, the end of the process) is an error like the
others.  Where it strikes is part of the input: `cut` is the write of a bar's admission
before which it comes, 0 for the 5m row, 1 and 2 for the 15m and 1h aggregates.  Between
them, the cuts of a call's bars leave every state of the table that a stop between two commits can
leave.  A process that stopped starts again with `restore`.

The Registry is its files, as in `Registry/Manager.lean`.  Left out: that only the issuer's
own `Closed5mAdmission` is accepted (it is made and used on the spot), and the fields of a
candidate other than its fingerprint, which nothing reads.
-/
import TraderAssist.Data.Store
import TraderAssist.Lib.Stateful

namespace TraderAssist

open Py

variable {δ : Type}

/-- `_HISTORY_BATCH_BARS`. -/
def historyBatchBars : ℕ := 64

/-- `_WINDOW_CACHE_BARS`. -/
def windowCacheBars : ℕ := 11

structure DataAuthority (δ : Type) where
  store : ClosedBarStore δ := {}
  registry : RegistryDisk δ := {}
  lastOpen : Dict Text ℕ := Dict.empty
  failed : Finset Text := ∅
  candidates : Dict (Text × ℕ) δ := Dict.empty

/-- A method of the authority. -/
abbrev DataCall (δ α : Type) := EStateM DataRouteError (DataAuthority δ) α

/-- The call-local rolling windows, by market. -/
abbrev WindowCache (δ : Type) := Dict Text (List (ClosedBar δ))

/-- A bar to admit, with the write before which its admission is interrupted, if it is. -/
structure Arrival (δ : Type) where
  bar : ClosedBar δ
  cut : Option ℕ := none

/-! ### Windows -/

/-- `_aggregate_window`. -/
def aggregateWindow (store : ClosedBarStore δ) (cache : Option (WindowCache δ)) (bar : ClosedBar δ)
    (count : ℕ) : List (ClosedBar δ) :=
  match cache.bind fun cache => cache.get? bar.marketId with
  | some cached =>
    if count - 1 ≤ cached.length
        ∧ cached.getLast?.map (fun c => c.openTimeMs + fiveMinutesMs) = some bar.openTimeMs then
      lastN (count - 1) cached ++ [bar]
    else store.tailBars bar.marketId bar.openTimeMs count
  | none => store.tailBars bar.marketId bar.openTimeMs count

/-- `_track_window_tail`. -/
def trackWindowTail (cache : WindowCache δ) (bar : ClosedBar δ) : WindowCache δ :=
  match cache.get? bar.marketId with
  | none => cache.set bar.marketId [bar]
  | some cached =>
    match cached.getLast? with
    | none => cache.set bar.marketId [bar]
    | some last =>
      if last.openTimeMs + fiveMinutesMs = bar.openTimeMs then
        cache.set bar.marketId (lastN windowCacheBars (cached ++ [bar]))
      else if bar.openTimeMs = last.openTimeMs then cache
      else cache.set bar.marketId [bar]

/-! ### The authority -/

namespace DataAuthority

section

variable (s : DataAuthority δ)

/-- `_failed.add`. -/
def fail (marketId : Text) : DataAuthority δ :=
  { s with failed := insert marketId s.failed }

/-- The last open after a bar. -/
def advance (bar : ClosedBar δ) : DataAuthority δ :=
  let last := max bar.openTimeMs ((s.lastOpen.get? bar.marketId).getD bar.openTimeMs)
  { s with lastOpen := s.lastOpen.set bar.marketId last }

/-- `_restore_durable_last_open`. -/
def restoreDurableLastOpen (marketId : Text) : DataAuthority δ :=
  match s.store.lastOpen marketId with
  | none => { s with lastOpen := s.lastOpen.erase marketId }
  | some durable => { s with lastOpen := s.lastOpen.set marketId durable }

/-- `_clear_failure_if_contiguous`. -/
def clearFailureIfContiguous (marketId : Text) : DataAuthority δ :=
  if s.store.isContiguous5m marketId then { s with failed := s.failed.erase marketId } else s

end

variable [DecidableEq δ] (R : RegistryRoot δ) (sha256 : EvidencePreimage δ → δ)

/-- `__init__` on a store and a Registry, with `_restore`. -/
def start (store : ClosedBarStore δ) (registry : RegistryDisk δ) : Except RegistryError (DataAuthority δ) := do
  let registered ← match ← R.active registry with
    | some active => .ok (some active)
    | none => R.pendingVersion registry
  let markets := match registered with
    | some version => version.markets
    | none => []
  .ok { store, registry, lastOpen := markets.foldl (fun lastOpen m =>
    match store.lastOpen m.marketId with
    | none => lastOpen
    | some last => lastOpen.set m.marketId last) Dict.empty }

/-- `_binding_registry`. -/
def bindingRegistry (registry : RegistryDisk δ) (market : RegistryMarket) :
    Except DataRouteError RegistryVersion := do
  let lists (version : RegistryVersion) : Bool := version.markets.any fun m => m.marketId = market.marketId
  match (← (R.active registry).mapError .registry).filter lists with
  | some active => .ok active
  | none =>
    match (← (R.pendingVersion registry).mapError .registry).filter lists with
    | some pending => .ok pending
    | none => .error .notAuthorized

/-- The row that is put for a bar. -/
def evidenceRow (bar : ClosedBar δ) (binding : RegistryVersion) (finalityIdentity : δ) : EvidenceRow δ :=
  ⟨bar, binding.version, R.content binding, finalityIdentity, bar.receivedAt.timestampMs⟩

/-- `put` and `put_deferred`: whether the row is new. -/
def put (bar : ClosedBar δ) (binding : RegistryVersion) (finalityIdentity : δ) : DataCall δ Bool := do
  let s ← get
  match ← attempt (s.store.insert sha256 (evidenceRow R bar binding finalityIdentity)) with
  | none => pure false
  | some store => do
    modify fun s => { s with store }
    pure true

/-- The write of an admission that makes the aggregate of an interval. -/
def aggregateWrite : Interval → ℕ
  | .m5 => 0
  | .m15 => 1
  | .h1 => 2

section

variable (bar : ClosedBar δ)

/-- A turn of the loop of `_persist_aggregates`. -/
def persistAggregate (binding : RegistryVersion) (cache : Option (WindowCache δ))
    (cut : Option ℕ) (interval : Interval) : DataCall δ Unit := do
  check (cut ≠ some (aggregateWrite interval)) .interrupted
  if ((bar.openTimeMs : ℤ) - (interval.sources - 1 : ℕ) * fiveMinutesMs)
      % (interval.sources * fiveMinutesMs : ℕ) ≠ 0 then pure ()
  else
    let window := aggregateWindow (← get).store cache bar interval.sources
    if window.length = interval.sources then
      let aggregate ← attempt (aggregateClosed5m sha256 window interval)
      let _ ← put R sha256 aggregate binding aggregate.provenanceHash
      pure ()
    else pure ()

/-- `_persist_aggregates`. -/
def persistAggregates (binding : RegistryVersion) (cache : Option (WindowCache δ))
    (cut : Option ℕ) : DataCall δ Unit := do
  persistAggregate R sha256 bar binding cache cut .m15
  persistAggregate R sha256 bar binding cache cut .h1

/-- The gap test at the start of `_admit` and `_admit_transactional`. -/
def checkGap : DataCall δ Unit :=
  onRaise (do
    let s ← get
    check (∀ prior ∈ s.lastOpen.get? bar.marketId, bar.openTimeMs ≤ prior + fiveMinutesMs) .gap)
    fun s => s.fail bar.marketId

/-- What `_admit` and `_admit_transactional` have in common: the row, the last open, the
aggregates, the window. -/
def admitRow (binding : RegistryVersion) (finalityIdentity : δ)
    (cache : Option (WindowCache δ)) (cut : Option ℕ) : DataCall δ (Bool × Option (WindowCache δ)) := do
  check (cut ≠ some 0) .interrupted
  let inserted ← onRaise (put R sha256 bar binding finalityIdentity) fun s => s.fail bar.marketId
  modify fun s => s.advance bar
  if inserted then
    persistAggregates R sha256 bar binding cache cut
    pure (true, cache.map fun cache => trackWindowTail cache bar)
  else pure (false, cache.map fun cache => trackWindowTail cache bar)

end

/-- `_admit_transactional`. -/
def admitTransactional (a : Arrival δ) (binding : RegistryVersion) (cache : WindowCache δ) :
    DataCall δ (Bool × Option (WindowCache δ)) := do
  checkGap a.bar
  admitRow R sha256 a.bar binding a.bar.provenanceHash (some cache) a.cut

/-- The activation at the end of an admission: `_apply_admitted` while there is no active
Registry. -/
def activate (bar : ClosedBar δ) : DataCall δ Unit := do
  let s ← get
  let steps ← attempt ((R.applyAdmitted s.registry bar.receivedAt).mapError .registry)
  let (registry, failure) := s.registry.steps steps
  modify fun s => { s with registry }
  match failure with
  | none => pure ()
  | some err => attempt (.error (.registry (.os err)))

/-- `_admit`: the bar if it is new, and the window cache. -/
def admitBar (market : RegistryMarket) (a : Arrival δ) (finalityIdentity : δ)
    (cache : Option (WindowCache δ)) : DataCall δ (Option (ClosedBar δ) × Option (WindowCache δ)) := do
  checkGap a.bar
  let s ← get
  let binding ← attempt (bindingRegistry R s.registry market)
  let (inserted, cache) ← admitRow R sha256 a.bar binding finalityIdentity cache a.cut
  if inserted then
    activate R a.bar
    pure (some a.bar, cache)
  else pure (none, cache)

/-- The rows of a batch. -/
def admitRows (binding : RegistryVersion) :
    List (Arrival δ) → WindowCache δ → DataCall δ (List (ClosedBar δ) × WindowCache δ)
  | [], cache => pure ([], cache)
  | a :: rest, cache => do
    let (inserted, next) ← admitTransactional R sha256 a binding cache
    let (bars, last) ← admitRows binding rest (next.getD cache)
    pure (if inserted then a.bar :: bars else bars, last)

/-- `transaction`: what raises takes the table back to the start. -/
def transaction {α : Type} (body : DataCall δ α) : DataCall δ α := do
  let s ← get
  onRaise body fun s' => { s' with store := s.store }

/-- `_admit_history_batch`. -/
def admitHistoryBatch (market : RegistryMarket) (arrivals : List (Arrival δ)) (cache : WindowCache δ) :
    DataCall δ (List (ClosedBar δ) × WindowCache δ) := do
  let (inserted, cache) ← onRaise (do
      let s ← get
      let binding ← attempt (bindingRegistry R s.registry market)
      transaction (admitRows R sha256 binding arrivals cache))
    fun s => (s.fail market.marketId).restoreDurableLastOpen market.marketId
  let s ← get
  match ← attempt ((R.active s.registry).mapError .registry) with
  | some _ => pure (inserted, cache)
  | none => do
    inserted.forM (activate R)
    pure (inserted, cache)

/-- The loop of `admit_rest_history`. -/
def admitLoop (market : RegistryMarket) (arrivals : List (Arrival δ)) (cache : WindowCache δ) :
    DataCall δ (List (ClosedBar δ)) :=
  match arrivals with
  | [] => pure []
  | a :: rest => do
    let s ← get
    match ← attempt ((R.pendingVersion s.registry).mapError .registry) with
    | some _ => do
      let (admitted, next) ← admitBar R sha256 market a a.bar.provenanceHash (some cache)
      let bars ← admitLoop market rest (next.getD cache)
      pure (admitted.toList ++ bars)
    | none => do
      let (inserted, next) ← admitHistoryBatch R sha256 market ((a :: rest).take historyBatchBars) cache
      let bars ← admitLoop market ((a :: rest).drop historyBatchBars) next
      pure (inserted ++ bars)
termination_by arrivals.length
decreasing_by
  · exact Nat.lt_succ_self _
  · rw [List.length_drop, historyBatchBars, List.length_cons]
    omega

/-- `_accepted_history`. -/
def acceptedHistory (market : RegistryMarket) (snapshot : List Payload) (receivedAt : Option Datetime) :
    Except DataRouteError (List (ClosedBar δ)) := do
  let bars ← (sortBy Payload.sortKey snapshot).mapM fun payload =>
    providerBar sha256 market payload receivedAt "hyperliquid-public-candleSnapshot-history".toList
  pure (bars.filter fun bar => (bar.closeTimeMs : ℤ) < bar.receivedAt.timestampMs)

/-- `admit_rest_history`; `cuts` says where the admission of the accepted bars is
interrupted. -/
def admitRestHistory (market : RegistryMarket) (snapshot : List Payload) (receivedAt : Option Datetime)
    (cuts : ℕ → Option ℕ) : DataCall δ (List (ClosedBar δ)) := do
  let accepted ← attempt (acceptedHistory sha256 market snapshot receivedAt)
  let output ← admitLoop R sha256 market (accepted.mapIdx fun i bar => ⟨bar, cuts i⟩) Dict.empty
  modify fun s => s.clearFailureIfContiguous market.marketId
  pure output

/-! ### Websocket candidates -/

/-- `offer_ws_candidate`. -/
def offerWsCandidate (market : RegistryMarket) (payload : Payload) (receivedAt : Option Datetime) :
    DataCall δ δ := do
  let bar ← attempt (providerBar sha256 market payload receivedAt
    "hyperliquid-public-ws-candidate".toList)
  let fingerprint := sha256 (.payload payload)
  modify fun s => { s with candidates := s.candidates.set (bar.marketId, bar.openTimeMs) fingerprint }
  pure fingerprint

/-- `discard_ws_candidate`. -/
def discardWsCandidate (marketId : Text) (openTimeMs : ℕ) : DataCall δ Unit :=
  modify fun s => { s with candidates := s.candidates.erase (marketId, openTimeMs) }

/-- What a confirmation is given. -/
structure Confirmation (δ : Type) where
  openTimeMs : ℕ
  candidateFingerprint : δ
  snapshot : List Payload
  stableSnapshot : List Payload
  receivedAt : Option Datetime
  holdMs : ℤ := 3000
  firstObserved : Option ℚ := none
  secondObserved : Option ℚ := none
  observationGapMs : ℤ := 1000

namespace Confirmation

/-- Whether the confirmation is due. -/
def due (c : Confirmation δ) : Bool :=
  0 ≤ c.observationGapMs
    ∧ ∃ receivedAt ∈ c.receivedAt, (c.openTimeMs : ℤ) + fiveMinutesMs + c.holdMs ≤ receivedAt.timestampMs

/-- Whether the two observations are far enough apart, in doubles. -/
def observed (c : Confirmation δ) : Bool :=
  match c.firstObserved, c.secondObserved with
  | some first, some second => first ≤ second
    ∧ (c.observationGapMs : ℚ) ≤ Datetime.double (Datetime.double (second - first) * 1000)
  | _, _ => false

/-- The candle of both snapshots at the time of the candidate. -/
def exactPayload (c : Confirmation δ) : Option Payload :=
  match c.snapshot.filter fun p => p.time? = some (c.openTimeMs : ℤ),
    c.stableSnapshot.filter fun p => p.time? = some (c.openTimeMs : ℤ) with
  | [p], [q] => if p = q then some p else none
  | _, _ => none

end Confirmation

/-- `confirm_ws_candidate`. -/
def confirmWsCandidate (market : RegistryMarket) (c : Confirmation δ) (cut : Option ℕ) :
    DataCall δ (Option (ClosedBar δ)) := do
  let s ← get
  check (s.candidates.get? (market.marketId, c.openTimeMs) = some c.candidateFingerprint) .staleCandidate
  if c.due = false then pure none
  else do
    check (c.observed = true) .observationGap
    match c.exactPayload with
    | none => attempt (.error .confirmationInexact)
    | some payload => do
      let confirmed ← attempt (providerBar sha256 market payload c.receivedAt
        "hyperliquid-public-candleSnapshot-final".toList)
      discardWsCandidate market.marketId c.openTimeMs
      let (admitted, _) ← admitBar R sha256 market ⟨confirmed, cut⟩ (sha256 (.payload payload)) none
      pure admitted

/-! ### Runs -/

end DataAuthority

/-- What can happen to an authority: a call, a change of the Registry's files by another, or a new process
on the table and the files. -/
inductive DataEvent (δ : Type)
  | admitRestHistory (market : RegistryMarket) (snapshot : List Payload) (receivedAt : Option Datetime)
      (cuts : ℕ → Option ℕ)
  | offerWsCandidate (market : RegistryMarket) (payload : Payload) (receivedAt : Option Datetime)
  | discardWsCandidate (marketId : Text) (openTimeMs : ℕ)
  | confirmWsCandidate (market : RegistryMarket) (confirmation : DataAuthority.Confirmation δ)
      (cut : Option ℕ)
  | registry (files : RegistryDisk δ)
  | restart

namespace DataAuthority

variable [DecidableEq δ] (R : RegistryRoot δ) (sha256 : EvidencePreimage δ → δ)

/-- The authority after a call, whether it returned or raised. -/
def after {α : Type} (call : DataCall δ α) (s : DataAuthority δ) : DataAuthority δ :=
  match call s with
  | .ok _ s' => s'
  | .error _ s' => s'

/-- The authority after an event; a process that cannot read the Registry does not start. -/
def step (s : DataAuthority δ) : DataEvent δ → DataAuthority δ
  | .admitRestHistory market snapshot receivedAt cuts =>
    after (admitRestHistory R sha256 market snapshot receivedAt cuts) s
  | .offerWsCandidate market payload receivedAt => after (offerWsCandidate sha256 market payload receivedAt) s
  | .discardWsCandidate marketId openTimeMs => after (discardWsCandidate marketId openTimeMs) s
  | .confirmWsCandidate market confirmation cut =>
    after (confirmWsCandidate R sha256 market confirmation cut) s
  | .registry files => { s with registry := files }
  | .restart =>
    match start R s.store s.registry with
    | .ok s' => s'
    | .error _ => s

def run (s : DataAuthority δ) (events : List (DataEvent δ)) : DataAuthority δ :=
  events.foldl (step R sha256) s

end DataAuthority

end TraderAssist
