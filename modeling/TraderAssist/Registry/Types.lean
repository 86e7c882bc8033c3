/-
TraderAssist/Registry/Types.lean

Registry versions and market lifecycles (`models.py`, `registry.py`).

A `RegistryVersion` carries what its validator checks of names and identities.  The
fields of a market that no function below reads one by one (tier, asset class, price
rules, the metadata snapshot) are one text, the dump of them: they are only compared and
hashed as a whole.  Left out: that a market id is the digest of DEX and coin.
-/
import TraderAssist.Lib.Datetime
import TraderAssist.Lib.Dict
import TraderAssist.Lib.Seq

namespace TraderAssist

open Py

/-! ### Lifecycles -/

inductive MarketLifecycle
  | warming
  | historyReady
  | snapshotReady
  | active
  | draining
  | outcomesComplete
  | disabled
deriving DecidableEq, Repr

namespace MarketLifecycle

/-- `_LIFECYCLE_NEXT`. -/
def next : MarketLifecycle → List MarketLifecycle
  | warming => [historyReady, disabled]
  | historyReady => [snapshotReady, disabled]
  | snapshotReady => [active, disabled]
  | active => [draining]
  | draining => [outcomesComplete]
  | outcomesComplete => [disabled]
  | disabled => [warming]

/-- `_PRE_ACTIVE_ORDER`. -/
def preActiveOrder : MarketLifecycle → Option ℕ
  | warming => some 0
  | historyReady => some 1
  | snapshotReady => some 2
  | _ => none

def preActive (l : MarketLifecycle) : Bool := l.preActiveOrder.isSome

end MarketLifecycle

/-! ### Markets and versions -/

structure MarketIdentity where
  dex : Text
  coin : Text
  marketId : Text
deriving DecidableEq

structure RegistryMarket where
  display : Text
  aliases : List Text := []
  identity : MarketIdentity
  lifecycle : MarketLifecycle := .warming
  metadata : Text := []
deriving DecidableEq

namespace RegistryMarket

abbrev marketId (m : RegistryMarket) : Text := m.identity.marketId

end RegistryMarket

/-- The names under which some markets are shown. -/
def presentationIds (markets : List RegistryMarket) : List Text :=
  markets.map RegistryMarket.display ++ markets.flatMap RegistryMarket.aliases

structure RegistryVersion where
  version : Text
  createdAt : Datetime
  markets : List RegistryMarket
  version_length : 1 ≤ version.length ∧ version.length ≤ 80
  ids_nodup : (markets.map RegistryMarket.marketId).Nodup
  presentation_nodup : (presentationIds markets).Nodup
deriving DecidableEq

/-- `RegistryVersion.create`, or nothing where the validator raises. -/
def RegistryVersion.create? (version : Text) (createdAt : Datetime) (markets : List RegistryMarket) :
    Option RegistryVersion :=
  if h : (1 ≤ version.length ∧ version.length ≤ 80)
      ∧ (markets.map RegistryMarket.marketId).Nodup ∧ (presentationIds markets).Nodup then
    some ⟨version, createdAt, markets, h.1, h.2.1, h.2.2⟩
  else none

/-- A version with these markets. -/
def sampleVersion (markets : List RegistryMarket) (hids : (markets.map RegistryMarket.marketId).Nodup)
    (hnames : (presentationIds markets).Nodup) : RegistryVersion :=
  ⟨['v'], Datetime.newYear, markets, by decide, hids, hnames⟩

/-! ### Lifecycle updates -/

inductive LifecycleError
  | illegalTransition (source target : MarketLifecycle)
  | marketNotInActive
deriving DecidableEq, Repr

/-- A market under the updates of a version. -/
def RegistryMarket.updated (updates : Dict Text MarketLifecycle) (m : RegistryMarket) : RegistryMarket :=
  match updates.get? m.marketId with
  | none => m
  | some lifecycle => { m with lifecycle := lifecycle }

/-- The loop body of `_lifecycle_target_markets`. -/
def RegistryMarket.target (updates : Dict Text MarketLifecycle) (m : RegistryMarket) :
    Except LifecycleError RegistryMarket :=
  match updates.get? m.marketId with
  | none => .ok m
  | some lifecycle =>
    if lifecycle ∈ m.lifecycle.next then .ok { m with lifecycle := lifecycle }
    else .error (.illegalTransition m.lifecycle lifecycle)

/-- `_lifecycle_target_markets`. -/
def lifecycleTargetMarkets (markets : List RegistryMarket) (updates : Dict Text MarketLifecycle) :
    Except LifecycleError (List RegistryMarket) := do
  let targets ← markets.mapM (RegistryMarket.target updates)
  if updates.keys.all fun id => id ∈ markets.map RegistryMarket.marketId then .ok targets
  else .error .marketNotInActive

/-- Updates of markets along legal edges. -/
def LegalUpdates (markets : List RegistryMarket) (updates : Dict Text MarketLifecycle) : Prop :=
  ∀ id target, updates.get? id = some target →
    ∃ m ∈ markets, m.marketId = id ∧ target ∈ m.lifecycle.next

/-- **Legal updates are carried out.** -/
theorem lifecycleTargetMarkets_of_legal {markets : List RegistryMarket}
    {updates : Dict Text MarketLifecycle} (hnd : (markets.map RegistryMarket.marketId).Nodup)
    (hleg : LegalUpdates markets updates) :
    lifecycleTargetMarkets markets updates = .ok (markets.map (RegistryMarket.updated updates)) := by
  have htgt : ∀ m ∈ markets, m.target updates = .ok (m.updated updates) := by
    intro m hm
    rw [RegistryMarket.target, RegistryMarket.updated]
    rcases hget : updates.get? m.marketId with - | lifecycle
    · rfl
    · -- the market the update is legal for is this one
      obtain ⟨m', hm', hid, hnext⟩ := hleg _ _ hget
      obtain rfl := List.inj_on_of_nodup_map hnd hm' hm hid
      exact if_pos hnext
  have hkeys : (updates.keys.all fun id => id ∈ markets.map RegistryMarket.marketId) = true := by
    rw [List.all_eq_true]
    intro id hid
    obtain ⟨target, hget⟩ := Dict.mem_keys.mp hid
    obtain ⟨m, hm, rfl, -⟩ := hleg id target hget
    exact decide_eq_true (List.mem_map_of_mem hm)
  rw [lifecycleTargetMarkets, mapM_eq_ok_map htgt]
  dsimp only [bind, Except.bind]
  rw [if_pos hkeys]

end TraderAssist
