/-
TraderAssist/Kernel/Zones.lean

The causal 15m reaction-zone engine (`strategy_kernel/zones.py`): reactions at
confirmed pivots, clusters of reactions, one zone per cluster, suppression of
overlapping zones, and the active support and resistance.

`build_zone_book` is called on a whole history or on its last bars with a
continued ATR series and the number of bars cut off (`index_offset`); indices
in reactions count from the start of the whole history in both cases.
-/
import TraderAssist.Kernel.Indicators

namespace TraderAssist

open Py

variable {δ : Type} (sha256 : Preimage δ → δ)

def zoneLookback15m : ℕ := 96

structure ZoneBook (δ : Type) where
  zones : List (ZoneSnapshot δ)
  reactions : List (Reaction δ)
  activeSupport : Option (ZoneSnapshot δ)
  activeResistance : Option (ZoneSnapshot δ)
deriving DecidableEq

/-! ### Reactions -/

def reactionId (marketId : Text) (zoneType : ZoneType) (pivot : Bar) (confirmedBarIndex : ℕ) : δ :=
  sha256 (lit marketId ++ lit zoneType.value ++ hex (pivot.candleId sha256)
    ++ lit (natText confirmedBarIndex) ++ lit parameterVersion)

def lookbackStart (bars : List Bar) : ℕ := max 1 (bars.length - zoneLookback15m)

/-- How far the bars after a pivot have moved away from it. -/
def moveAway (zoneType : ZoneType) (pivot : Bar) (after : List Bar) : Option ℚ :=
  match zoneType with
  | .high => (after.map Bar.low).min?.map fun lowest => csub pivot.high lowest
  | .low => (after.map Bar.high).max?.map fun highest => csub highest pivot.low

/-- The first of the four bars after the pivot at which the move away reaches
half the ATR of the confirmation bar. -/
def qualifyingIndex (bars : List Bar) (zoneType : ZoneType) (pivot : Bar) (pivotIndex : ℕ)
    (a15Reaction : ℚ) : Option ℕ :=
  (List.range' (pivotIndex + 1) (min (pivotIndex + 5) bars.length - (pivotIndex + 1))).find?
    fun index => (moveAway zoneType pivot
      ((bars.drop (pivotIndex + 1)).take (index - pivotIndex))).any
        fun move => cmul (1 / 2) a15Reaction ≤ move

/-- The reaction at a pivot, if its confirmation bar has an ATR and the move
qualifies. -/
def reactionAt (bars : List Bar) (atr : List (Option ℚ)) (indexOffset : ℕ) (zoneType : ZoneType)
    (pivotIndex : ℕ) : Option (Reaction δ) := do
  let a15Reaction ← atr[pivotIndex + 1]?.join
  let pivot ← bars[pivotIndex]?
  let qualifying ← qualifyingIndex bars zoneType pivot pivotIndex a15Reaction
  some
    { reactionId := reactionId sha256 pivot.marketId zoneType pivot (indexOffset + qualifying)
      marketId := pivot.marketId
      zoneType := zoneType
      pivotBarIndex := indexOffset + pivotIndex
      confirmedBarIndex := indexOffset + qualifying
      price := match zoneType with
        | .high => pivot.high
        | .low => pivot.low
      a15Reaction := a15Reaction }

def betterPrice (zoneType : ZoneType) (price current : ℚ) : Bool :=
  match zoneType with
  | .high => current < price
  | .low => price < current

/-- Neighbouring pivots keep the better price; an equal price keeps the earlier
reaction. -/
def addReaction (zoneType : ZoneType) (typed : List (Reaction δ)) (reaction : Reaction δ) :
    List (Reaction δ) :=
  match typed.getLast? with
  | none => [reaction]
  | some current =>
    if reaction.pivotBarIndex < current.pivotBarIndex + 2 then
      if betterPrice zoneType reaction.price current.price then typed.dropLast ++ [reaction]
      else typed
    else typed ++ [reaction]

/-- The reactions of one zone type, in the order of their pivots. -/
def typedReactions (bars : List Bar) (atr : List (Option ℚ)) (indexOffset : ℕ)
    (zoneType : ZoneType) (pivots : List ℕ) : List (Reaction δ) :=
  pivots.foldl (fun typed pivotIndex =>
    if pivotIndex < lookbackStart bars then typed
    else match reactionAt sha256 bars atr indexOffset zoneType pivotIndex with
      | none => typed
      | some reaction => addReaction zoneType typed reaction) []

/-! ### Clusters -/

/-- A cluster has at least the reaction that opened it. -/
structure Cluster (δ : Type) where
  zoneType : ZoneType
  head : Reaction δ
  tail : List (Reaction δ)
  createdBarIndex : ℕ
deriving DecidableEq

namespace Cluster

def members (c : Cluster δ) : List (Reaction δ) := c.head :: c.tail

def center (c : Cluster δ) : ℚ := median (c.members.map Reaction.price)

def distance (c : Cluster δ) (r : Reaction δ) : ℚ := cabs (csub r.price c.center)

/-- The reaction is close enough to join. -/
def accepts (minimumTick : ℚ) (c : Cluster δ) (r : Reaction δ) : Bool :=
  c.zoneType = r.zoneType
    ∧ c.distance r ≤ max (cmul (20 / 100) r.a15Reaction) (cmul 2 minimumTick)

end Cluster

/-! ### Zone geometry -/

def distanceToZone (value : ℚ) (zone : ZoneSnapshot δ) : ℚ :=
  if zone.contains value then 0
  else min (cabs (csub value zone.low)) (cabs (csub value zone.high))

def overlapReachesThreshold (left right : ZoneSnapshot δ) : Bool :=
  let overlap := csub (min left.high right.high) (max left.low right.low)
  if overlap ≤ 0 then false
  else cmul (1 / 2) (min left.width right.width) ≤ overlap

def qualityOf (count : ℕ) : ZoneQuality :=
  if 3 ≤ count then .zq3 else if 2 ≤ count then .zq2 else .zq1

/-- Active, not suppressed, and of quality ZQ2 or better. -/
def ZoneSnapshot.usable (zone : ZoneSnapshot δ) : Bool :=
  zone.activeForNewEvent ∧ !zone.suppressed ∧ ZoneQuality.zq2.rank ≤ zone.quality.rank

/-- The close has not left the zone behind. -/
def ZoneSnapshot.facing (currentClose : ℚ) (zone : ZoneSnapshot δ) : Bool :=
  match zone.zoneType with
  | .low => zone.low ≤ currentClose
  | .high => currentClose ≤ zone.high

/-- Winners and suppressed ids of an ordered candidate list. -/
def selectWinners (ordered : List (ZoneSnapshot δ)) : List (ZoneSnapshot δ) × List δ :=
  ordered.foldl (fun acc candidate =>
    if acc.1.any fun winner => overlapReachesThreshold candidate winner then
      (acc.1, acc.2 ++ [candidate.zoneId])
    else (acc.1 ++ [candidate], acc.2)) ([], [])

/-! ### Identities and sorting keys

From here on digests are ordered, as hex strings are. -/

variable [LinearOrder δ]

def zoneIdOf (marketId : Text) (zoneType : ZoneType) (reactionIds : List δ) : δ :=
  sha256 (lit marketId ++ lit zoneType.value ++ (sortBy id reactionIds).flatMap hex
    ++ lit parameterVersion)

def Reaction.sortKey (r : Reaction δ) : ℕ ×ₗ ℕ ×ₗ ℕ ×ₗ δ :=
  toLex (r.confirmedBarIndex, toLex (r.zoneType.key, toLex (r.pivotBarIndex, r.reactionId)))

def Cluster.identity (c : Cluster δ) : δ :=
  zoneIdOf sha256 c.head.marketId c.zoneType (c.members.map Reaction.reactionId)

def Cluster.sortKey (r : Reaction δ) (c : Cluster δ) : ℚ ×ₗ ℕ ×ₗ δ :=
  toLex (c.distance r, toLex (c.createdBarIndex, c.identity sha256))

/-! ### The zone book -/

def qualifiedReactions (bars : List Bar) (atrValues : Option (List (Option ℚ)))
    (indexOffset : ℕ) : Except KernelError (List (Reaction δ)) := do
  let resolvedAtr ← givenOr atrValues (wilderAtr14Series bars)
  if resolvedAtr.length ≠ bars.length then throw .zoneContinuation
  else
    let highs ← causalPivotHighIndices bars
    let lows ← causalPivotLowIndices bars
    pure (sortBy Reaction.sortKey
      (typedReactions sha256 bars resolvedAtr indexOffset .high highs
        ++ typedReactions sha256 bars resolvedAtr indexOffset .low lows))

/-- The reaction joins the nearest accepting cluster or opens one. -/
def clusterStep (minimumTick : ℚ) (clusters : List (Cluster δ)) (reaction : Reaction δ) :
    List (Cluster δ) :=
  let eligible := clusters.zipIdx.filter fun p => p.1.accepts minimumTick reaction
  match (sortBy (fun p => p.1.sortKey sha256 reaction) eligible).head? with
  | some (cluster, index) => clusters.set index { cluster with tail := cluster.tail ++ [reaction] }
  | none => clusters ++ [⟨reaction.zoneType, reaction, [], reaction.confirmedBarIndex⟩]

def clustersOf (reactions : List (Reaction δ)) (minimumTick : ℚ) : List (Cluster δ) :=
  reactions.foldl (clusterStep sha256 minimumTick) []

/-- The zone of one cluster. -/
def clusterZone (marketId : Text) (a15Current : ℚ) (evaluationIndex : ℕ) (cluster : Cluster δ) :
    Except KernelError (ZoneSnapshot δ) :=
  let prices := cluster.members.map Reaction.price
  let center := median prices
  let mad := median (prices.map fun item => cabs (csub item center))
  let minimumWidth := cmul (15 / 100) a15Current
  let maximumWidth := cmul (40 / 100) a15Current
  let rawHalfWidth := max (cmul (15 / 10) mad) minimumWidth
  let halfWidth := min (max rawHalfWidth minimumWidth) maximumWidth
  let latest := (cluster.members.map Reaction.confirmedBarIndex).foldl max 0
  let count := cluster.members.length
  let quality := qualityOf count
  let active := ZoneQuality.zq2.rank ≤ quality.rank ∧ evaluationIndex ≤ latest + 24
  let ids := cluster.members.map Reaction.reactionId
  ZoneSnapshot.make (zoneIdOf sha256 marketId cluster.zoneType ids) marketId cluster.zoneType
    center (csub center halfWidth) (cadd center halfWidth) halfWidth quality count latest ids
    (decide active)

def ZoneSnapshot.suppressKey (currentClose : ℚ) (zone : ZoneSnapshot δ) :
    ℤ ×ₗ ℤ ×ₗ ℤ ×ₗ ℚ ×ₗ δ :=
  toLex (-(zone.quality.rank : ℤ), toLex (-(zone.reactionCount : ℤ),
    toLex (-(zone.latestReactionBarIndex : ℤ),
      toLex (distanceToZone currentClose zone, zone.zoneId))))

/-- One pass of the suppression loop, for one zone type. -/
def suppressType (currentClose : ℚ) (output : List (ZoneSnapshot δ)) (zoneType : ZoneType) :
    List (ZoneSnapshot δ) :=
  let candidates := output.filter fun item =>
    item.zoneType = zoneType ∧ item.activeForNewEvent
      ∧ ZoneQuality.zq2.rank ≤ item.quality.rank
  let suppressedIds :=
    (selectWinners (sortBy (ZoneSnapshot.suppressKey currentClose) candidates)).2
  output.map fun item =>
    if item.zoneId ∈ suppressedIds then { item with suppressed := true } else item

def ZoneSnapshot.outputKey (zone : ZoneSnapshot δ) : ℕ ×ₗ ℚ ×ₗ δ :=
  toLex (zone.zoneType.key, toLex (zone.center, zone.zoneId))

def suppressOverlaps (zones : List (ZoneSnapshot δ)) (currentClose : ℚ) :
    List (ZoneSnapshot δ) :=
  sortBy ZoneSnapshot.outputKey
    ([ZoneType.high, ZoneType.low].foldl (suppressType currentClose) zones)

def ZoneSnapshot.nearKey (currentClose : ℚ) (zone : ZoneSnapshot δ) : ℚ ×ₗ δ :=
  toLex (distanceToZone currentClose zone, zone.zoneId)

/-- The zone nearest to the close among the usable ones of a type that the close
has not left behind. -/
def selectActive (selected : List (ZoneSnapshot δ)) (currentClose : ℚ) (zoneType : ZoneType) :
    Option (ZoneSnapshot δ) :=
  minBy (ZoneSnapshot.nearKey currentClose) (selected.filter fun item =>
    item.usable ∧ item.zoneType = zoneType ∧ item.facing currentClose)

/-- The book, once the ATR of the current bar is known. -/
def assembleBook (bars15m : List Bar) (minimumTick : ℚ) (atr : List (Option ℚ)) (indexOffset : ℕ)
    (a15Current : ℚ) (first current : Bar) : Except KernelError (ZoneBook δ) := do
  let reactions ← qualifiedReactions sha256 bars15m (some atr) indexOffset
  let clusters := clustersOf sha256 reactions minimumTick
  let evaluationIndex := indexOffset + bars15m.length - 1
  let zones ← clusters.mapM (clusterZone sha256 first.marketId a15Current evaluationIndex)
  let selected := suppressOverlaps zones current.close
  pure ⟨selected, reactions, selectActive selected current.close .low,
    selectActive selected current.close .high⟩

def buildZoneBook (bars15m : List Bar) (minimumTick : ℚ)
    (atrValues : Option (List (Option ℚ)) := none) (indexOffset : ℕ := 0) :
    Except KernelError (ZoneBook δ) := do
  validateSeries bars15m (some .m15)
  if minimumTick ≤ 0 then throw .minimumTick
  else
    let resolvedAtr ← givenOr atrValues (wilderAtr14Series bars15m)
    if resolvedAtr.length ≠ bars15m.length then throw .zoneContinuation
    else match resolvedAtr.getLast?.join, bars15m.head?, bars15m.getLast? with
      | some a15Current, some first, some current =>
        assembleBook sha256 bars15m minimumTick resolvedAtr indexOffset a15Current first current
      | _, _, _ => throw .zoneNeedsA15

end TraderAssist
