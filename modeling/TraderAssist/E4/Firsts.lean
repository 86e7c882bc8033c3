/-
TraderAssist/E4/Firsts.lean

What a log makes of the 5m bars, apart from any projection.

The first bar of each slot counts, with the version of the Registry that bound its market when
it was accepted: `firsts` of the log.  A running projection has the newest of them, and the
references of all.
-/
import TraderAssist.E4.Projection
import TraderAssist.Data.Rows

namespace TraderAssist.E4

open Py

variable {δ : Type} {c : TruthConfig δ} {R : RegistryRoot δ} {t : ℕ} {e : AdmittedEvent δ}
variable {v : RegistryVersion} {key : Text × ℕ} {marketId : Text}

/-! ### Rows -/

namespace MemoryBarStore

variable {sha256 : EvidencePreimage δ → δ} {store : ClosedBarStore δ} {row : EvidenceRow δ}
  {key : Text × Interval × ℕ}

theorem row?_key (h : store.row? key = some row) : row.bar.key = key := (ClosedBarStore.row?_eq_some.mp h).2

theorem row?_append {store' : ClosedBarStore δ} (h : store'.rows = store.rows ++ [row])
    (hnew : store.row? row.bar.key = none) :
    store'.row? key = if row.bar.key = key then some row else store.row? key := by
  unfold ClosedBarStore.row? at hnew ⊢
  rw [h, List.find?_append]
  by_cases hkey : row.bar.key = key
  · rw [← hkey, hnew]
    simp
  · simp [hkey]

theorem row?_rebind {version : Text} {contentHash : δ} {key' : Text × Interval × ℕ} :
    (rebind store key version contentHash).row? key' = (store.row? key').map
    (reboundRow key version contentHash) := by
  unfold ClosedBarStore.row? rebind
  rw [List.find?_map]
  congr 2
  funext row
  simp

theorem row?_deleteBefore {cutoff : ℕ} : (deleteBefore store marketId cutoff).row? key
      = if key.1 = marketId ∧ key.2.2 < cutoff then none else store.row? key := by
  have hmem : ∀ row, row ∈ (deleteBefore store marketId cutoff).rows
      ↔ row ∈ store.rows ∧ ¬ (row.bar.marketId = marketId ∧ row.bar.openTimeMs < cutoff) := by
    intro row
    unfold deleteBefore
    rw [List.mem_filter, Bool.not_eq_true', ← Bool.not_eq_true, Bool.and_eq_true, decide_eq_true_eq,
      decide_eq_true_eq]
  ext row
  rw [ClosedBarStore.row?_eq_some, hmem]
  split
  · rename_i hcut
    constructor
    · rintro ⟨⟨-, hnot⟩, rfl⟩
      exact absurd hcut hnot
    · intro h
      cases h
  · rename_i hkept
    rw [ClosedBarStore.row?_eq_some]
    constructor
    · rintro ⟨⟨hrow, -⟩, hkey⟩
      exact ⟨hrow, hkey⟩
    · rintro ⟨hrow, rfl⟩
      exact ⟨⟨hrow, hkept⟩, rfl⟩

end MemoryBarStore

/-! ### Reading bars and the Registry -/

section

variable [DecidableEq δ]

/-- The Registry has the market, in its active version or in the pending one. -/
def Selects (R : RegistryRoot δ) (d : RegistryDisk δ) (marketId : Text) : Prop :=
  ∃ versions, selectedVersions R d = .ok versions ∧ versions.any (hasMarket marketId) = true

/-- The Registry binds the market, with metadata that agrees with the PIT universe. -/
def Binds (c : TruthConfig δ) (R : RegistryRoot δ) (d : RegistryDisk δ) (marketId : Text) : Prop :=
  ∃ v, boundRegistry c R d marketId = .ok v

theorem selects_of_bound {d : RegistryDisk δ}
    (h : boundRegistry c R d marketId = .ok v) : Selects R d marketId := by
  obtain ⟨versions, hvers, h⟩ := of_bind h
  refine ⟨versions, hvers, ?_⟩
  rcases hfind : versions.find? (hasMarket marketId) with - | w
  · rw [hfind] at h
    cases h
  · exact List.any_eq_true.mpr ⟨w, List.mem_of_find?_eq_some hfind, List.find?_some hfind⟩

/-- The slot of a bar, whether or not its market is selected. -/
def slot? (e : AdmittedEvent δ) : Option Slot :=
  if e.source.dataKind = .bar then
    (barType? e.source.eventContext).map fun interval =>
      (e.source.marketId, interval, (e.source.tsEvent / 1000000).toNat)
  else none

/-- Market and open time of a 5m bar. -/
def five? (e : AdmittedEvent δ) : Option (Text × ℕ) :=
  match slot? e with
  | some (marketId, .m5, openMs) => some (marketId, openMs)
  | _ => none

end

theorem five?_eq_some :
    five? e = some key ↔ slot? e = some (key.1, .m5, key.2) := by
  unfold five?
  rcases slot? e with - | ⟨m, interval, t⟩
  · simp
  · cases interval <;> simp [Prod.ext_iff]

theorem slot?_market {slot : Slot} (h : slot? e = some slot) :
    e.source.dataKind = .bar ∧ slot.1 = e.source.marketId := by
  unfold slot? at h
  split at h
  · rename_i hkind
    obtain ⟨interval, -, rfl⟩ := Option.map_eq_some_iff.mp h
    exact ⟨hkind, rfl⟩
  · cases h

/-- The facts of a bar are those of its slot. -/
theorem slot?_of_facts {f : BarFacts} (hkind : e.source.dataKind = .bar)
    (h : barFacts e.source = .ok f) : slot? e = some (e.source.marketId, f.interval, f.openMs) := by
  unfold slot?
  rw [if_pos hkind]
  unfold barFacts at h
  rcases hiv : barType? e.source.eventContext with - | interval
  · rw [hiv] at h
    cases h
  · rw [hiv] at h
    rw [require_bind_ok, require_bind_ok] at h
    obtain ⟨-, -, h⟩ := h
    split at h
    · cases h
      rfl
    · cases h

/-! ### First bars -/

section

variable [DecidableEq δ]

abbrev Firsts (δ : Type) := Dict (Text × ℕ) (AdmittedEvent δ × RegistryVersion)

/-- An event with the Registry at the time it is accepted. -/
abbrev Offer (δ : Type) := AdmittedEvent δ × RegistryDisk δ

end

namespace Firsts

section

variable [DecidableEq δ]

/-- A bar counts if its market is bound, it is in order and its slot is new. -/
def add (c : TruthConfig δ) (R : RegistryRoot δ) (firsts : Firsts δ) (offer : Offer δ) : Firsts δ :=
  match five? offer.1, boundRegistry c R offer.2 offer.1.source.marketId with
  | some key, .ok v =>
    if offer.1.outOfOrder = true ∨ firsts.has key = true then firsts else firsts.set key (offer.1, v)
  | _, _ => firsts

/-- The first bars of a log. -/
def ofLog (c : TruthConfig δ) (R : RegistryRoot δ) (offers : List (Offer δ)) : Firsts δ :=
  offers.foldl (add c R) Dict.empty

theorem ofLog_snoc (offers : List (Offer δ)) (offer : Offer δ) :
    ofLog c R (offers ++ [offer]) = add c R (ofLog c R offers) offer := by
  unfold ofLog
  rw [List.foldl_append]
  rfl

end

variable {firsts : Firsts δ} {e : AdmittedEvent δ} {d : RegistryDisk δ}

section

variable [DecidableEq δ]

theorem add_of_not_five (h : five? e = none) : add c R firsts (e, d) = firsts := by
  unfold add
  rw [show five? (e, d).1 = none from h]

theorem add_of_not_bar (h : e.source.dataKind ≠ .bar) : add c R firsts (e, d) = firsts := by
  refine add_of_not_five ?_
  unfold five? slot?
  rw [if_neg h]

theorem add_of_minute {m : Text} (h : slot? e = some (m, .m1, t)) :
    add c R firsts (e, d) = firsts := by
  refine add_of_not_five ?_
  unfold five?
  rw [h]

theorem add_of_not_bound (h : ¬ Binds c R d e.source.marketId) : add c R firsts (e, d) = firsts := by
  unfold add
  split
  · rename_i key v _ hbnd
    exact absurd ⟨v, hbnd⟩ h
  · rfl

theorem add_of_not_any {versions : List RegistryVersion} (h : selectedVersions R d = .ok versions)
    (hnot : ¬ versions.any (hasMarket e.source.marketId) = true) : add c R firsts (e, d) = firsts := by
  refine add_of_not_bound fun ⟨v, hv⟩ => ?_
  obtain ⟨versions', h', hany⟩ := selects_of_bound hv
  cases h.symm.trans h'
  exact hnot hany

theorem add_of_outOfOrder (h : e.outOfOrder = true) : add c R firsts (e, d) = firsts := by
  unfold add
  split
  · exact if_pos (.inl h)
  · rfl

theorem add_of_has (hfive : five? e = some key) (h : firsts.has key = true) :
    add c R firsts (e, d) = firsts := by
  unfold add
  split
  · rename_i key' v hkey' hbnd
    obtain rfl : key' = key := Option.some.inj (hkey'.symm.trans hfive)
    exact if_pos (.inr h)
  · rfl

theorem add_new (hfive : five? e = some key)
    (hbnd : boundRegistry c R d e.source.marketId = .ok v) (hord : e.outOfOrder = false)
    (hnew : firsts.get? key = none) : add c R firsts (e, d) = firsts.set key (e, v) := by
  unfold add
  rw [show five? (e, d).1 = some key from hfive,
    show boundRegistry c R (e, d).2 (e, d).1.source.marketId = .ok v from hbnd]
  refine if_neg ?_
  rintro (h | h)
  · rw [show e.outOfOrder = true from h] at hord
    cases hord
  · obtain ⟨w, hw⟩ := Dict.has_eq_true.mp h
    rw [hnew] at hw
    cases hw

/-- The open times of the first bars of a market. -/
def opens (firsts : Firsts δ) (marketId : Text) : List ℕ :=
  (firsts.keys.filter fun key => decide (key.1 = marketId)).map Prod.snd

end

theorem mem_opens : t ∈ firsts.opens marketId ↔ firsts.has (marketId, t) = true := by
  unfold opens
  rw [List.mem_map, Dict.has_eq_true]
  constructor
  · rintro ⟨⟨m, t'⟩, hmem, rfl⟩
    obtain ⟨hkey, hm⟩ := List.mem_filter.mp hmem
    obtain rfl : m = marketId := of_decide_eq_true hm
    exact Dict.mem_keys.mp hkey
  · intro h
    exact ⟨(marketId, t), List.mem_filter.mpr ⟨Dict.mem_keys.mpr h, decide_eq_true rfl⟩, rfl⟩

theorem opens_nodup (marketId : Text) : (firsts.opens marketId).Nodup := by
  refine List.Nodup.map_on (fun a ha b hb hab => ?_) (firsts.nodup.filter _)
  have ham : a.1 = marketId := of_decide_eq_true (List.mem_filter.mp ha).2
  have hbm : b.1 = marketId := of_decide_eq_true (List.mem_filter.mp hb).2
  exact Prod.ext (ham.trans hbm.symm) hab

section

variable [DecidableEq δ]

/-- One of the bars that are retained. -/
def Retained (firsts : Firsts δ) (marketId : Text) (t : ℕ) : Prop := Newest maxBars (firsts.opens marketId) t

end

/-- A bar that is retained beside more bars is retained. -/
theorem Retained.of_set {value : AdmittedEvent δ × RegistryVersion}
    (h : Retained (firsts.set key value) marketId t) : firsts.Retained marketId t := by
  refine Newest.of_subset h (opens_nodup marketId) fun x hx => ?_
  rw [mem_opens, Dict.has_eq_true] at hx ⊢
  rw [Dict.get?_set]
  split
  · exact ⟨_, rfl⟩
  · exact hx

end Firsts

/-! ### Pruning -/

namespace Projection

variable {p : Projection δ} {marketId : Text} {interval : BarInterval}

theorem mem_opens :
    t ∈ p.opens marketId interval ↔ ∃ e, p.barEvents.get? (marketId, interval, t) = some e := by
  unfold opens
  rw [mem_sortBy, List.mem_map, ← Dict.mem_keys]
  constructor
  · rintro ⟨⟨m, i, t'⟩, hmem, rfl⟩
    obtain ⟨hkey, hslot⟩ := List.mem_filter.mp hmem
    obtain ⟨rfl, rfl⟩ : m = marketId ∧ i = interval := of_decide_eq_true hslot
    exact hkey
  · intro h
    exact ⟨(marketId, interval, t), List.mem_filter.mpr ⟨h, decide_eq_true ⟨rfl, rfl⟩⟩, rfl⟩

theorem opens_sorted : (p.opens marketId interval).Pairwise (· < ·) := by
  have hnd : (p.opens marketId interval).Nodup := by
    refine (perm_sortBy _ _).nodup_iff.mpr (List.Nodup.map_on (fun a ha b hb hab => ?_) (p.barEvents.nodup.filter _))
    obtain ⟨hm, hi⟩ : a.1 = marketId ∧ a.2.1 = interval := of_decide_eq_true (List.mem_filter.mp ha).2
    obtain ⟨hm', hi'⟩ : b.1 = marketId ∧ b.2.1 = interval := of_decide_eq_true (List.mem_filter.mp hb).2
    exact Prod.ext (hm.trans hm'.symm) (Prod.ext (hi.trans hi'.symm) hab)
  have hsrt : (p.opens marketId interval).Pairwise (· ≤ ·) := sortBy_sorted id _
  exact hsrt.imp₂ (fun _ _ hle hne => hle.lt_of_ne hne) hnd

/-- The cutoff keeps the newest. -/
theorem cutoff?_eq_some {cutoff : ℕ} (h : p.cutoff? marketId interval = some cutoff) (t : ℕ) :
    Newest maxBars (p.opens marketId interval) t ↔ cutoff ≤ t := by
  unfold cutoff? at h
  dsimp only at h
  split at h
  · cases h
  · rename_i hlen
    exact newest_iff_le opens_sorted h (not_le.mp hlen).le

theorem cutoff?_eq_none (h : p.cutoff? marketId interval = none) :
    (p.opens marketId interval).length ≤ maxBars := by
  unfold cutoff? at h
  dsimp only at h
  split at h
  · assumption
  · rw [List.getElem?_eq_none_iff] at h
    have : 0 < maxBars := by decide
    omega

section

variable [DecidableEq δ]

/-- The open times before a cutoff. -/
def Cut (p : Projection δ) (marketId : Text) (interval : BarInterval) (t : ℕ) : Prop :=
  ∃ cutoff, p.cutoff? marketId interval = some cutoff ∧ t < cutoff

end

/-- The newest are not cut. -/
theorem not_cut_of_newest (h : Newest maxBars (p.opens marketId interval) t) :
    ¬ p.Cut marketId interval t := by
  rintro ⟨cutoff, hcut, hlt⟩
  exact absurd ((cutoff?_eq_some hcut t).mp h) (not_le.mpr hlt)

/-- And the others are. -/
theorem cut_of_not_newest (ht : t ∈ p.opens marketId interval)
    (h : ¬ Newest maxBars (p.opens marketId interval) t) : p.Cut marketId interval t := by
  rcases hcut : p.cutoff? marketId interval with - | cutoff
  · exact absurd (newest_of_length_le ht (cutoff?_eq_none hcut)) h
  · exact ⟨cutoff, hcut, not_le.mp fun hle => h ((cutoff?_eq_some hcut t).mpr hle)⟩

/-- A market that is cut has bars. -/
theorem mem_opens_of_cut (h : p.Cut marketId interval t) : ∃ t', t' ∈ p.opens marketId interval := by
  obtain ⟨cutoff, hcut, -⟩ := h
  unfold cutoff? at hcut
  dsimp only at hcut
  split at hcut
  · cases hcut
  · exact ⟨cutoff, List.mem_of_getElem? hcut⟩

theorem cut_congr {p' : Projection δ} (h : ∀ t, p'.barEvents.get? (marketId, interval, t)
    = p.barEvents.get? (marketId, interval, t)) (t : ℕ) : p'.Cut marketId interval t ↔ p.Cut marketId interval t := by
  have hops : p'.opens marketId interval = p.opens marketId interval := by
    refine List.Pairwise.eq_of_mem_iff opens_sorted opens_sorted fun t => ?_
    rw [mem_opens, mem_opens, h]
  unfold Cut cutoff?
  rw [hops]

section

variable [DecidableEq δ]

/-- What pruning some markets does to the 5m bars. -/
structure Pruned (markets : List Text) (p p' : Projection δ) : Prop where
  kept : ∀ m t, ¬ (m ∈ markets ∧ p.Cut m .m5 t) →
    p'.barEvents.get? (m, .m5, t) = p.barEvents.get? (m, .m5, t)
      ∧ p'.store.row? (m, .m5, t) = p.store.row? (m, .m5, t)
  cut : ∀ m t, m ∈ markets → p.Cut m .m5 t →
    p'.barEvents.get? (m, .m5, t) = none ∧ p'.store.row? (m, .m5, t) = none
  events : ∀ hash e, p'.events.get? hash = some e → p.events.get? hash = some e
  lastOrdinal : p'.lastOrdinal = p.lastOrdinal

theorem events_filter {events : Dict δ (AdmittedEvent δ)} {f : δ → AdmittedEvent δ → Bool} {hash : δ}
    (h : (events.filter f).get? hash = some e) : events.get? hash = some e := by
  rw [Dict.get?_filter] at h
  exact (Option.filter_eq_some_iff.mp h).1

/-- The turn for the 5m bars of a market. -/
theorem pruned_pruneMarket_m5 (p : Projection δ) (marketId : Text) :
    Pruned [marketId] p (p.pruneMarket c marketId .m5) := by
  unfold pruneMarket
  rcases hcut : p.cutoff? marketId .m5 with - | cutoff
  · refine ⟨fun m t _ => ⟨rfl, rfl⟩, fun m t hm hcut' => ?_, fun _ _ h => h, rfl⟩
    obtain ⟨cutoff, hcutoff, -⟩ := List.mem_singleton.mp hm ▸ hcut'
    rw [hcut] at hcutoff
    cases hcutoff
  · have hstale : ∀ m t, isStale marketId .m5 cutoff (m, .m5, t) = true ↔ m = marketId ∧ t < cutoff := by
      simp [isStale]
    refine ⟨fun m t hnot => ?_, fun m t hm hcut' => ?_, fun _ _ h => events_filter h, rfl⟩
    · have hkept : ¬ (m = marketId ∧ t < cutoff) := by
        rintro ⟨rfl, hlt⟩
        exact hnot ⟨List.mem_singleton_self _, cutoff, hcut, hlt⟩
      constructor
      · rw [Dict.get?_filter, Bool.eq_false_iff.mpr ((hstale m t).not.mpr hkept)]
        cases p.barEvents.get? (m, .m5, t) <;> rfl
      · show (MemoryBarStore.deleteBefore p.store marketId cutoff).row? _ = _
        rw [MemoryBarStore.row?_deleteBefore, if_neg hkept]
    · obtain rfl : m = marketId := List.mem_singleton.mp hm
      obtain ⟨cutoff', hcutoff', hlt⟩ := hcut'
      obtain rfl : cutoff = cutoff' := Option.some.inj (hcut.symm.trans hcutoff')
      constructor
      · rw [Dict.get?_filter, (hstale m t).mpr ⟨rfl, hlt⟩]
        cases p.barEvents.get? (m, .m5, t) <;> rfl
      · show (MemoryBarStore.deleteBefore p.store m cutoff).row? _ = _
        rw [MemoryBarStore.row?_deleteBefore, if_pos ⟨rfl, hlt⟩]

/-- The turn for the 1m bars leaves the 5m bars as they are. -/
theorem pruned_pruneMarket_m1 (p : Projection δ) (marketId : Text) :
    Pruned [] p (p.pruneMarket c marketId .m1) := by
  unfold pruneMarket
  rcases hcut : p.cutoff? marketId .m1 with - | cutoff
  · exact ⟨fun m t _ => ⟨rfl, rfl⟩, nofun, fun _ _ h => h, rfl⟩
  · refine ⟨fun m t _ => ⟨?_, rfl⟩, nofun, fun _ _ h => events_filter h, rfl⟩
    have hstale : isStale marketId .m1 cutoff (m, .m5, t) = false := by
      simp [isStale]
    rw [Dict.get?_filter, hstale]
    cases p.barEvents.get? (m, .m5, t) <;> rfl

/-- Pruning other markets afterwards. -/
theorem Pruned.trans {p₁ p₂ : Projection δ} {first rest : List Text} (h : Pruned first p p₁)
    (h' : Pruned rest p₁ p₂) (hdisj : ∀ m ∈ first, m ∉ rest) : Pruned (first ++ rest) p p₂ := by
  have hsame : ∀ m, m ∉ first → ∀ t, p₁.Cut m .m5 t ↔ p.Cut m .m5 t := fun m hm =>
    cut_congr fun t => (h.kept m t fun hnot => hm hnot.1).1
  refine ⟨fun m t hnot => ?_, fun m t hm hcut => ?_, fun hash e he => h.events _ _ (h'.events _ _ he),
    h'.lastOrdinal.trans h.lastOrdinal⟩
  · have hfst := h.kept m t fun hcut => hnot ⟨List.mem_append_left _ hcut.1, hcut.2⟩
    have hrest := h'.kept m t fun hcut => hnot ⟨List.mem_append_right _ hcut.1,
      (hsame m (fun hm => hdisj m hm hcut.1) t).mp hcut.2⟩
    exact ⟨hrest.1.trans hfst.1, hrest.2.trans hfst.2⟩
  · by_cases hmem : m ∈ first
    · have hkept := h'.kept m t fun hcut => hdisj m hmem hcut.1
      have hgone := h.cut m t hmem hcut
      exact ⟨hkept.1.trans hgone.1, hkept.2.trans hgone.2⟩
    · have hrest := (List.mem_append.mp hm).resolve_left hmem
      exact h'.cut m t hrest ((hsame m hmem t).mpr hcut)

/-- **What pruning does to the 5m bars**: those before the cutoff of their market go. -/
theorem pruned_prune (p : Projection δ) : Pruned (p.barEvents.keys.map Prod.fst).dedup p (p.prune c) := by
  unfold prune
  have hnd := List.nodup_dedup (p.barEvents.keys.map Prod.fst)
  generalize (p.barEvents.keys.map Prod.fst).dedup = markets at hnd ⊢
  induction markets generalizing p with
  | nil => exact ⟨fun _ _ _ => ⟨rfl, rfl⟩, nofun, fun _ _ h => h, rfl⟩
  | cons m markets ih =>
    obtain ⟨hm, hnd⟩ := List.nodup_cons.mp hnd
    have hone : Pruned [m] p ((p.pruneMarket c m .m5).pruneMarket c m .m1) :=
      (pruned_pruneMarket_m5 p m).trans (pruned_pruneMarket_m1 _ m) nofun
    exact hone.trans (ih _ hnd) fun m' hm' => List.mem_singleton.mp hm' ▸ hm

end

/-- A market that is cut is one of those that are pruned. -/
theorem mem_markets_of_cut (h : p.Cut marketId interval t) :
    marketId ∈ (p.barEvents.keys.map Prod.fst).dedup := by
  obtain ⟨t', ht'⟩ := mem_opens_of_cut h
  obtain ⟨e, he⟩ := mem_opens.mp ht'
  exact List.mem_dedup.mpr (List.mem_map.mpr ⟨_, Dict.mem_keys.mpr ⟨e, he⟩, rfl⟩)

end Projection

/-! ### Puts -/

section Puts

variable {s : TruthState δ} {Q : Unit → TruthState δ → Prop} {E : ProjectionError → TruthState δ → Prop}
variable {interval : Interval}

section

variable [DecidableEq δ]

/-- The state with another store. -/
def TruthState.withStore (s : TruthState δ) (store : ClosedBarStore δ) : TruthState δ :=
  { s with projection := { s.projection with store := store } }

/-- A put adds its row, or leaves the store as it is. -/
theorem ends_putRow {row : EvidenceRow δ}
    (hnew : s.projection.store.row? row.bar.key = none → ∀ store, store.rows = s.projection.store.rows ++ [row] →
      Q () (s.withStore store)) (hsame : s.projection.store.row? row.bar.key ≠ none → Q () s)
    (hE : s.projection.store.row? row.bar.key ≠ none → E .conflictingProjectionSlot s) :
    Ends (putRow c row) s Q E := by
  unfold putRow
  rw [ends_bind, ends_get]
  unfold MemoryBarStore.put
  split
  · rename_i prior hpri
    have hsome : s.projection.store.row? row.bar.key ≠ none := by
      rw [hpri]
      exact nofun
    split
    · exact hsame hsome
    · exact hE hsome
  · rename_i hnone
    exact hnew hnone _ rfl

/-- A put under a new key. -/
theorem ends_putRow_new {row : EvidenceRow δ} (hnone : s.projection.store.row? row.bar.key = none)
    (hQ : ∀ store, store.rows = s.projection.store.rows ++ [row] → Q () (s.withStore store)) :
    Ends (putRow c row) s Q E :=
  ends_putRow (fun _ => hQ) (fun hsome => absurd hnone hsome) fun hsome => absurd hnone hsome

/-- Where an aggregate of the window that ends with a bar goes. -/
def aggregateKey (bar : ClosedBar δ) (interval : Interval) : Text × Interval × ℕ :=
  (bar.marketId, interval, bar.openTimeMs + fiveMinutesMs - interval.ms)

end

theorem aggregate_key {store : ClosedBarStore δ} {sha256 : EvidencePreimage δ → δ} {bar a : ClosedBar δ}
    (hlast : ((store.tailBars bar.marketId bar.openTimeMs interval.sources).getLast?.map ClosedBar.openTimeMs)
      = some bar.openTimeMs)
    (h : aggregateClosed5m sha256 (store.tailBars bar.marketId bar.openTimeMs interval.sources) interval = .ok a) :
    a.key = aggregateKey bar interval := by
  obtain ⟨-, first, rest, hwin, hlen, hch, -, hkey, -⟩ := DataAuthority.aggregateClosed5m_ok h
  have hmem : first ∈ store.tailBars bar.marketId bar.openTimeMs interval.sources := by
    rw [hwin]
    exact .head _
  have hfst : first.marketId = bar.marketId := (ClosedBarStore.bar?_fields (ClosedBarStore.mem_tailBars hmem).1).1
  rw [hwin] at hlast hlen hch
  obtain ⟨last, hget, hopen⟩ := Option.map_eq_some_iff.mp hlast
  have hspan := getLast_of_chain hch hget
  rw [List.length_cons] at hlen
  rw [hkey, aggregateKey, interval.ms_eq, ← hlen]
  congr 2
  rw [Nat.add_mul]
  omega

section

variable [DecidableEq δ]

/-- Nothing changes but the row of the aggregate, and that only where its window fits. -/
def AggregatePut (bar : ClosedBar δ) (interval : Interval) (store store' : ClosedBarStore δ) : Prop :=
  ∀ key, store'.row? key = store.row? key
    ∨ key = aggregateKey bar interval ∧ interval.ms ≤ bar.openTimeMs + fiveMinutesMs

/-- An aggregate goes to its key, and changes nothing else. -/
theorem ends_putAggregate {bar : ClosedBar δ}
    (hQ : ∀ store, AggregatePut bar interval s.projection.store store → Q () (s.withStore store))
    (hE : interval.ms ≤ bar.openTimeMs + fiveMinutesMs →
      s.projection.store.row? (aggregateKey bar interval) ≠ none → E .conflictingProjectionSlot s) :
    Ends (putAggregate c R v bar interval) s Q E := by
  have hsame : Q () s := hQ s.projection.store fun _ => .inl rfl
  unfold putAggregate
  rw [ends_bind, ends_get]
  dsimp only
  split
  · rename_i hwin
    rcases hagg : aggregateClosed5m c.sha256 (s.projection.store.tailBars bar.marketId bar.openTimeMs
        interval.sources) interval with err | a
    · exact hsame
    · have hkey : a.key = aggregateKey bar interval := aggregate_key hwin.2.2.2 hagg
      have hrow : (evidenceRow R a v a.provenanceHash).bar.key = aggregateKey bar interval := hkey
      refine ends_putRow (fun hnew store hrows => hQ store fun key => ?_) (fun _ => hsame) fun hsome => ?_
      · rw [MemoryBarStore.row?_append hrows hnew, hrow]
        split
        · rename_i heq
          exact .inr ⟨heq.symm, hwin.1⟩
        · exact .inl rfl
      · rw [hrow] at hsome
        exact hE hwin.1 hsome
  · exact hsame

/-- An aggregate under a new key. -/
theorem ends_putAggregate_new {bar : ClosedBar δ}
    (hfree : interval.ms ≤ bar.openTimeMs + fiveMinutesMs →
      s.projection.store.row? (aggregateKey bar interval) = none)
    (hQ : ∀ store, AggregatePut bar interval s.projection.store store → Q () (s.withStore store)) :
    Ends (putAggregate c R v bar interval) s Q E :=
  ends_putAggregate hQ fun hfits hsome => absurd (hfree hfits) hsome

end

end Puts

end TraderAssist.E4
