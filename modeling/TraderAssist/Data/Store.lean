/-
TraderAssist/Data/Store.lean

The evidence store (`data.py`, `ClosedBarStore`).

A store is the list of its rows in the order of insertion, with the primary key as a field.
Everything read from it is a function of `bar?`, the bar under a key: what `insert` does to
`bar?` (`bar?_of_insert`) and what the queries say in terms of `bar?` (`lastOpen_eq_some`,
`isContiguous5m_iff`, `tailBars_of_members`) is all that is used of the store elsewhere.

Left out: the access counters, and the encoding of bars as JSON.
-/
import TraderAssist.Data.Types
import TraderAssist.Lib.Grid
import Mathlib.Data.Finset.Sort

namespace TraderAssist

open Py

variable {δ : Type}

/-! ### The table -/

structure EvidenceRow (δ : Type) where
  bar : ClosedBar δ
  registryVersion : Text
  registryContentHash : δ
  finalityIdentity : δ
  finalizedAtMs : ℤ
deriving DecidableEq

structure ClosedBarStore (δ : Type) where
  rows : List (EvidenceRow δ) := []
  keys_nodup : (rows.map fun r => r.bar.key).Nodup := by exact List.nodup_nil
deriving DecidableEq

namespace ClosedBarStore

/-- The row under a primary key. -/
def row? (store : ClosedBarStore δ) (key : Text × Interval × ℕ) : Option (EvidenceRow δ) :=
  store.rows.find? fun r => r.bar.key = key

def bar? (store : ClosedBarStore δ) (marketId : Text) (interval : Interval) (openTimeMs : ℕ) :
    Option (ClosedBar δ) :=
  (store.row? (marketId, interval, openTimeMs)).map EvidenceRow.bar

theorem nodup_snoc {store : ClosedBarStore δ} {row : EvidenceRow δ} (h : store.row? row.bar.key = none) :
    ((store.rows ++ [row]).map fun r => r.bar.key).Nodup := by
  have hnew : row.bar.key ∉ store.rows.map fun r => r.bar.key := by
    intro hmem
    obtain ⟨r, hr, hkey⟩ := List.mem_map.mp hmem
    have := List.find?_eq_none.mp h r hr
    simp [hkey] at this
  rw [List.map_append, List.map_singleton]
  exact List.nodup_append.mpr ⟨store.keys_nodup, List.nodup_singleton _, fun a ha b hb hab =>
    hnew (List.mem_singleton.mp hb ▸ hab ▸ ha)⟩

/-- `_insert`: nothing for a duplicate. -/
def insert [DecidableEq δ] (sha256 : EvidencePreimage δ → δ) (store : ClosedBarStore δ)
    (row : EvidenceRow δ) : Except DataRouteError (Option (ClosedBarStore δ)) :=
  match h : store.row? row.bar.key with
  | some prior =>
    if prior.bar.canonicalHash sha256 = row.bar.canonicalHash sha256
        ∨ prior.bar.SameCandleContents row.bar then .ok none
    else .error .conflictingBar
  | none => .ok (some ⟨store.rows ++ [row], nodup_snoc h⟩)

/-! ### Queries -/

/-- The bars of a market and interval. -/
def select (store : ClosedBarStore δ) (marketId : Text) (interval : Interval) : List (ClosedBar δ) :=
  (store.rows.map EvidenceRow.bar).filter fun b => b.marketId = marketId ∧ b.interval = interval

def lastOpen (store : ClosedBarStore δ) (marketId : Text) : Option ℕ :=
  ((store.select marketId .m5).map ClosedBar.openTimeMs).max?

def tailBars (store : ClosedBarStore δ) (marketId : Text) (atOrBeforeMs limit : ℕ) : List (ClosedBar δ) :=
  lastN limit (sortBy ClosedBar.openTimeMs
    ((store.select marketId .m5).filter fun b => b.openTimeMs ≤ atOrBeforeMs))

def isContiguous5m (store : ClosedBarStore δ) (marketId : Text) : Bool :=
  let opens := (store.select marketId .m5).map ClosedBar.openTimeMs
  match opens.min?, opens.max? with
  | some first, some last => last - first = (opens.length - 1) * fiveMinutesMs
  | _, _ => true

def bars (store : ClosedBarStore δ) (marketId : Text) (interval : Interval) : List (ClosedBar δ) :=
  sortBy ClosedBar.openTimeMs (store.select marketId interval)

/-- The 5m bars at `n` grid points from `start`, if all are stored. -/
def members (store : ClosedBarStore δ) (marketId : Text) : ℕ → ℕ → Option (List (ClosedBar δ))
  | _, 0 => some []
  | start, n + 1 =>
    match store.bar? marketId .m5 start with
    | none => none
    | some b => (store.members marketId (start + fiveMinutesMs) n).map (b :: ·)

/-! ### Bars under their keys -/

section Keys

variable {store store' : ClosedBarStore δ} {marketId : Text} {interval : Interval} {o : ℕ}
  {b : ClosedBar δ} {row : EvidenceRow δ}

theorem row?_eq_some {key : Text × Interval × ℕ} :
    store.row? key = some row ↔ row ∈ store.rows ∧ row.bar.key = key := by
  constructor
  · intro h
    exact ⟨List.mem_of_find?_eq_some h, by simpa using List.find?_some h⟩
  · rintro ⟨hmem, hkey⟩
    rcases hfind : store.row? key with - | r
    · have := List.find?_eq_none.mp hfind row hmem
      simp [hkey] at this
    · have hr := List.mem_of_find?_eq_some hfind
      have hrkey : r.bar.key = key := by simpa using List.find?_some hfind
      rw [List.inj_on_of_nodup_map store.keys_nodup hr hmem (hrkey.trans hkey.symm)]

theorem bar?_eq_some : store.bar? marketId interval o = some b
    ↔ (∃ row ∈ store.rows, row.bar = b) ∧ b.key = (marketId, interval, o) := by
  rw [bar?, Option.map_eq_some_iff]
  constructor
  · rintro ⟨row, hrow, rfl⟩
    obtain ⟨hmem, hkey⟩ := row?_eq_some.mp hrow
    exact ⟨⟨row, hmem, rfl⟩, hkey⟩
  · rintro ⟨⟨row, hmem, rfl⟩, hkey⟩
    exact ⟨row, row?_eq_some.mpr ⟨hmem, hkey⟩, rfl⟩

theorem bar?_fields (h : store.bar? marketId interval o = some b) :
    b.marketId = marketId ∧ b.interval = interval ∧ b.openTimeMs = o := by
  have hkey := (bar?_eq_some.mp h).2
  rw [Prod.mk.injEq, Prod.mk.injEq] at hkey
  exact hkey

/-- A stored bar opens on the grid of its interval. -/
theorem bar?_aligned (h : store.bar? marketId interval o = some b) : o % interval.ms = 0 := by
  obtain ⟨-, rfl, rfl⟩ := bar?_fields h
  exact b.aligned

theorem mem_select : b ∈ store.select marketId interval
    ↔ store.bar? marketId interval b.openTimeMs = some b := by
  rw [select, List.mem_filter, List.mem_map, decide_eq_true_eq, bar?_eq_some, Prod.mk.injEq, Prod.mk.injEq]
  tauto

variable [DecidableEq δ] {sha256 : EvidencePreimage δ → δ}

/-- An insertion where there is a row. -/
theorem insert_of_some (sha256 : EvidencePreimage δ → δ) {prior : EvidenceRow δ}
    (h : store.row? row.bar.key = some prior) :
    store.insert sha256 row = if prior.bar.canonicalHash sha256 = row.bar.canonicalHash sha256
      ∨ prior.bar.SameCandleContents row.bar then .ok none else .error .conflictingBar := by
  rw [insert]
  split
  · rename_i hpri
    cases h.symm.trans hpri
    rfl
  · rename_i hnone
    cases h.symm.trans hnone

/-- An insertion where there is none. -/
theorem insert_of_none (sha256 : EvidencePreimage δ → δ) (h : store.row? row.bar.key = none) :
    ∃ store', store'.rows = store.rows ++ [row] ∧ store.insert sha256 row = .ok (some store') := by
  rw [insert]
  split
  · rename_i hpri
    cases h.symm.trans hpri
  · exact ⟨_, rfl, rfl⟩

omit [DecidableEq δ] in
/-- The bars after a row was appended. -/
theorem bar?_of_rows (h : store'.rows = store.rows ++ [row]) (hnew : store.row? row.bar.key = none) :
    store'.bar? marketId interval o
      = if row.bar.key = (marketId, interval, o) then some row.bar else store.bar? marketId interval o := by
  rw [bar?, bar?, row?, row?, h, List.find?_append]
  by_cases hkey : row.bar.key = (marketId, interval, o)
  · rw [if_pos hkey, ← hkey]
    rw [row?] at hnew
    rw [hnew]
    simp
  · rw [if_neg hkey]
    simp [hkey]

omit [DecidableEq δ] in
/-- An appended row hides no bar. -/
theorem bar?_kept (h : store'.rows = store.rows ++ [row]) (hnew : store.row? row.bar.key = none)
    (hb : store.bar? marketId interval o = some b) : store'.bar? marketId interval o = some b := by
  rw [bar?_of_rows h hnew, if_neg, hb]
  intro hkey
  rw [bar?, ← hkey, hnew] at hb
  cases hb

end Keys

/-! ### Members -/

section Members

variable {store store' : ClosedBarStore δ} {marketId : Text} {start n : ℕ} {w : List (ClosedBar δ)}
  {b : ClosedBar δ}

theorem members_succ {l : List (ClosedBar δ)} : store.members marketId start (n + 1) = some l
    ↔ ∃ b w, l = b :: w ∧ store.bar? marketId .m5 start = some b
      ∧ store.members marketId (start + fiveMinutesMs) n = some w := by
  rw [members]
  rcases store.bar? marketId .m5 start with - | b
  · simp
  · simp only [Option.map_eq_some_iff, Option.some.injEq]
    constructor
    · rintro ⟨w, hw, rfl⟩
      exact ⟨b, w, rfl, rfl, hw⟩
    · rintro ⟨b', w, rfl, rfl, hw⟩
      exact ⟨w, hw, rfl⟩

theorem length_members (h : store.members marketId start n = some w) : w.length = n := by
  induction n generalizing start w with
  | zero =>
    obtain rfl : [] = w := Option.some.inj h
    rfl
  | succ n ih =>
    obtain ⟨b, w, rfl, -, hw⟩ := members_succ.mp h
    rw [List.length_cons, ih hw]

/-- The members are the bars at the points. -/
theorem mem_members (h : store.members marketId start n = some w) :
    b ∈ w ↔ ∃ i < n, store.bar? marketId .m5 (start + i * fiveMinutesMs) = some b := by
  induction n generalizing start w with
  | zero =>
    obtain rfl : [] = w := Option.some.inj h
    simp
  | succ n ih =>
    obtain ⟨c, w, rfl, hc, hw⟩ := members_succ.mp h
    rw [List.mem_cons, ih hw]
    constructor
    · rintro (rfl | ⟨i, hi, hb⟩)
      · exact ⟨0, Nat.succ_pos n, by simpa using hc⟩
      · exact ⟨i + 1, Nat.succ_lt_succ hi, by rw [← hb]; ring_nf⟩
    · rintro ⟨- | i, hi, hb⟩
      · exact .inl (Option.some.inj (hb.symm.trans hc))
      · exact .inr ⟨i, Nat.lt_of_succ_lt_succ hi, by rw [← hb]; ring_nf⟩

theorem head_members (h : store.members marketId start n = some (b :: w)) : b.openTimeMs = start := by
  cases n with
  | zero => cases h
  | succ n =>
    obtain ⟨c, w', heq, hc, -⟩ := members_succ.mp h
    rw [(List.cons.inj heq).1]
    exact (bar?_fields hc).2.2

/-- The members go up step by step. -/
theorem chain_members (h : store.members marketId start n = some w) :
    w.IsChain fun left right => right.openTimeMs = left.openTimeMs + fiveMinutesMs := by
  induction n generalizing start w with
  | zero =>
    obtain rfl : [] = w := Option.some.inj h
    exact .nil
  | succ n ih =>
    obtain ⟨b, w, rfl, hb, hw⟩ := members_succ.mp h
    cases w with
    | nil => exact .singleton b
    | cons c w =>
      refine List.isChain_cons_cons.mpr ⟨?_, ih hw⟩
      rw [head_members hw, (bar?_fields hb).2.2]

theorem isSome_members : (store.members marketId start n).isSome
    ↔ ∀ i < n, (store.bar? marketId .m5 (start + i * fiveMinutesMs)).isSome := by
  induction n generalizing start with
  | zero => simp [members]
  | succ n ih =>
    rw [members]
    rcases hb : store.bar? marketId .m5 start with - | b
    · simp only [Option.isSome_none, Bool.false_eq_true, false_iff]
      intro h
      have := h 0 (Nat.succ_pos n)
      rw [Nat.zero_mul, Nat.add_zero, hb] at this
      cases this
    · simp only [Option.isSome_map, ih]
      constructor
      · rintro h (- | i) hi
        · rw [Nat.zero_mul, Nat.add_zero, hb]
          rfl
        · have := h i (Nat.lt_of_succ_lt_succ hi)
          rwa [show start + (i + 1) * fiveMinutesMs = start + fiveMinutesMs + i * fiveMinutesMs by ring]
      · intro h i hi
        have := h (i + 1) (Nat.succ_lt_succ hi)
        rwa [show start + (i + 1) * fiveMinutesMs = start + fiveMinutesMs + i * fiveMinutesMs by ring]
          at this

/-- Members depend on the bars at their points only. -/
theorem members_congr (h : ∀ i < n, store'.bar? marketId .m5 (start + i * fiveMinutesMs)
    = store.bar? marketId .m5 (start + i * fiveMinutesMs)) :
    store'.members marketId start n = store.members marketId start n := by
  induction n generalizing start with
  | zero => rfl
  | succ n ih =>
    have hfst := h 0 (Nat.succ_pos n)
    rw [Nat.zero_mul, Nat.add_zero] at hfst
    rw [members, members, hfst, ih fun i hi => ?_]
    have := h (i + 1) (Nat.succ_lt_succ hi)
    rwa [show start + (i + 1) * fiveMinutesMs = start + fiveMinutesMs + i * fiveMinutesMs by ring]
      at this

/-- Bars that go up from `start`, each with a stored bar at its place. -/
theorem members_of_chain {R : ClosedBar δ → ClosedBar δ → Prop} {u : List (ClosedBar δ)}
    (hbeg : ∀ b ∈ u.head?, b.openTimeMs = start)
    (hch : u.IsChain fun left right => right.openTimeMs = left.openTimeMs + fiveMinutesMs)
    (hst : ∀ c ∈ u, ∃ b, store.bar? marketId .m5 c.openTimeMs = some b ∧ R c b) :
    ∃ w, store.members marketId start u.length = some w ∧ List.Forall₂ R u w := by
  induction u generalizing start with
  | nil => exact ⟨[], rfl, .nil⟩
  | cons c u ih =>
    obtain ⟨hnext, hrest⟩ := List.isChain_cons.mp hch
    obtain rfl : c.openTimeMs = start := hbeg c rfl
    obtain ⟨b, hb, hR⟩ := hst c (.head _)
    obtain ⟨w, hw, hall⟩ := ih (fun d hd => hnext d hd) hrest
      (fun d hd => hst d (.tail _ hd))
    exact ⟨b :: w, members_succ.mpr ⟨b, w, rfl, hb, hw⟩, .cons hR hall⟩

end Members

/-! ### What the queries say -/

section Queries

variable {store : ClosedBarStore δ} {marketId : Text} {o : ℕ}

/-- A 5m row of the market is stored at `o`. -/
def Has (store : ClosedBarStore δ) (marketId : Text) (o : ℕ) : Prop :=
  (store.bar? marketId .m5 o).isSome

instance : Decidable (store.Has marketId o) := inferInstanceAs (Decidable (_ = true))

theorem has_iff_mem : store.Has marketId o ↔ o ∈ (store.select marketId .m5).map ClosedBar.openTimeMs := by
  rw [Has, Option.isSome_iff_exists, List.mem_map]
  constructor
  · rintro ⟨b, hb⟩
    obtain ⟨-, -, rfl⟩ := bar?_fields hb
    exact ⟨b, mem_select.mpr hb, rfl⟩
  · rintro ⟨b, hb, rfl⟩
    exact ⟨b, mem_select.mp hb⟩

theorem Has.dvd (h : store.Has marketId o) : fiveMinutesMs ∣ o := by
  obtain ⟨b, hb⟩ := Option.isSome_iff_exists.mp h
  exact Nat.dvd_of_mod_eq_zero (bar?_aligned hb)

theorem nodup_select (store : ClosedBarStore δ) (marketId : Text) (interval : Interval) :
    (store.select marketId interval).Nodup :=
  ((List.Nodup.of_map ClosedBar.key (by rw [List.map_map]; exact store.keys_nodup)).filter _)

theorem select_inj {interval : Interval} {a b : ClosedBar δ} (ha : a ∈ store.select marketId interval)
    (hb : b ∈ store.select marketId interval) (h : a.openTimeMs = b.openTimeMs) : a = b := by
  have ha := mem_select.mp ha
  rw [h] at ha
  exact Option.some.inj (ha.symm.trans (mem_select.mp hb))

theorem nodup_opens (store : ClosedBarStore δ) (marketId : Text) (interval : Interval) :
    ((store.select marketId interval).map ClosedBar.openTimeMs).Nodup :=
  (List.nodup_map_iff_inj_on (nodup_select store marketId interval)).mpr
    fun _ ha _ hb h => select_inj ha hb h

/-- `last_open` is the latest stored open. -/
theorem lastOpen_eq_some : store.lastOpen marketId = some o
    ↔ store.Has marketId o ∧ ∀ x, store.Has marketId x → x ≤ o := by
  rw [lastOpen, List.max?_eq_some_iff]
  simp only [has_iff_mem]

theorem lastOpen_eq_none : store.lastOpen marketId = none ↔ ∀ x, ¬store.Has marketId x := by
  rw [lastOpen, List.max?_eq_none_iff, List.eq_nil_iff_forall_not_mem]
  simp only [has_iff_mem]

/-- **What `is_contiguous_5m` tests.** -/
theorem isContiguous5m_iff : store.isContiguous5m marketId = true
    ↔ Gapless fiveMinutesMs (store.Has marketId) := by
  have hgrid : ∀ x ∈ (store.select marketId .m5).map ClosedBar.openTimeMs, fiveMinutesMs ∣ x :=
    fun x hx => (has_iff_mem.mpr hx).dvd
  have hgap : Gapless fiveMinutesMs (store.Has marketId)
      ↔ Gapless fiveMinutesMs (· ∈ (store.select marketId .m5).map ClosedBar.openTimeMs) :=
    ⟨fun h => h.congr fun _ => has_iff_mem.symm, fun h => h.congr fun _ => has_iff_mem⟩
  rw [hgap, isContiguous5m]
  split
  · rename_i first last hfst hlast
    rw [List.min?_eq_some_iff] at hfst
    rw [List.max?_eq_some_iff] at hlast
    rw [decide_eq_true_eq]
    exact span_eq_iff_gapless (by decide) (nodup_opens store marketId .m5) hgrid hfst hlast
  · rename_i hnone
    -- without rows there is nothing between them
    refine iff_of_true rfl fun x y z hx => ?_
    rcases hmin : ((store.select marketId .m5).map ClosedBar.openTimeMs).min? with - | first
    · rw [List.min?_eq_none_iff] at hmin
      rw [hmin] at hx
      cases hx
    · rcases hmax : ((store.select marketId .m5).map ClosedBar.openTimeMs).max? with - | last
      · rw [List.max?_eq_none_iff] at hmax
        rw [hmax] at hx
        cases hx
      · exact absurd hmax (hnone first last hmin)

/-- The rows of a market without a gap, in order. -/
theorem gapless_iff_chain_bars : Gapless fiveMinutesMs (store.Has marketId)
    ↔ (store.bars marketId .m5).IsChain fun left right =>
      right.openTimeMs = left.openTimeMs + fiveMinutesMs := by
  have hsrt : ((store.bars marketId .m5).map ClosedBar.openTimeMs).Pairwise (· < ·) := by
    rw [List.pairwise_map]
    have hnd := (perm_sortBy ClosedBar.openTimeMs (store.select marketId .m5)).nodup_iff.mpr
      (nodup_select store marketId .m5)
    refine (List.Pairwise.and (sortBy_sorted _ _) hnd).imp_of_mem fun ha hb hab => ?_
    refine hab.1.lt_of_ne fun heq => hab.2 ?_
    exact select_inj (mem_sortBy.mp ha) (mem_sortBy.mp hb) heq
  have hmem : ∀ x, x ∈ (store.bars marketId .m5).map ClosedBar.openTimeMs ↔ store.Has marketId x := by
    intro x
    rw [has_iff_mem, List.mem_map, List.mem_map]
    simp only [bars, mem_sortBy]
  have hch := Gapless.iff_chain hsrt (fun x hx => ((hmem x).mp hx).dvd) (by decide)
  rw [List.isChain_map] at hch
  exact ⟨fun h => hch.mp (h.congr hmem), fun h => (hch.mpr h).congr fun x => (hmem x).symm⟩

/-- **The contiguity test is exact**: the three aggregates tell whether aligned opens go up in
steps of five minutes, and so whether the 5m rows of a market do. -/
theorem contiguity_test_exact (opens : Finset ℕ) (hne : opens.Nonempty)
    (hgrid : ∀ o ∈ opens, fiveMinutesMs ∣ o) (store : ClosedBarStore δ) (marketId : Text) :
    (opens.max' hne - opens.min' hne = (opens.card - 1) * fiveMinutesMs
      ↔ opens.sort.IsChain fun left right => right = left + fiveMinutesMs)
    ∧ (store.isContiguous5m marketId = true ↔ (store.bars marketId .m5).IsChain fun left right =>
      right.openTimeMs = left.openTimeMs + fiveMinutesMs) := by
  refine ⟨?_, isContiguous5m_iff.trans gapless_iff_chain_bars⟩
  have hsrt : opens.sort.Pairwise (· < ·) := opens.sortedLT_sort.pairwise
  have hmem : ∀ x, x ∈ opens.sort ↔ x ∈ opens := fun x => Finset.mem_sort _
  have hgrid : ∀ x ∈ opens.sort, fiveMinutesMs ∣ x := fun x hx => hgrid x ((hmem x).mp hx)
  rw [← Gapless.iff_chain hsrt hgrid (by decide), ← Finset.length_sort (· ≤ ·)]
  refine span_eq_iff_gapless (by decide) hsrt.nodup hgrid ⟨?_, fun x hx => ?_⟩ ⟨?_, fun x hx => ?_⟩
  · exact (hmem _).mpr (opens.min'_mem hne)
  · exact opens.min'_le x ((hmem x).mp hx)
  · exact (hmem _).mpr (opens.max'_mem hne)
  · exact opens.le_max' x ((hmem x).mp hx)

/-- Three opens with a gap before the last one. -/
theorem contiguity_test_gap : (∀ o ∈ ({0, 300000, 900000} : Finset ℕ), fiveMinutesMs ∣ o)
    ∧ ¬ ({0, 300000, 900000} : Finset ℕ).sort.IsChain fun left right => right = left + fiveMinutesMs := by
  have hgrid : ∀ o ∈ ({0, 300000, 900000} : Finset ℕ), fiveMinutesMs ∣ o := by decide
  refine ⟨hgrid, fun h => ?_⟩
  have hspan := (contiguity_test_exact _ ⟨0, by decide⟩ hgrid ({} : ClosedBarStore ℕ) []).1.mpr h
  exact absurd hspan (by decide)

/-- **The tail of a run of stored bars** is the run. -/
theorem tailBars_of_members {start n : ℕ} {w : List (ClosedBar δ)} (hbeg : fiveMinutesMs ∣ start)
    (h : store.members marketId start (n + 1) = some w) :
    store.tailBars marketId (start + n * fiveMinutesMs) (n + 1) = w := by
  have hmem : ∀ b ∈ w, store.bar? marketId .m5 b.openTimeMs = some b
      ∧ start ≤ b.openTimeMs ∧ b.openTimeMs ≤ start + n * fiveMinutesMs := by
    intro b hb
    obtain ⟨i, hi, hbar⟩ := (mem_members h).mp hb
    have hopen := (bar?_fields hbar).2.2
    have hle : i * fiveMinutesMs ≤ n * fiveMinutesMs := Nat.mul_le_mul_right _ (Nat.lt_succ_iff.mp hi)
    refine ⟨by rw [hopen]; exact hbar, by omega, by omega⟩
  have hlen := length_members h
  rw [← hlen]
  refine lastN_sortBy ((nodup_select store marketId .m5).filter _) ?_ ?_ ?_ ?_
  · intro a ha b hb hab
    exact select_inj (List.mem_of_mem_filter ha) (List.mem_of_mem_filter hb) hab
  · have hpos : 0 < fiveMinutesMs := by decide
    exact ((chain_members h).imp fun a b hab => by omega).pairwise
  · intro b hb
    obtain ⟨hbar, -, hle⟩ := hmem b hb
    exact List.mem_filter.mpr ⟨mem_select.mpr hbar, by simpa using hle⟩
  · -- a row at or after the start is one of the run
    intro a ha haw b hb
    obtain ⟨hsel, hle⟩ := List.mem_filter.mp ha
    have hbar := mem_select.mp hsel
    have hle : a.openTimeMs ≤ start + n * fiveMinutesMs := by simpa using hle
    refine lt_of_lt_of_le ?_ (hmem b hb).2.1
    by_contra hge
    have hgrid := (mem_gridPoints (n := n) (by decide) hbeg).mpr
      ⟨Nat.dvd_of_mod_eq_zero (bar?_aligned hbar), not_lt.mp hge, hle⟩
    obtain ⟨i, hi, hi'⟩ := Finset.mem_image.mp hgrid
    refine haw ((mem_members h).mpr ⟨i, Finset.mem_range.mp hi, ?_⟩)
    rw [hi']
    exact hbar

theorem mem_tailBars {limit : ℕ} {b : ClosedBar δ} (h : b ∈ store.tailBars marketId o limit) :
    store.bar? marketId .m5 b.openTimeMs = some b ∧ b.openTimeMs ≤ o := by
  obtain ⟨hsel, hle⟩ := List.mem_filter.mp (mem_sortBy.mp (mem_of_mem_lastN h))
  exact ⟨mem_select.mp hsel, by simpa using hle⟩

/-- The tail up to a stored bar ends with it. -/
theorem getLast?_tailBars {limit : ℕ} {b : ClosedBar δ} (hlim : 0 < limit)
    (h : store.bar? marketId .m5 o = some b) : (store.tailBars marketId o limit).getLast? = some b := by
  obtain ⟨-, -, rfl⟩ := bar?_fields h
  have hmem : b ∈ (store.select marketId .m5).filter fun c => c.openTimeMs ≤ b.openTimeMs :=
    List.mem_filter.mpr ⟨mem_select.mpr h, by simp⟩
  rw [tailBars, getLast?_lastN hlim]
  rcases hlast : (sortBy ClosedBar.openTimeMs ((store.select marketId .m5).filter
    fun c => c.openTimeMs ≤ b.openTimeMs)).getLast? with - | c
  · rw [List.getLast?_eq_none_iff] at hlast
    have := (@mem_sortBy _ _ _ ClosedBar.openTimeMs _ b).mpr hmem
    rw [hlast] at this
    cases this
  · obtain ⟨l, hl⟩ := List.getLast?_eq_some_iff.mp hlast
    have hc : c ∈ (store.select marketId .m5).filter fun c => c.openTimeMs ≤ b.openTimeMs := by
      rw [← @mem_sortBy _ _ _ ClosedBar.openTimeMs, hl]
      simp
    obtain ⟨hsel, hle⟩ := List.mem_filter.mp hc
    have hb : b ∈ l ++ [c] := by
      rw [← hl]
      exact mem_sortBy.mpr hmem
    have hsrt := sortBy_sorted ClosedBar.openTimeMs ((store.select marketId .m5).filter
      fun c => c.openTimeMs ≤ b.openTimeMs)
    rw [hl] at hsrt
    have hbc : b.openTimeMs ≤ c.openTimeMs := by
      rcases List.mem_append.mp hb with hb | hb
      · exact (List.pairwise_append.mp hsrt).2.2 b hb c (by simp)
      · rw [List.mem_singleton.mp hb]
    rw [select_inj hsel (mem_select.mpr h) (le_antisymm (by simpa using hle) hbc)]

end Queries

end ClosedBarStore

end TraderAssist
