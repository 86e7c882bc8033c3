/-
TraderAssist/Correlation/Order.lean

The correlation report does not see the order of its inputs, and later candles
change it exactly when they complete a pair of returns inside a window.

Sorting by a key that tells the items apart forgets the order they came in: the
signals by time and id, the candles of a market by time.  Nothing after
`reportOf` sees more of the observations than the returns of a market, which are
the pairs of its open candles five minutes apart (`mem_marketReturns`).

The window of a pair ends at `int(start.timestamp() * 1000)`.  In doubles this
can come out after the start: a candle that closes one microsecond later is then
taken in.  So the second law has a condition, which is met whenever the
conversion does not round up.
-/
import TraderAssist.Correlation.Engine

namespace TraderAssist

open Py

namespace Correlation

variable {δ : Type} {sha256 : Text → δ} {marketId : Text}

/-! ### Lists in strict order -/

section StrictOrder

variable {α : Type} {f : α → ℕ} {l m : List α}

/-- A list in strict order. -/
abbrev InOrder (f : α → ℕ) (l : List α) : Prop := l.Pairwise fun a b => f a < f b

/-- Lists in strict order with the same members are equal. -/
theorem eq_of_strict (hl : InOrder f l) (hm : InOrder f m) (h : ∀ a, a ∈ l ↔ a ∈ m) : l = m := by
  exact hl.eq_of_mem_iff hm @h

/-- A strictly ordered list that holds no fewer items holds the same. -/
theorem subset_of_strict (hl : InOrder f l) (h : l ⊆ m) (hlen : m.length ≤ l.length) : m ⊆ l := by
  have hnl : l.Nodup := hl.imp fun hlt heq => (heq ▸ hlt).false
  exact ((List.subperm_of_subset hnl h).perm_of_length_le hlen).symm.subset

theorem eq_of_strict_key (hl : InOrder f l) {a b : α} (ha : a ∈ l) (hb : b ∈ l) (h : f a = f b) : a = b :=
  List.inj_on_of_nodup_map ((List.pairwise_map.mpr hl).imp fun hlt => hlt.ne) ha hb h

/-- Items one step apart are neighbours, if all of them lie on the grid of that
step. -/
theorem mem_zip_tail {step rest : ℕ} (hstep : 0 < step) (hl : InOrder f l)
    (hgrid : ∀ a ∈ l, f a % step = rest) {a b : α} (ha : a ∈ l) (hb : b ∈ l)
    (hab : f b = f a + step) : (a, b) ∈ l.zip l.tail := by
  induction l with
  | nil => cases ha
  | cons c l ih =>
    obtain ⟨hc, hl'⟩ := List.pairwise_cons.mp hl
    have hgrid' : ∀ a ∈ l, f a % step = rest := fun a ha => hgrid a (.tail _ ha)
    have hbl : b ∈ l := by
      rcases List.mem_cons.mp hb with rfl | hb
      · rcases List.mem_cons.mp ha with rfl | ha
        · omega
        · have := hc a ha
          omega
      · exact hb
    rcases l with - | ⟨d, l⟩
    · cases hbl
    rcases ha with - | ⟨-, ha⟩
    · -- the next item lies between the two, and on the grid
      have hd : f d ≤ f b := by
        rcases List.mem_cons.mp hbl with rfl | hbl
        · exact le_rfl
        · exact ((List.pairwise_cons.mp hl').1 b hbl).le
      have hlt := hc d (.head _)
      have hmod : f d % step = f a % step := (hgrid d (by simp)).trans (hgrid a (by simp)).symm
      have hdvd : step ∣ f d - f a := Nat.dvd_of_mod_eq_zero (Nat.sub_mod_eq_zero_of_mod_eq hmod)
      have hge : step ≤ f d - f a := Nat.le_of_dvd (by omega) hdvd
      have : d = b := eq_of_strict_key hl (by simp) hb (by omega)
      subst this
      simp
    · exact List.mem_cons_of_mem _ (ih hl' hgrid' ha hbl)

end StrictOrder

/-! ### The returns of a market -/

section Returns

variable {l l' : List CloseObservation} {returns returns' : List MarketReturn}

theorem marketReturns_perm (h : l.Perm l') : marketReturns l = marketReturns l' := by
  have hmap : ∀ l : List CloseObservation,
      ((sortBy CloseObservation.closeTimeMs l).map CloseObservation.closeTimeMs).Perm
        (l.map CloseObservation.closeTimeMs) := fun l => (perm_sortBy _ l).map _
  by_cases hnd : (l.map CloseObservation.closeTimeMs).Nodup
  · have hsort := sortBy_eq_of_perm h fun a ha b hb hab => List.inj_on_of_nodup_map hnd ha hb hab
    unfold marketReturns
    rw [hsort]
  · -- both calls raise
    have hnot : ¬ ((sortBy CloseObservation.closeTimeMs l).map CloseObservation.closeTimeMs).Nodup :=
      fun hn => hnd ((hmap l).nodup_iff.mp hn)
    have hnot' : ¬ ((sortBy CloseObservation.closeTimeMs l').map CloseObservation.closeTimeMs).Nodup :=
      fun hn => hnd ((h.map _).nodup_iff.mpr ((hmap l').nodup_iff.mp hn))
    simp only [marketReturns, require, if_neg hnot, if_neg hnot']
    rfl

/-- Returns in the order of time. -/
abbrev InTime (returns : List MarketReturn) : Prop := InOrder MarketReturn.closeTimeMs returns

/-- What a call that returns has checked, and what it returns. -/
theorem marketReturns_ok (h : marketReturns l = .ok returns) : (l.map CloseObservation.closeTimeMs).Nodup
      ∧ (sortBy CloseObservation.closeTimeMs l).Pairwise (fun a b => a.closeTimeMs < b.closeTimeMs)
      ∧ returns = ((sortBy CloseObservation.closeTimeMs l).zip
          (sortBy CloseObservation.closeTimeMs l).tail).filterMap fun p => returnBetween p.1 p.2 := by
  obtain ⟨hnd, h⟩ := require_bind_ok.mp h
  refine ⟨((perm_sortBy _ l).map _).nodup_iff.mp hnd, ?_, (Except.ok.inj h).symm⟩
  have hle := sortBy_sorted CloseObservation.closeTimeMs l
  have hne := List.pairwise_map.mp hnd
  exact hle.imp₂ (fun a b hle hne => hle.lt_of_ne hne) hne

theorem exists_marketReturns (h : (l.map CloseObservation.closeTimeMs).Nodup) :
    ∃ returns, marketReturns l = .ok returns := by
  have hnd := ((perm_sortBy CloseObservation.closeTimeMs l).map _).nodup_iff.mpr h
  exact ⟨_, require_bind_ok.mpr ⟨hnd, rfl⟩⟩

theorem returnBetween_eq_some {prior current : CloseObservation} {r : MarketReturn}
    (h : returnBetween prior current = some r) : prior.isOpenMarket = true ∧ current.isOpenMarket = true
      ∧ current.closeTimeMs = prior.closeTimeMs + fiveMinutesMs ∧ r.closeTimeMs = current.closeTimeMs := by
  unfold returnBetween at h
  split_ifs at h with hopen
  cases h
  exact ⟨hopen.1, hopen.2.1, hopen.2.2, rfl⟩

/-- **The returns of a market** are the pairs of its open candles five minutes
apart. -/
theorem mem_marketReturns (h : marketReturns l = .ok returns) {r : MarketReturn} :
    r ∈ returns ↔ ∃ prior ∈ l, ∃ current ∈ l, returnBetween prior current = some r := by
  obtain ⟨-, hstri, rfl⟩ := marketReturns_ok h
  rw [List.mem_filterMap]
  constructor
  · rintro ⟨⟨prior, current⟩, hmem, hr⟩
    obtain ⟨hp, hc⟩ := List.of_mem_zip hmem
    exact ⟨prior, mem_sortBy.mp hp, current, mem_sortBy.mp (List.mem_of_mem_tail hc), hr⟩
  · rintro ⟨prior, hp, current, hc, hr⟩
    refine ⟨(prior, current), ?_, hr⟩
    exact mem_zip_tail (by decide) hstri (fun a _ => a.geometry) (mem_sortBy.mpr hp)
      (mem_sortBy.mpr hc) (returnBetween_eq_some hr).2.2.1

/-- They come in order of time. -/
theorem marketReturns_strict (h : marketReturns l = .ok returns) : InTime returns := by
  obtain ⟨-, hstri, rfl⟩ := marketReturns_ok h
  set ordered := sortBy CloseObservation.closeTimeMs l
  have hsnd : (ordered.zip ordered.tail).map Prod.snd = ordered.tail := List.map_snd_zip (by simp)
  have hzip : (ordered.zip ordered.tail).Pairwise fun p q => p.2.closeTimeMs < q.2.closeTimeMs := by
    rw [← List.pairwise_map (f := Prod.snd) (R := fun a b : CloseObservation =>
      a.closeTimeMs < b.closeTimeMs), hsnd]
    exact hstri.tail
  refine List.Pairwise.filterMap _ (fun p q hpq r hr r' hr' => ?_) hzip
  rw [(returnBetween_eq_some hr).2.2.2, (returnBetween_eq_some hr').2.2.2]
  exact hpq

end Returns

/-! ### Pairs of returns -/

section Pairs

variable {left right left' right' : List MarketReturn}

theorem mem_pairReturns (hrt : InTime right) {l r : MarketReturn} :
    (l, r) ∈ pairReturns left right ↔ l ∈ left ∧ r ∈ right ∧ r.closeTimeMs = l.closeTimeMs := by
  simp only [pairReturns, List.mem_filterMap, Option.map_eq_some_iff, Prod.mk.injEq]
  constructor
  · rintro ⟨l', hl', r', hr', rfl, rfl⟩
    exact ⟨hl', List.mem_of_find?_eq_some hr', by simpa using List.find?_some hr'⟩
  · rintro ⟨hl, hr, heq⟩
    rcases e : right.find? fun r => r.closeTimeMs = l.closeTimeMs with - | r'
    · exact absurd (decide_eq_true heq) (List.find?_eq_none.mp e r hr)
    · have heq' : r'.closeTimeMs = l.closeTimeMs := by simpa using List.find?_some e
      have : r' = r := eq_of_strict_key hrt (List.mem_of_find?_eq_some e) hr (heq'.trans heq.symm)
      exact ⟨l, hl, r', e, rfl, this⟩

theorem pairReturns_strict (hleft : InTime left) :
    (pairReturns left right).Pairwise fun p q => p.1.closeTimeMs < q.1.closeTimeMs := by
  refine List.Pairwise.filterMap _ (fun a b hab p hp q hq => ?_) hleft
  obtain ⟨-, -, rfl⟩ := Option.map_eq_some_iff.mp hp
  obtain ⟨-, -, rfl⟩ := Option.map_eq_some_iff.mp hq
  exact hab

variable {lower start : Datetime}

theorem mem_pairsIn (hrt : InTime right) {l r : MarketReturn} : (l, r) ∈ pairsIn lower start left right
      ↔ l ∈ left ∧ r ∈ right ∧ r.closeTimeMs = l.closeTimeMs ∧ inWindow lower start l.closeTimeMs := by
  unfold pairsIn
  rw [mem_pairReturns (hrt.filter _)]
  simp only [List.mem_filter, decide_eq_true_eq]
  constructor
  · rintro ⟨⟨hl, hw⟩, ⟨hr, -⟩, heq⟩
    exact ⟨hl, hr, heq, hw⟩
  · rintro ⟨hl, hr, heq, hw⟩
    exact ⟨⟨hl, hw⟩, ⟨hr, heq ▸ hw⟩, heq⟩

/-- **More returns leave the pairs of a window alone** exactly when every time
at which both lists now have a return was such a time before. -/
theorem pairsIn_eq_iff (hleft' : InTime left') (hrt' : InTime right') (hleft : InTime left)
    (hrt : InTime right) (hl : left ⊆ left') (hr : right ⊆ right') {kept : Prop}
    (hkept : kept ↔ ∀ t, inWindow lower start t → (∃ r ∈ left', r.closeTimeMs = t) →
      (∃ r ∈ right', r.closeTimeMs = t) → (∃ r ∈ left, r.closeTimeMs = t) ∧ ∃ r ∈ right, r.closeTimeMs = t) :
    (kept → pairsIn lower start left' right' = pairsIn lower start left right)
      ∧ ((pairsIn lower start left' right').length ≤ (pairsIn lower start left right).length → kept) := by
  rw [hkept]
  have hsub : pairsIn lower start left right ⊆ pairsIn lower start left' right' := by
    rintro ⟨l, r⟩ hmem
    obtain ⟨hlm, hrm, heq, hw⟩ := (mem_pairsIn hrt).mp hmem
    exact (mem_pairsIn hrt').mpr ⟨hl hlm, hr hrm, heq, hw⟩
  have hstri : (pairsIn lower start left right).Pairwise
      fun p q => p.1.closeTimeMs < q.1.closeTimeMs := pairReturns_strict (hleft.filter _)
  have hstri' : (pairsIn lower start left' right').Pairwise
      fun p q => p.1.closeTimeMs < q.1.closeTimeMs := pairReturns_strict (hleft'.filter _)
  constructor
  · intro hold
    refine eq_of_strict hstri' hstri ?_
    rintro ⟨l, r⟩
    refine ⟨fun hmem => ?_, fun hmem => hsub hmem⟩
    obtain ⟨hlm, hrm, heq, hw⟩ := (mem_pairsIn hrt').mp hmem
    obtain ⟨⟨l₀, hl₀, htl⟩, r₀, hr₀, htr⟩ := hold _ hw ⟨l, hlm, rfl⟩ ⟨r, hrm, heq⟩
    -- one return per time
    have hleq : l₀ = l := eq_of_strict_key hleft' (hl hl₀) hlm htl
    have hreq : r₀ = r := eq_of_strict_key hrt' (hr hr₀) hrm (htr.trans heq.symm)
    exact (mem_pairsIn hrt).mpr ⟨hleq ▸ hl₀, hreq ▸ hr₀, heq, hw⟩
  · rintro hlen t hw ⟨l, hlm, rfl⟩ ⟨r, hrm, heq⟩
    have hmem := subset_of_strict hstri hsub hlen ((mem_pairsIn hrt').mpr ⟨hlm, hrm, heq, hw⟩)
    obtain ⟨hl₀, hr₀, -, -⟩ := (mem_pairsIn hrt).mp hmem
    exact ⟨⟨l, hl₀, rfl⟩, r, hr₀, heq⟩

end Pairs

/-! ### The mapping of observations -/

section Mapping

variable {observations observations' : Dict Text (List CloseObservation)}
  {byMarket byMarket' : Dict Text (List MarketReturn)}

/-- What the loop over the mapping checks. -/
def Valid (observations : Dict Text (List CloseObservation)) : Prop :=
  ∀ marketId items, observations.get? marketId = some items →
    (∀ item ∈ items, item.marketId = marketId) ∧ (items.map CloseObservation.closeTimeMs).Nodup

theorem returnsEntry_ok {entry : Text × List CloseObservation} {result : Text × List MarketReturn} :
    returnsEntry entry = .ok result ↔ (∀ item ∈ entry.2, item.marketId = entry.1)
      ∧ result.1 = entry.1 ∧ marketReturns entry.2 = .ok result.2 := by
  unfold returnsEntry
  rw [require_bind_ok, bind_eq_ok]
  refine and_congr_right fun _ => ⟨?_, ?_⟩
  · rintro ⟨returns, hrets, h⟩
    cases h
    exact ⟨rfl, hrets⟩
  · rintro ⟨hkey, hrets⟩
    exact ⟨result.2, hrets, congrArg Except.ok (Prod.ext hkey.symm rfl)⟩

theorem keys_returnsEntry {entries : List (Text × List CloseObservation)}
    {pairs : List (Text × List MarketReturn)}
    (h : List.Forall₂ (fun e p => returnsEntry e = .ok p) entries pairs) :
    entries.map Prod.fst = pairs.map Prod.fst :=
  map_eq_of_forall₂ (h.imp fun _ _ hok => (returnsEntry_ok.mp hok).2.1.symm)

theorem returnsByMarket_ok (h : returnsByMarket observations = .ok byMarket)
    {returns : List MarketReturn} :
    byMarket.get? marketId = some returns ↔ ∃ items, observations.get? marketId = some items
      ∧ (∀ item ∈ items, item.marketId = marketId) ∧ marketReturns items = .ok returns := by
  obtain ⟨pairs, hprs, h⟩ := of_bind h
  cases h
  have hall := forall₂_of_mapM hprs
  rw [Dict.get?_ofPairs (keys_returnsEntry hall ▸ observations.nodup)]
  constructor
  · intro hmem
    obtain ⟨⟨key, items⟩, hent, hok⟩ := forall₂_mem_right hall hmem
    obtain ⟨hids, hkey, hrets⟩ := returnsEntry_ok.mp hok
    obtain rfl : marketId = key := hkey
    exact ⟨items, Dict.mem_entries.mp hent, hids, hrets⟩
  · rintro ⟨items, hget, hids, hrets⟩
    obtain ⟨p, hp, hok⟩ := forall₂_mem_left hall (Dict.mem_entries.mpr hget)
    have : p = (marketId, returns) :=
      Except.ok.inj (hok.symm.trans (returnsEntry_ok.mpr ⟨hids, rfl, hrets⟩))
    exact this ▸ hp

theorem returnsByMarket_isOk :
    (∃ byMarket, returnsByMarket observations = .ok byMarket) ↔ Valid observations := by
  constructor
  · rintro ⟨byMarket, h⟩ marketId items hget
    obtain ⟨pairs, hprs, -⟩ := of_bind h
    obtain ⟨p, hok⟩ := exists_ok_of_mapM hprs (Dict.mem_entries.mpr hget)
    obtain ⟨hids, -, hrets⟩ := returnsEntry_ok.mp hok
    exact ⟨hids, (marketReturns_ok hrets).1⟩
  · intro hval
    have hok : ∀ e ∈ observations.entries,
        returnsEntry e = .ok (e.1, (marketReturns e.2).toOption.getD []) := by
      rintro ⟨key, items⟩ he
      obtain ⟨hids, hnd⟩ := hval key items (Dict.mem_entries.mp he)
      obtain ⟨returns, hrets⟩ := exists_marketReturns hnd
      refine returnsEntry_ok.mpr ⟨hids, rfl, ?_⟩
      rw [hrets]
      rfl
    exact ⟨_, bind_eq_ok.mpr ⟨_, mapM_eq_ok_map hok, rfl⟩⟩

end Mapping

/-! ### The table of pairs -/

section Table

variable {correlation correlation' : PairKey → Except CorrelationError (PairwiseCorrelation δ)}
  {windows : List (Datetime × List ShadowSignal)} {table table' : PairTable δ}

/-- Every entry is the correlation of its key. -/
def PairTable.Tabulates (table : PairTable δ)
    (correlation : PairKey → Except CorrelationError (PairwiseCorrelation δ)) : Prop :=
  ∀ key c, table.lookup.get? key = some c → correlation key = .ok c

theorem PairTable.add_ok {start : Datetime} {pair : ShadowSignal × ShadowSignal}
    (h : table.add correlation start pair = .ok table') :
    (table.lookup.get? (pairKey start pair.1 pair.2) ≠ none ∧ table'.lookup = table.lookup)
      ∨ ∃ fresh, correlation (pairKey start pair.1 pair.2) = .ok fresh
        ∧ table'.lookup = table.lookup.set (pairKey start pair.1 pair.2) fresh := by
  unfold PairTable.add at h
  dsimp only at h
  rcases e : table.lookup.get? (pairKey start pair.1 pair.2) with - | known
  · rw [e] at h
    obtain ⟨fresh, hfr, h⟩ := of_bind h
    cases h
    exact .inr ⟨fresh, hfr, rfl⟩
  · rw [e] at h
    cases h
    exact .inl ⟨Option.some_ne_none known, rfl⟩

/-- **The table of pairs**: its entries are correlations, and every pair of a
window has one. -/
theorem pairTable_ok (h : pairTable correlation windows = .ok table) : table.Tabulates correlation
      ∧ ∀ p ∈ windowPairs windows, table.lookup.get? (pairKey p.1 p.2.1 p.2.2) ≠ none := by
  suffices hfold : ∀ (pairs : List (Datetime × ShadowSignal × ShadowSignal)) (before : PairTable δ),
      before.Tabulates correlation →
      pairs.foldlM (fun table p => table.add correlation p.1 p.2) before = .ok table →
      table.Tabulates correlation ∧ (∀ key, before.lookup.get? key ≠ none → table.lookup.get? key ≠ none)
        ∧ ∀ p ∈ pairs, table.lookup.get? (pairKey p.1 p.2.1 p.2.2) ≠ none by
    obtain ⟨htab, -, hall⟩ := hfold _ _ (fun key c hc => by cases hc) h
    exact ⟨htab, hall⟩
  intro pairs
  induction pairs with
  | nil =>
    intro before hbef h
    cases h
    exact ⟨hbef, fun _ hk => hk, by simp⟩
  | cons p pairs ih =>
    intro before hbef h
    obtain ⟨next, hadd, h⟩ := of_bind h
    -- one step keeps the entries and has the pair
    have hstep : next.Tabulates correlation
        ∧ (∀ key, before.lookup.get? key ≠ none → next.lookup.get? key ≠ none)
        ∧ next.lookup.get? (pairKey p.1 p.2.1 p.2.2) ≠ none := by
      rcases PairTable.add_ok hadd with ⟨hkn, hsame⟩ | ⟨fresh, hfr, hset⟩
      · unfold PairTable.Tabulates
        rw [hsame]
        exact ⟨hbef, fun _ hk => hk, hkn⟩
      · unfold PairTable.Tabulates
        rw [hset]
        exact ⟨Dict.forall_get?_set hbef hfr, fun key hk hnone => hk (Dict.get?_set_eq_none.mp hnone).2,
          by simp⟩
    obtain ⟨htab, hkeep, hall⟩ := ih next hstep.1 h
    refine ⟨htab, fun key hk => hkeep key (hstep.2.1 key hk), fun q hq => ?_⟩
    rcases hq with - | ⟨-, hq⟩
    · exact hkeep _ hstep.2.2
    · exact hall q hq

/-- The table reads the correlations of the pairs only. -/
theorem pairTable_congr (h : ∀ p ∈ windowPairs windows,
    correlation (pairKey p.1 p.2.1 p.2.2) = correlation' (pairKey p.1 p.2.1 p.2.2)) :
    pairTable correlation windows = pairTable correlation' windows := by
  unfold pairTable
  generalize (⟨Dict.empty, ∅⟩ : PairTable δ) = before
  generalize windowPairs windows = pairs at h
  induction pairs generalizing before with
  | nil => rfl
  | cons p pairs ih =>
    have hadd : before.add correlation p.1 p.2 = before.add correlation' p.1 p.2 := by
      unfold PairTable.add
      dsimp only
      rw [h p (.head _)]
    rw [List.foldlM_cons]
    congr 1
    funext next
    exact ih next fun q hq => h q (.tail _ hq)

end Table

/-! ### Order -/

section Permutations

variable {signals signals' : List ShadowSignal}
  {observations observations' : Dict Text (List CloseObservation)}

/-- The same candles for each market, in any order; the order of the keys is not
seen by a lookup. -/
def SameObservations (observations observations' : Dict Text (List CloseObservation)) : Prop :=
  ∀ marketId, (observations.get? marketId = none ↔ observations'.get? marketId = none)
    ∧ ∀ items items', observations.get? marketId = some items →
      observations'.get? marketId = some items' → items.Perm items'

theorem SameObservations.symm (h : SameObservations observations observations') :
    SameObservations observations' observations := fun marketId =>
  ⟨(h marketId).1.symm, fun items items' hget hget' => ((h marketId).2 items' items hget' hget).symm⟩

theorem SameObservations.get? (h : SameObservations observations observations')
    {items : List CloseObservation} (hget : observations.get? marketId = some items) :
    ∃ items', observations'.get? marketId = some items' ∧ items.Perm items' := by
  have hne : observations'.get? marketId ≠ none := by
    rw [Ne, ← (h marketId).1, hget]
    exact nofun
  obtain ⟨items', hget'⟩ := Option.ne_none_iff_exists'.mp hne
  exact ⟨items', hget', (h marketId).2 items items' hget hget'⟩

theorem validateSignals_perm (h : signals.Perm signals') :
    validateSignals signals = validateSignals signals' := by
  have hids := h.map ShadowSignal.shadowOrderId
  unfold validateSignals
  by_cases hnd : (signals.map ShadowSignal.shadowOrderId).Nodup
  · have hsort : sortBy ShadowSignal.timeKey signals = sortBy ShadowSignal.timeKey signals' := by
      refine sortBy_eq_of_perm h fun a ha b hb hab => ?_
      exact List.inj_on_of_nodup_map hnd ha hb (Prod.ext_iff.mp (toLex.injective hab)).2
    rw [hsort, require, require, if_pos hnd, if_pos (hids.nodup_iff.mp hnd)]
  · rw [require, require, if_neg hnd, if_neg fun hn => hnd (hids.nodup_iff.mpr hn)]
    rfl

theorem SameObservations.returns (h : SameObservations observations observations')
    {byMarket : Dict Text (List MarketReturn)} (hok : returnsByMarket observations = .ok byMarket) :
    ∃ byMarket', returnsByMarket observations' = .ok byMarket' ∧ byMarket'.get? = byMarket.get? := by
  have hval : Valid observations' := by
    intro marketId items' hget'
    obtain ⟨items, hget, hperm⟩ := h.symm.get? hget'
    obtain ⟨hids, hnd⟩ := returnsByMarket_isOk.mp ⟨byMarket, hok⟩ marketId items hget
    exact ⟨fun item hi => hids item (hperm.mem_iff.mp hi), (hperm.map _).nodup_iff.mpr hnd⟩
  obtain ⟨byMarket', hok'⟩ := returnsByMarket_isOk.mpr hval
  refine ⟨byMarket', hok', funext fun marketId => Option.ext fun returns => ?_⟩
  rw [returnsByMarket_ok hok', returnsByMarket_ok hok]
  -- the same candles give the same returns
  have hsame : ∀ {o o' : Dict Text (List CloseObservation)}, SameObservations o o' →
      (∃ items, o.get? marketId = some items ∧ (∀ item ∈ items, item.marketId = marketId)
        ∧ marketReturns items = .ok returns) →
      ∃ items, o'.get? marketId = some items ∧ (∀ item ∈ items, item.marketId = marketId)
        ∧ marketReturns items = .ok returns := by
    rintro o o' ho ⟨items, hget, hids, hrets⟩
    obtain ⟨items', hget', hperm⟩ := ho.get? hget
    exact ⟨items', hget', fun item hi => hids item (hperm.mem_iff.mpr hi),
      (marketReturns_perm hperm).symm.trans hrets⟩
  exact ⟨hsame h.symm, hsame h⟩

theorem build_perm (hsig : signals.Perm signals')
    (hobs : SameObservations observations observations') {report : CorrelationReport δ}
    (h : buildCorrelationReport sha256 signals observations = .ok report) :
    buildCorrelationReport sha256 signals' observations' = .ok report := by
  obtain ⟨ordered, hord, h⟩ := of_bind h
  obtain ⟨byMarket, hrets, h⟩ := of_bind h
  obtain ⟨byMarket', hrets', hsame⟩ := hobs.returns hrets
  rw [validateSignals_perm hsig] at hord
  refine bind_eq_ok.mpr ⟨ordered, hord, bind_eq_ok.mpr ⟨byMarket', hrets', ?_⟩⟩
  rw [hsame]
  exact h

end Permutations

/-! ### Later candles -/

section Later

variable {signals : List ShadowSignal} {observations observations' : Dict Text (List CloseObservation)}

/-- The windows of a report's signals. -/
def windowsOf (signals : List ShadowSignal) : List (Datetime × List ShadowSignal) :=
  ((validateSignals signals >>= eventWindows).toOption).getD []

/-- `observations'` has the candles of `observations` and more, all of them
later than every event window start. -/
structure AddsLater (signals : List ShadowSignal)
    (observations observations' : Dict Text (List CloseObservation)) : Prop where
  added : ∀ marketId, ∃ later : List CloseObservation,
    ((observations'.get? marketId).getD []).Perm ((observations.get? marketId).getD [] ++ later)
      ∧ ∀ item ∈ later, ∀ w ∈ windowsOf signals,
        w.1.epochMicroseconds < (item.closeTimeMs : ℤ) * 1000
  keys : ∀ marketId, observations.get? marketId ≠ none → observations'.get? marketId ≠ none

/-- A market has open candles at `closeTimeMs` and five minutes before. -/
def HasReturn (observations : Dict Text (List CloseObservation)) (marketId : Text)
    (closeTimeMs : ℕ) : Prop :=
  ∃ items, observations.get? marketId = some items ∧ ∃ prior ∈ items, ∃ current ∈ items,
    prior.isOpenMarket = true ∧ current.isOpenMarket = true
      ∧ current.closeTimeMs = closeTimeMs ∧ closeTimeMs = prior.closeTimeMs + fiveMinutesMs

/-- Every time in the window at which both markets have a return with the
additions was such a time before. -/
def PairKept (observations observations' : Dict Text (List CloseObservation))
    (lower start : Datetime) (a b : Text) : Prop :=
  ∀ t, inWindow lower start t → HasReturn observations' a t → HasReturn observations' b t →
    HasReturn observations a t ∧ HasReturn observations b t

/-- The additions complete no pair of returns inside the window the engine
computes for two signals of an event window. -/
def NoNewPair (signals : List ShadowSignal)
    (observations observations' : Dict Text (List CloseObservation)) : Prop :=
  ∀ p ∈ windowPairs (windowsOf signals), ∀ lower, lookbackStart p.1 = .ok lower →
    PairKept observations observations' lower p.1 p.2.1.marketId p.2.2.marketId

/-- The order of the two markets does not matter. -/
theorem pairKept_marketPairIds {lower start : Datetime} {a b : Text} :
    PairKept observations observations' lower start (marketPairIds a b).1 (marketPairIds a b).2
      ↔ PairKept observations observations' lower start a b := by
  unfold marketPairIds
  split_ifs
  · exact Iff.rfl
  · exact forall₂_congr fun t hw => ⟨fun h ha hb => (h hb ha).symm, fun h hb ha => (h ha hb).symm⟩

theorem hasReturn_iff {items : List CloseObservation} {returns : List MarketReturn}
    (hget : observations.get? marketId = some items) (h : marketReturns items = .ok returns) {t : ℕ} :
    HasReturn observations marketId t ↔ ∃ r ∈ returns, r.closeTimeMs = t := by
  constructor
  · rintro ⟨items', hget', prior, hp, current, hc, hop, hoc, htime, hstep⟩
    cases hget.symm.trans hget'
    refine ⟨⟨current.closeTimeMs, csub (cdiv current.close prior.close) 1, prior.sourceCandleHash,
      current.sourceCandleHash⟩, (mem_marketReturns h).mpr ⟨prior, hp, current, hc, ?_⟩, htime⟩
    exact if_pos ⟨hop, hoc, htime.trans hstep⟩
  · rintro ⟨r, hr, rfl⟩
    obtain ⟨prior, hp, current, hc, hbtw⟩ := (mem_marketReturns h).mp hr
    obtain ⟨hop, hoc, hstep, htime⟩ := returnBetween_eq_some hbtw
    exact ⟨items, hget, prior, hp, current, hc, hop, hoc, htime.symm, htime.trans hstep⟩

variable {byMarket byMarket' : Dict Text (List MarketReturn)}

/-- Additions keep the returns there were. -/
theorem AddsLater.returns (h : AddsLater signals observations observations')
    (hok : returnsByMarket observations = .ok byMarket)
    (hok' : returnsByMarket observations' = .ok byMarket')
    {returns : List MarketReturn} (hget : byMarket.get? marketId = some returns) :
    ∃ returns', byMarket'.get? marketId = some returns' ∧ returns ⊆ returns' := by
  obtain ⟨items, hits, hids, hrets⟩ := (returnsByMarket_ok hok).mp hget
  obtain ⟨items', hits'⟩ := Option.ne_none_iff_exists'.mp
    (h.keys marketId (by rw [hits]; exact Option.some_ne_none items))
  obtain ⟨hids', hnd'⟩ := returnsByMarket_isOk.mp ⟨byMarket', hok'⟩ marketId items' hits'
  obtain ⟨returns', hrets'⟩ := exists_marketReturns hnd'
  refine ⟨returns', (returnsByMarket_ok hok').mpr ⟨items', hits', hids', hrets'⟩, ?_⟩
  obtain ⟨later, hperm, -⟩ := h.added marketId
  rw [hits, hits'] at hperm
  have hsub : items ⊆ items' := fun item hi => hperm.mem_iff.mpr (List.mem_append_left _ hi)
  intro r hr
  obtain ⟨prior, hp, current, hc, hbtw⟩ := (mem_marketReturns hrets).mp hr
  exact (mem_marketReturns hrets').mpr ⟨prior, hsub hp, current, hsub hc, hbtw⟩

theorem pairwiseCorrelation_ok {returns : Text → Option (List MarketReturn)} {start : Datetime}
    {marketIds : Text × Text} {c : PairwiseCorrelation δ}
    (h : pairwiseCorrelation sha256 returns start marketIds = .ok c) :
    (c.windowEnd = start ∧ c.marketIds = marketIds) ∧ ∃ left right lower,
      returns marketIds.1 = some left ∧ returns marketIds.2 = some right ∧ lookbackStart start = .ok lower
        ∧ c.pairedReturnCount = (pairsIn lower start left right).length := by
  unfold pairwiseCorrelation at h
  split at h
  · next left right hleft hrt =>
    obtain ⟨lower, hlow, h⟩ := of_bind h
    obtain ⟨value, -, h⟩ := of_bind h
    cases h
    exact ⟨⟨rfl, rfl⟩, left, right, lower, hleft, hrt, hlow, rfl⟩
  · cases h

variable {returns returns' : Text → Option (List MarketReturn)}

theorem pairwiseCorrelation_congr
    {start lower : Datetime} {marketIds : Text × Text} {left right left' right' : List MarketReturn}
    (hleft : returns marketIds.1 = some left) (hrt : returns marketIds.2 = some right)
    (hleft' : returns' marketIds.1 = some left') (hrt' : returns' marketIds.2 = some right')
    (hlow : lookbackStart start = .ok lower)
    (hprs : pairsIn lower start left' right' = pairsIn lower start left right) :
    pairwiseCorrelation sha256 returns start marketIds
      = pairwiseCorrelation sha256 returns' start marketIds := by
  have hof : correlationOf sha256 marketIds start left right
      = correlationOf sha256 marketIds start left' right' := by
    unfold correlationOf
    rw [hlow]
    show (do let value ← correlate (pairsIn lower start left right); _) = _
    rw [← hprs]
    rfl
  simp only [pairwiseCorrelation, hleft, hrt, hleft', hrt', hof]

/-- The pairs of two markets before and after the additions. -/
theorem AddsLater.pairsIn (h : AddsLater signals observations observations')
    (hok : returnsByMarket observations = .ok byMarket)
    (hok' : returnsByMarket observations' = .ok byMarket') {a b : Text}
    {left right : List MarketReturn} (hleft : byMarket.get? a = some left)
    (hrt : byMarket.get? b = some right) (lower start : Datetime) :
    ∃ left' right', byMarket'.get? a = some left' ∧ byMarket'.get? b = some right'
      ∧ (PairKept observations observations' lower start a b →
        Correlation.pairsIn lower start left' right' = Correlation.pairsIn lower start left right)
      ∧ ((Correlation.pairsIn lower start left' right').length
          ≤ (Correlation.pairsIn lower start left right).length →
        PairKept observations observations' lower start a b) := by
  obtain ⟨left', hleft', hl⟩ := h.returns hok hok' hleft
  obtain ⟨right', hrt', hr⟩ := h.returns hok hok' hrt
  obtain ⟨items₁, hget₁, -, hof₁⟩ := (returnsByMarket_ok hok).mp hleft
  obtain ⟨items₂, hget₂, -, hof₂⟩ := (returnsByMarket_ok hok).mp hrt
  obtain ⟨items₃, hget₃, -, hof₃⟩ := (returnsByMarket_ok hok').mp hleft'
  obtain ⟨items₄, hget₄, -, hof₄⟩ := (returnsByMarket_ok hok').mp hrt'
  refine ⟨left', right', hleft', hrt', pairsIn_eq_iff (marketReturns_strict hof₃)
    (marketReturns_strict hof₄) (marketReturns_strict hof₁) (marketReturns_strict hof₂) hl hr ?_⟩
  simp only [PairKept, hasReturn_iff hget₁ hof₁, hasReturn_iff hget₂ hof₂, hasReturn_iff hget₃ hof₃,
    hasReturn_iff hget₄ hof₄]

variable {report : CorrelationReport δ}

/-- What a report was built from. -/
theorem build_ok (h : buildCorrelationReport sha256 signals observations = .ok report) :
    ∃ ordered byMarket table, validateSignals signals = .ok ordered
      ∧ returnsByMarket observations = .ok byMarket ∧ (∀ s ∈ ordered, byMarket.get? s.marketId ≠ none)
      ∧ eventWindows ordered = .ok (windowsOf signals)
      ∧ pairTable (fun key => pairwiseCorrelation sha256 byMarket.get? key.1 key.2)
          (windowsOf signals) = .ok table
      ∧ assemble sha256 ordered (windowsOf signals) table = .ok report := by
  obtain ⟨ordered, hord, h⟩ := of_bind h
  obtain ⟨byMarket, hrets, h⟩ := of_bind h
  obtain ⟨hmkts, h⟩ := require_bind_ok.mp h
  obtain ⟨windows, hwins, h⟩ := of_bind h
  obtain ⟨table, htable, h⟩ := of_bind h
  have hof : windowsOf signals = windows := by
    unfold windowsOf
    rw [bind_eq_ok.mpr ⟨ordered, hord, hwins⟩]
    rfl
  rw [hof]
  exact ⟨ordered, byMarket, table, hord, hrets, hmkts, hwins, htable, h⟩

variable {windows : List (Datetime × List ShadowSignal)}

/-- The report shows the table of pairs. -/
theorem pairwise_of_assemble {ordered : List ShadowSignal}
    {table : PairTable δ}
    (h : assemble sha256 ordered windows table = .ok report) :
    report.pairwiseCorrelations = sortBy PairwiseCorrelation.key table.lookup.values := by
  obtain ⟨sensitivity, -, h⟩ := of_bind h
  rw [← Except.ok.inj h]

/-- Entries of two tables behind one report agree. -/
theorem eq_of_same_report {ordered ordered' : List ShadowSignal}
    {table table' : PairTable δ}
    (h : assemble sha256 ordered windows table = .ok report)
    (h' : assemble sha256 ordered' windows table' = .ok report)
    (htab : table.Tabulates fun key => pairwiseCorrelation sha256 returns key.1 key.2)
    (htab' : table'.Tabulates fun key => pairwiseCorrelation sha256 returns' key.1 key.2)
    {key : PairKey} {c c' : PairwiseCorrelation δ} (hc : table.lookup.get? key = some c)
    (hc' : table'.lookup.get? key = some c') : c = c' := by
  have hmem : c ∈ table'.lookup.values := by
    have hsrt : c ∈ sortBy PairwiseCorrelation.key table.lookup.values :=
      mem_sortBy.mpr (Dict.mem_values.mpr ⟨key, hc⟩)
    rw [← pairwise_of_assemble h, pairwise_of_assemble h'] at hsrt
    exact mem_sortBy.mp hsrt
  -- an entry names its key
  obtain ⟨key', hkey'⟩ := Dict.mem_values.mp hmem
  obtain ⟨⟨hend, hids⟩, -⟩ := pairwiseCorrelation_ok (htab key c hc)
  obtain ⟨⟨hend', hids'⟩, -⟩ := pairwiseCorrelation_ok (htab' key' c hkey')
  have : key' = key := Prod.ext (hend'.symm.trans hend) (hids'.symm.trans hids)
  rw [this, hc'] at hkey'
  exact (Option.some.inj hkey').symm

/-- **Additions leave the report alone exactly when they complete no pair.** -/
theorem build_later_iff (h : buildCorrelationReport sha256 signals observations = .ok report)
    (hadd : AddsLater signals observations observations') (hval : Valid observations') :
    buildCorrelationReport sha256 signals observations' = .ok report
      ↔ NoNewPair signals observations observations' := by
  obtain ⟨ordered, byMarket, table, hord, hrets, hmkts, hwins, htable, hasm⟩ := build_ok h
  obtain ⟨byMarket', hrets'⟩ := returnsByMarket_isOk.mpr hval
  obtain ⟨htab, hall⟩ := pairTable_ok htable
  constructor
  · -- one report: the counts of every pair agree
    intro h' p hp lower hlow
    obtain ⟨ordered', byMarket'', table', -, hrets'', -, -, htable', hasm'⟩ := build_ok h'
    cases hrets'.symm.trans hrets''
    obtain ⟨htab', hall'⟩ := pairTable_ok htable'
    obtain ⟨c, hc⟩ := Option.ne_none_iff_exists'.mp (hall p hp)
    obtain ⟨c', hc'⟩ := Option.ne_none_iff_exists'.mp (hall' p hp)
    obtain ⟨-, left, right, lower₁, hleft, hrt, hlow₁, hcnt⟩ := pairwiseCorrelation_ok (htab _ c hc)
    obtain ⟨-, left₂, right₂, lower₂, hleft₂, hrt₂, hlow₂, hcnt'⟩ :=
      pairwiseCorrelation_ok (htab' _ c' hc')
    cases hlow.symm.trans hlow₁
    cases hlow.symm.trans hlow₂
    obtain ⟨left', right', hleft', hrt', -, hfew⟩ := hadd.pairsIn hrets hrets' hleft hrt lower p.1
    cases hleft'.symm.trans hleft₂
    cases hrt'.symm.trans hrt₂
    have hsame := eq_of_same_report hasm hasm' htab htab' hc hc'
    refine pairKept_marketPairIds.mp (hfew ?_)
    exact (hcnt'.symm.trans ((congrArg _ hsame).symm.trans hcnt)).le
  · -- no new pair: the same table
    intro hnone
    have htable' : pairTable (fun key => pairwiseCorrelation sha256 byMarket'.get? key.1 key.2)
        (windowsOf signals) = .ok table := by
      rw [← htable]
      refine (pairTable_congr fun p hp => ?_).symm
      obtain ⟨c, hc⟩ := Option.ne_none_iff_exists'.mp (hall p hp)
      obtain ⟨-, left, right, lower, hleft, hrt, hlow, -⟩ := pairwiseCorrelation_ok (htab _ c hc)
      obtain ⟨left', right', hleft', hrt', hsame, -⟩ := hadd.pairsIn hrets hrets' hleft hrt lower p.1
      exact pairwiseCorrelation_congr hleft hrt hleft' hrt' hlow
        (hsame (pairKept_marketPairIds.mpr (hnone p hp lower hlow)))
    have hmkts' : ∀ s ∈ ordered, byMarket'.get? s.marketId ≠ none := by
      intro s hs
      obtain ⟨returns, hget⟩ := Option.ne_none_iff_exists'.mp (hmkts s hs)
      obtain ⟨returns', hget', -⟩ := hadd.returns hrets hrets' hget
      rw [hget']
      exact nofun
    refine bind_eq_ok.mpr ⟨ordered, hord, bind_eq_ok.mpr ⟨byMarket', hrets', ?_⟩⟩
    exact require_bind_ok.mpr ⟨hmkts', bind_eq_ok.mpr ⟨_, hwins, bind_eq_ok.mpr ⟨table, htable', hasm⟩⟩⟩

/-- A start whose milliseconds are not rounded up lets no later candle in. -/
theorem noNewPair_of_exact (hadd : AddsLater signals observations observations')
    (hexact : ∀ w ∈ windowsOf signals, w.1.timestampMs * 1000 ≤ w.1.epochMicroseconds) :
    NoNewPair signals observations observations' := by
  intro p hp lower _ t hw
  obtain ⟨w, hwin, hpw⟩ := List.mem_flatMap.mp hp
  obtain ⟨q, -, rfl⟩ := List.mem_map.mp hpw
  have hbef : (t : ℤ) * 1000 ≤ w.1.epochMicroseconds := by
    have hupper : (t : ℤ) ≤ w.1.timestampMs := hw.2
    have hrnd := hexact w hwin
    omega
  -- a candle not after the start is not an addition
  have hold : ∀ marketId, HasReturn observations' marketId t → HasReturn observations marketId t := by
    rintro marketId ⟨items', hget', prior, hp, current, hc, hop, hoc, htime, hstep⟩
    obtain ⟨later, hperm, hltr⟩ := hadd.added marketId
    rw [hget'] at hperm
    have hkept : ∀ item ∈ items', item.closeTimeMs ≤ t →
        item ∈ (observations.get? marketId).getD [] := by
      intro item hi hle
      rcases List.mem_append.mp (hperm.mem_iff.mp hi) with hi | hi
      · exact hi
      · have := hltr item hi w hwin
        omega
    have hp' := hkept prior hp (by omega)
    have hc' := hkept current hc htime.le
    rcases e : observations.get? marketId with - | items
    · rw [e] at hp'
      cases hp'
    · rw [e] at hp' hc'
      exact ⟨items, e, prior, hp', current, hc', hop, hoc, htime, hstep⟩
  exact fun ha hb => ⟨hold _ ha, hold _ hb⟩

end Later

/-- **The report is free of order, and of the future up to rounding.**  Reordered
inputs give the same report; later candles leave it alone exactly when they
complete no pair of returns inside a window, and they complete none if no start
is rounded up. -/
theorem report_order_free (sha256 : Text → δ) (signals : List ShadowSignal)
    (observations : Dict Text (List CloseObservation)) :
    (∀ signals' observations', signals.Perm signals' → SameObservations observations observations' →
      ∀ report, buildCorrelationReport sha256 signals observations = .ok report
        ↔ buildCorrelationReport sha256 signals' observations' = .ok report)
      ∧ ∀ observations' report, AddsLater signals observations observations' → Valid observations' →
        buildCorrelationReport sha256 signals observations = .ok report →
        (buildCorrelationReport sha256 signals observations' = .ok report
            ↔ NoNewPair signals observations observations')
          ∧ ((∀ w ∈ windowsOf signals, w.1.timestampMs * 1000 ≤ w.1.epochMicroseconds) →
            NoNewPair signals observations observations') := by
  refine ⟨fun signals' observations' hsignals hobs report => ⟨?_, ?_⟩, ?_⟩
  · exact build_perm hsignals hobs
  · exact build_perm hsignals.symm hobs.symm
  · intro observations' report hadd hvalid h
    exact ⟨build_later_iff h hadd hvalid, noNewPair_of_exact hadd⟩

/-! ### A candle one microsecond after the start

Two signals of the year 3000, confirmed one microsecond before a candle of each
market closes.  Their millisecond comes out as that of the close. -/

/-- The candle of `market` that closes at the end of the five minutes `k`. -/
def candle (market : Char) (k : ℕ) : CloseObservation where
  marketId := [market]
  closeTimeMs := k * 300000 + 299999
  close := 1
  isOpenMarket := true
  sourceCandleHash := List.replicate 64 '0'
  marketId_ne := by simp
  geometry := by
    unfold fiveMinutesMs
    omega
  close_pos := one_pos
  hash_length := rfl

/-- The candles `ks` of the markets `A` and `B`. -/
def candles (ks : List ℕ) : Dict Text (List CloseObservation) :=
  ⟨[(['A'], ks.map (candle 'A')), (['B'], ks.map (candle 'B'))], by simp⟩

theorem get?_candles (ks : List ℕ) (marketId : Text) :
    (candles ks).get? marketId = if ['A'] = marketId then some (ks.map (candle 'A'))
      else if ['B'] = marketId then some (ks.map (candle 'B')) else none := rfl

theorem valid_candles {ks : List ℕ} (h : ks.Nodup) : Valid (candles ks) := by
  have htimes : ∀ market, ((ks.map (candle market)).map CloseObservation.closeTimeMs).Nodup := by
    intro market
    rw [List.map_map]
    refine h.map fun a b hab => ?_
    have : a * 300000 + 299999 = b * 300000 + 299999 := hab
    omega
  intro marketId items hget
  rw [get?_candles] at hget
  split_ifs at hget with hA hB
  · cases hget
    refine ⟨fun item hi => ?_, htimes 'A'⟩
    obtain ⟨k, -, rfl⟩ := List.mem_map.mp hi
    exact hA
  · cases hget
    refine ⟨fun item hi => ?_, htimes 'B'⟩
    obtain ⟨k, -, rfl⟩ := List.mem_map.mp hi
    exact hB

theorem addsLater_candles {signals : List ShadowSignal} {ks later : List ℕ}
    (h : ∀ k ∈ later, ∀ w ∈ windowsOf signals,
      w.1.epochMicroseconds < ((k * 300000 + 299999 : ℕ) : ℤ) * 1000) :
    AddsLater signals (candles ks) (candles (ks ++ later)) := by
  refine ⟨fun marketId => ?_, fun marketId hne => ?_⟩
  · have hadd : ∀ market : Char, ∀ item ∈ later.map (candle market), ∀ w ∈ windowsOf signals,
        w.1.epochMicroseconds < (item.closeTimeMs : ℤ) * 1000 := by
      intro market item hi
      obtain ⟨k, hk, rfl⟩ := List.mem_map.mp hi
      exact h k hk
    rw [get?_candles, get?_candles]
    split_ifs
    · exact ⟨later.map (candle 'A'), by simp, hadd 'A'⟩
    · exact ⟨later.map (candle 'B'), by simp, hadd 'B'⟩
    · exact ⟨[], by simp, by simp⟩
  · rw [get?_candles] at hne ⊢
    split_ifs at hne ⊢ with hA hB
    · simp
    · simp
    · exact absurd rfl hne

/-- A signal of `market`, which is also its id. -/
def signalAt (market : Char) (confirmedAt : Datetime) : ShadowSignal where
  shadowOrderId := [market]
  marketId := [market]
  setupFamily := ['s']
  direction := ['d']
  confirmedAtUtc := confirmedAt
  strategyVersion := ['v']
  parameterVersion := ['p']
  p10WeakDepth10bps := 0
  p95SpreadBps := 0
  exchangeDayNotional := 0
  oiNotional := 0
  identity := by simp
  nonneg := ⟨le_rfl, le_rfl, le_rfl, le_rfl⟩

def signalsAt (confirmedAt : Datetime) : List ShadowSignal :=
  [signalAt 'A' confirmedAt, signalAt 'B' confirmedAt]

/-- The counts of the pairs of a report. -/
def pairCounts (signals : List ShadowSignal) (observations : Dict Text (List CloseObservation)) :
    Option (List ℕ) :=
  (buildCorrelationReport id signals observations).toOption.map fun report =>
    report.pairwiseCorrelations.map PairwiseCorrelation.pairedReturnCount

/-- 3000-01-01 00:04:59.998999. -/
def farStart : Datetime := ⟨3000, 1, 1, 0, 4, 59, 998999, by decide⟩

/-- The candles that close at 00:04:59.999 count into the window that ends one
microsecond before. -/
theorem later_candle_changes_report :
    AddsLater (signalsAt farStart) (candles [108345599]) (candles ([108345599] ++ [108345600]))
      ∧ Valid (candles ([108345599] ++ [108345600]))
      ∧ ∃ report, buildCorrelationReport id (signalsAt farStart) (candles [108345599]) = .ok report
        ∧ buildCorrelationReport id (signalsAt farStart) (candles ([108345599] ++ [108345600]))
          ≠ .ok report := by
  have hbefore : pairCounts (signalsAt farStart) (candles [108345599]) = some [0] := by
    decide +kernel
  have hafter : pairCounts (signalsAt farStart) (candles ([108345599] ++ [108345600])) = some [1] := by
    decide +kernel
  refine ⟨addsLater_candles (by decide +kernel), valid_candles (by decide), ?_⟩
  rcases e : buildCorrelationReport id (signalsAt farStart) (candles [108345599]) with err | report
  · rw [pairCounts, e] at hbefore
    cases hbefore
  · refine ⟨report, rfl, fun h => ?_⟩
    rw [pairCounts, e] at hbefore
    rw [pairCounts, h] at hafter
    cases hbefore.symm.trans hafter

/-- 2026-01-01 00:04:59.998999. -/
def nearStart : Datetime := ⟨2026, 1, 1, 0, 4, 59, 998999, by decide⟩

theorem report_order_free_near :
    AddsLater (signalsAt nearStart) (candles [5890751]) (candles ([5890751] ++ [5890752]))
      ∧ ∃ report, buildCorrelationReport id (signalsAt nearStart) (candles [5890751]) = .ok report
        ∧ buildCorrelationReport id (signalsAt nearStart) (candles ([5890751] ++ [5890752]))
          = .ok report := by
  have hadd : AddsLater (signalsAt nearStart) (candles [5890751]) (candles ([5890751] ++ [5890752])) :=
    addsLater_candles (by decide +kernel)
  have hbefore : pairCounts (signalsAt nearStart) (candles [5890751]) = some [0] := by
    decide +kernel
  refine ⟨hadd, ?_⟩
  rcases e : buildCorrelationReport id (signalsAt nearStart) (candles [5890751]) with err | report
  · rw [pairCounts, e] at hbefore
    cases hbefore
  · obtain ⟨hiff, hexact⟩ := (report_order_free id (signalsAt nearStart) (candles [5890751])).2 _ report
      hadd (valid_candles (by decide)) e
    exact ⟨report, rfl, hiff.mpr (hexact (by decide +kernel))⟩

end Correlation

end TraderAssist
