/-
TraderAssist/Data/Rows.lean

What the admission of a row does, and the rules for the loops over rows.

`admitRow_effect` says once what the admission of a bar changes of the 5m rows, the last open
and the failed markets, whether it returns or raises.  The rules then carry an invariant
through a batch (`admitHistoryBatch_rule`) and through a call (`admitLoop_rule`): what is
left to show for an invariant is that one row keeps it.  A batch that raises leaves the
authority rolled back (`RolledBack`), whatever the rows did.
-/
import TraderAssist.Data.Window

namespace TraderAssist

open Py ClosedBarStore

variable {δ : Type} {store store' : ClosedBarStore δ} {bar : ClosedBar δ} {s s' : DataAuthority δ}

/-! ### Changes of the 5m rows -/

/-- The 5m row of a bar is there, the other 5m rows are as they were. -/
def AddsFive (bar : ClosedBar δ) (store store' : ClosedBarStore δ) : Prop :=
  ∀ m o, store'.bar? m .m5 o
    = (store.bar? m .m5 o).or (if m = bar.marketId ∧ o = bar.openTimeMs then some bar else none)

namespace AddsFive

section

variable (h : AddsFive bar store store')
include h

theorem kept {m : Text} {o : ℕ} {b : ClosedBar δ}
    (hb : store.bar? m .m5 o = some b) : store'.bar? m .m5 o = some b := by
  rw [h, hb]
  rfl

theorem has {m : Text} {o : ℕ} : store'.Has m o ↔ store.Has m o ∨ m = bar.marketId ∧ o = bar.openTimeMs := by
  rw [Has, h, Option.isSome_or, Bool.or_eq_true]
  refine or_congr_right ?_
  split_ifs with hkey
  · exact ⟨fun _ => hkey, fun _ => rfl⟩
  · exact ⟨fun hsome => absurd hsome Bool.false_ne_true, fun hkey' => absurd hkey' hkey⟩

theorem other {m : Text} (hm : m ≠ bar.marketId) (o : ℕ) : store'.bar? m .m5 o = store.bar? m .m5 o := by
  rw [h, if_neg fun hkey => hm hkey.1, Option.or_none]

end

end AddsFive

/-- The authority after the row of a bar: the 5m row is there, rows are only appended, the
last open is noted. -/
structure RowAdded (bar : ClosedBar δ) (s s' : DataAuthority δ) : Prop where
  fives : AddsFive bar s.store s'.store
  rows : s.store.rows <+: s'.store.rows
  lastOpen : s'.lastOpen = (s.advance bar).lastOpen
  failed : s'.failed = s.failed
  registry : s'.registry = s.registry
  candidates : s'.candidates = s.candidates

/-- The authority where the row of a bar was not written. -/
structure RowRefused (bar : ClosedBar δ) (s s' : DataAuthority δ) : Prop where
  store : s'.store = s.store
  lastOpen : s'.lastOpen = s.lastOpen
  failed : s'.failed = s.failed ∨ s'.failed = insert bar.marketId s.failed
  registry : s'.registry = s.registry
  candidates : s'.candidates = s.candidates

/-- The authority after a change of its table only. -/
def WithStore (s s' : DataAuthority δ) : Prop := s' = { s with store := s'.store }

namespace DataAuthority

variable [DecidableEq δ] {R : RegistryRoot δ} {sha256 : EvidencePreimage δ → δ}
  {binding : RegistryVersion} {finality : δ} {cache : Option (WindowCache δ)} {cut : Option ℕ}

/-! ### Writes -/

variable {E : DataRouteError → DataAuthority δ → Prop}

/-- What `put` can do: find a duplicate, refuse a conflict, append the row. -/
theorem put_rule {Q : Bool → DataAuthority δ → Prop}
    (hdup : ∀ prior, s.store.row? bar.key = some prior →
      (prior.bar.canonicalHash sha256 = bar.canonicalHash sha256
        ∨ prior.bar.SameCandleContents bar) → Q false s)
    (hconf : ∀ prior, s.store.row? bar.key = some prior →
      ¬(prior.bar.canonicalHash sha256 = bar.canonicalHash sha256
        ∨ prior.bar.SameCandleContents bar) → E .conflictingBar s)
    (hnew : s.store.row? bar.key = none → ∀ store',
      store'.rows = s.store.rows ++ [evidenceRow R bar binding finality] →
        Q true { s with store := store' }) :
    Ends (put R sha256 bar binding finality) s Q E := by
  rw [put, ends_bind, ends_get]
  rcases hpri : s.store.row? (evidenceRow R bar binding finality).bar.key with - | prior
  · obtain ⟨store', hrows, hins⟩ := insert_of_none sha256 hpri
    rw [hins]
    exact hnew hpri store' hrows
  · rw [insert_of_some sha256 hpri]
    split_ifs with hsame
    · exact hdup prior hpri hsame
    · exact hconf prior hpri hsame

omit [DecidableEq δ] in
theorem bar?_added {finality : δ} (hbar : bar.interval = .m5) (hnew : store.row? bar.key = none)
    (hrows : store'.rows = store.rows ++ [evidenceRow R bar binding finality]) :
    store'.bar? bar.marketId .m5 bar.openTimeMs = some bar := by
  rw [bar?_of_rows hrows hnew, if_pos (by rw [evidenceRow, ClosedBar.key, hbar])]
  rfl

omit [DecidableEq δ] in
/-- A row of a bar that has none. -/
theorem addsFive_of_rows {finality : δ} (hbar : bar.interval = .m5) (hnew : store.row? bar.key = none)
    (hrows : store'.rows = store.rows ++ [evidenceRow R bar binding finality]) :
    AddsFive bar store store' := by
  intro m o
  rw [bar?_of_rows hrows hnew]
  by_cases hkey : m = bar.marketId ∧ o = bar.openTimeMs
  · obtain ⟨rfl, rfl⟩ := hkey
    have hnone : store.bar? bar.marketId .m5 bar.openTimeMs = none := by
      rw [bar?, ← hbar]
      exact congrArg (Option.map EvidenceRow.bar) hnew
    rw [if_pos (by rw [evidenceRow, ClosedBar.key, hbar]), hnone, if_pos ⟨rfl, rfl⟩]
    rfl
  · rw [if_neg hkey, Option.or_none, if_neg]
    intro heq
    rw [evidenceRow, ClosedBar.key, Prod.mk.injEq, Prod.mk.injEq] at heq
    exact hkey ⟨heq.1.symm, heq.2.2.symm⟩

omit [DecidableEq δ] in
/-- A row that has a duplicate is there. -/
theorem addsFive_self {prior : EvidenceRow δ} (hbar : bar.interval = .m5)
    (hpri : store.row? bar.key = some prior) : AddsFive bar store store := by
  intro m o
  by_cases hkey : m = bar.marketId ∧ o = bar.openTimeMs
  · obtain ⟨rfl, rfl⟩ := hkey
    have hsome : store.bar? bar.marketId .m5 bar.openTimeMs = some prior.bar := by
      rw [bar?, ← hbar]
      exact congrArg (Option.map EvidenceRow.bar) hpri
    rw [hsome]
    rfl
  · rw [if_neg hkey, Option.or_none]

/-! ### Aggregates -/

omit [DecidableEq δ] in
/-- What `aggregate_closed_5m` made. -/
theorem aggregateClosed5m_ok {window : List (ClosedBar δ)} {interval : Interval} {a : ClosedBar δ}
    (h : aggregateClosed5m sha256 window interval = .ok a) :
    interval ≠ .m5 ∧ ∃ first rest, window = first :: rest ∧ window.length = interval.sources
      ∧ StepByStep window ∧ first.openTimeMs % interval.ms = 0
      ∧ a.key = (first.marketId, interval, first.openTimeMs) ∧ a.values = mergedValues first rest
      ∧ a.provenanceHash = sha256 (.sources (window.map (ClosedBar.canonicalHash sha256)) interval)
      ∧ a.receivedAt = (rest.getLast?.getD first).receivedAt := by
  obtain ⟨_, hiv, h⟩ := of_bind h
  cases window with
  | nil => cases h
  | cons first rest =>
    obtain ⟨_, hinput, h⟩ := of_bind h
    obtain ⟨_, -, h⟩ := of_bind h
    obtain ⟨_, hch, h⟩ := of_bind h
    obtain ⟨_, hal, h⟩ := of_bind h
    split at h
    · cases h
    · rename_i made hmade
      cases h
      rw [ClosedBar.create?] at hmade
      split_ifs at hmade
      cases hmade
      exact ⟨require_eq_ok.mp hiv, first, rest, rfl, (require_eq_ok.mp hinput).1,
        require_eq_ok.mp hch, require_eq_ok.mp hal, rfl, rfl, rfl, rfl⟩

omit [DecidableEq δ] in
theorem interval_of_key {a : ClosedBar δ} {k : Text × Interval × ℕ} (h : a.key = k) :
    a.interval = k.2.1 := congrArg (fun k => k.2.1) h

/-- A turn of the aggregate loop changes no 5m row. -/
theorem persistAggregate_fives (interval : Interval) :
    Ends (persistAggregate R sha256 bar binding cache cut interval) s
      (fun _ s' => WithStore s s' ∧ s.store.rows <+: s'.store.rows
        ∧ ∀ m o, s'.store.bar? m .m5 o = s.store.bar? m .m5 o)
      fun _ s' => WithStore s s' ∧ s.store.rows <+: s'.store.rows
        ∧ ∀ m o, s'.store.bar? m .m5 o = s.store.bar? m .m5 o := by
  have hsame : WithStore s s ∧ s.store.rows <+: s.store.rows
      ∧ ∀ m o, s.store.bar? m .m5 o = s.store.bar? m .m5 o :=
    ⟨rfl, List.prefix_refl _, fun _ _ => rfl⟩
  rw [persistAggregate, ends_bind, ends_check]
  refine ⟨fun _ => ?_, fun _ => hsame⟩
  split_ifs
  · exact hsame
  · rw [ends_bind, ends_get]
    dsimp only
    split_ifs
    · rw [ends_bind, ends_attempt]
      rcases hagg : aggregateClosed5m sha256 (aggregateWindow s.store cache bar interval.sources)
        interval with err | a
      · exact hsame
      · obtain ⟨hiv, first, rest, -, -, -, -, hkey, -⟩ := aggregateClosed5m_ok hagg
        rw [Sat.ok, ends_bind]
        refine put_rule (fun _ _ _ => hsame) (fun _ _ _ => hsame) fun hnew store' hrows => ?_
        refine ⟨rfl, ⟨_, hrows.symm⟩, fun m o => ?_⟩
        rw [bar?_of_rows hrows hnew, if_neg]
        intro heq
        exact hiv ((interval_of_key hkey).symm.trans (interval_of_key heq))
    · exact hsame

theorem persistAggregates_fives : Ends (persistAggregates R sha256 bar binding cache cut) s
      (fun _ s' => WithStore s s' ∧ s.store.rows <+: s'.store.rows
        ∧ ∀ m o, s'.store.bar? m .m5 o = s.store.bar? m .m5 o)
      fun _ s' => WithStore s s' ∧ s.store.rows <+: s'.store.rows
        ∧ ∀ m o, s'.store.bar? m .m5 o = s.store.bar? m .m5 o := by
  rw [persistAggregates, ends_bind]
  refine (persistAggregate_fives .m15).mono (fun _ s₁ ⟨hsto, hrows, hfives⟩ => ?_) fun _ _ h => h
  have hnext : ∀ s₂ : DataAuthority δ, WithStore s₁ s₂ ∧ s₁.store.rows <+: s₂.store.rows
      ∧ (∀ m o, s₂.store.bar? m .m5 o = s₁.store.bar? m .m5 o) →
      WithStore s s₂ ∧ s.store.rows <+: s₂.store.rows
        ∧ ∀ m o, s₂.store.bar? m .m5 o = s.store.bar? m .m5 o := by
    rintro s₂ ⟨hsto', hrows', hfives'⟩
    refine ⟨?_, hrows.trans hrows', fun m o => (hfives' m o).trans (hfives m o)⟩
    rw [WithStore] at hsto hsto' ⊢
    rw [hsto', hsto]
  exact (persistAggregate_fives .h1).mono (fun _ s₂ h => hnext s₂ h) fun _ s₂ h => hnext s₂ h

/-! ### Rows -/

/-- **What the admission of a row does** to the 5m rows, the last open and the failed
markets. -/
theorem admitRow_effect (hbar : bar.interval = .m5) :
    Ends (admitRow R sha256 bar binding finality cache cut) s
      (fun r s' => RowAdded bar s s' ∧ r.2 = cache.map fun cache => trackWindowTail cache bar)
      fun _ s' => RowAdded bar s s' ∨ RowRefused bar s s' := by
  have href : RowRefused bar s s := ⟨rfl, rfl, .inl rfl, rfl, rfl⟩
  rw [admitRow, ends_bind, ends_check]
  refine ⟨fun _ => ?_, fun _ => .inr href⟩
  rw [ends_bind, ends_onRaise]
  refine put_rule (fun prior hpri _ => ?_) (fun prior _ _ => ?_) fun hnew store' hrows => ?_
  · -- a duplicate
    exact ⟨⟨addsFive_self hbar hpri, List.prefix_refl _, rfl, rfl, rfl, rfl⟩, rfl⟩
  · exact .inr ⟨rfl, rfl, .inr rfl, rfl, rfl⟩
  · rw [ends_bind, ends_modify, if_pos rfl, ends_bind]
    have hadd : ∀ s' : DataAuthority δ,
        WithStore ({ s with store := store' }.advance bar) s' ∧ store'.rows <+: s'.store.rows
          ∧ (∀ m o, s'.store.bar? m .m5 o = store'.bar? m .m5 o) → RowAdded bar s s' := by
      rintro s' ⟨hsto, hmore, hfives⟩
      refine ⟨fun m o => ?_, ?_, ?_, ?_, ?_, ?_⟩
      · rw [hfives, addsFive_of_rows hbar hnew hrows]
      · exact List.IsPrefix.trans ⟨_, hrows.symm⟩ hmore
      · rw [hsto]
        rfl
      · rw [hsto]
        rfl
      · rw [hsto]
        rfl
      · rw [hsto]
        rfl
    exact persistAggregates_fives.mono (fun _ s' h => ⟨hadd s' h, rfl⟩) fun _ s' h => .inl (hadd s' h)

/-- The bar is not more than one bar after the last one of its market. -/
abbrev NoGap (s : DataAuthority δ) (bar : ClosedBar δ) : Prop :=
  ∀ prior ∈ s.lastOpen.get? bar.marketId, bar.openTimeMs ≤ prior + fiveMinutesMs

omit [DecidableEq δ] in
/-- The gap test. -/
theorem checkGap_rule {Q : Unit → DataAuthority δ → Prop}
    (hok : s.NoGap bar → Q () s) (hgap : E .gap (s.fail bar.marketId)) : Ends (checkGap bar) s Q E := by
  rw [checkGap, ends_onRaise, ends_bind, ends_get, ends_check]
  exact ⟨hok, fun _ => hgap⟩

/-- Activation changes the Registry only. -/
theorem activate_effect (bar : ClosedBar δ) : Ends (activate R bar) s
    (fun _ s' => s' = { s with registry := s'.registry }) fun _ s' => s' =
    { s with registry := s'.registry } := by
  rw [activate, ends_bind, ends_get, ends_bind, ends_attempt]
  rcases (R.applyAdmitted s.registry bar.receivedAt).mapError DataRouteError.registry with err | steps
  · exact rfl
  · rw [Sat.ok]
    dsimp only
    split
    · exact rfl
    · exact rfl

variable {market : RegistryMarket} {E : DataAuthority δ → Prop}

/-- The rule for `_admit`: the gap test, the row, and a change of the Registry. -/
theorem admitBar_rule {a : Arrival δ} {Q : Option (WindowCache δ) → DataAuthority δ → Prop}
    (hstay : E s) (hfail : E (s.fail a.bar.marketId))
    (hrow : s.NoGap a.bar → ∀ binding, Ends (admitRow R sha256 a.bar binding finality cache a.cut) s
      (fun r s' => ∀ d, Q r.2 { s' with registry := d } ∧ E { s' with registry := d }) fun _ s' => E s') :
    Ends (admitBar R sha256 market a finality cache) s (fun r s' => Q r.2 s') fun _ s' => E s' := by
  rw [admitBar, ends_bind]
  refine checkGap_rule (fun hgap => ?_) hfail
  rw [ends_bind, ends_get, ends_bind, ends_attempt]
  rcases bindingRegistry R s.registry market with err | binding
  · exact hstay
  rw [Sat.ok, ends_bind]
  refine (hrow hgap binding).mono (fun r s' h => ?_) fun _ _ h => h
  rcases r with ⟨inserted, next⟩
  cases inserted with
  | false => exact (h s'.registry).1
  | true =>
    show Ends (activate R a.bar >>= fun _ => pure (some a.bar, next)) s' _ _
    rw [ends_bind]
    refine (activate_effect a.bar).mono (fun _ s₁ h₁ => ?_) fun _ s₁ h₁ => ?_
    · rw [h₁]
      exact (h _).1
    · rw [h₁]
      exact (h _).2

/-! ### Batches -/

/-- The authority as a batch that raised leaves it: the table as before the batch, the
market failed, its last open read from the table. -/
structure RolledBack (marketId : Text) (s s' : DataAuthority δ) : Prop where
  store : s'.store = s.store
  failed : s'.failed = insert marketId s.failed
  lastOpen : s'.lastOpen.get? marketId = s.store.lastOpen marketId
  others : ∀ m, m ≠ marketId → s'.lastOpen.get? m = s.lastOpen.get? m
  registry : s'.registry = s.registry
  candidates : s'.candidates = s.candidates

/-- What stays of an authority while rows of one market are admitted. -/
structure RowFrame (marketId : Text) (s s' : DataAuthority δ) : Prop where
  failed : s'.failed = s.failed ∨ s'.failed = insert marketId s.failed
  others : ∀ m, m ≠ marketId → s'.lastOpen.get? m = s.lastOpen.get? m
  registry : s'.registry = s.registry
  candidates : s'.candidates = s.candidates

namespace RowFrame

variable {marketId : Text} {s₁ : DataAuthority δ}

omit [DecidableEq δ] in
theorem refl (s : DataAuthority δ) : RowFrame marketId s s := ⟨.inl rfl, fun _ _ => rfl, rfl, rfl⟩

omit [DecidableEq δ] in
theorem trans (h : RowFrame marketId s s₁) (h' : RowFrame marketId s₁ s') : RowFrame marketId s s' := by
  refine ⟨?_, fun m hm => (h'.others m hm).trans (h.others m hm), h'.registry.trans h.registry,
    h'.candidates.trans h.candidates⟩
  rcases h.failed with hf | hf
  · rw [← hf]
    exact h'.failed
  · right
    rcases h'.failed with hf' | hf'
    · rw [hf', hf]
    · rw [hf', hf, Finset.insert_idem]

omit [DecidableEq δ] in
theorem added (h : RowAdded bar s s') : RowFrame bar.marketId s s' := by
  refine ⟨.inl h.failed, fun m hm => ?_, h.registry, h.candidates⟩
  rw [h.lastOpen, advance]
  exact Dict.get?_set_ne hm.symm

omit [DecidableEq δ] in
theorem refused (h : RowRefused bar s s') : RowFrame bar.marketId s s' :=
  ⟨h.failed, fun m _ => by rw [h.lastOpen], h.registry, h.candidates⟩

end RowFrame

theorem admitTransactional_frame {a : Arrival δ} {cache : WindowCache δ} (ha : a.bar.interval = .m5) :
    Ends (admitTransactional R sha256 a binding cache) s
      (fun _ s' => RowFrame a.bar.marketId s s') fun _ s' => RowFrame a.bar.marketId s s' := by
  rw [admitTransactional, ends_bind]
  refine checkGap_rule (fun _ => ?_) ⟨.inr rfl, fun _ _ => rfl, rfl, rfl⟩
  refine (admitRow_effect ha).mono (fun _ s' h => .added h.1) fun _ s' h => ?_
  rcases h with h | h
  · exact .added h
  · exact .refused h

theorem admitRows_frame {marketId : Text} {arrivals : List (Arrival δ)}
    (harr : ∀ a ∈ arrivals, a.bar.marketId = marketId ∧ a.bar.interval = .m5) :
    ∀ (cache : WindowCache δ) (s : DataAuthority δ), Ends (admitRows R sha256 binding arrivals cache) s
      (fun _ s' => RowFrame marketId s s') fun _ s' => RowFrame marketId s s' := by
  induction arrivals with
  | nil => exact fun cache s => .refl s
  | cons a rest ih =>
    intro cache s
    obtain ⟨hmkt, hiv⟩ := harr a (.head _)
    have ih := ih fun b hb => harr b (.tail _ hb)
    have hrow := @admitTransactional_frame _ s _ R sha256 binding a cache hiv
    rw [hmkt] at hrow
    rw [admitRows, ends_bind]
    refine hrow.mono (fun r s₁ h₁ => ?_) fun _ _ h => h
    rcases r with ⟨inserted, next⟩
    rw [ends_bind]
    exact (ih _ s₁).mono (fun _ s₂ h₂ => h₁.trans h₂) fun _ s₂ h₂ => h₁.trans h₂

variable {I : List (Arrival δ) → WindowCache δ → DataAuthority δ → Prop}

/-- The rule for the rows of a batch: an invariant that depends on the rows to come and the
window cache. -/
theorem admitRows_rule (hrow : ∀ a l cache s, I (a :: l) cache s → s.NoGap a.bar →
      Ends (admitRow R sha256 a.bar binding a.bar.provenanceHash (some cache) a.cut) s
        (fun r s' => I l (r.2.getD cache) s') fun _ _ => True)
    (arrivals : List (Arrival δ)) : ∀ rest cache s, I (arrivals ++ rest) cache s →
      Ends (admitRows R sha256 binding arrivals cache) s (fun r s' => I rest r.2 s') fun _ _ => True := by
  induction arrivals with
  | nil => exact fun rest cache s h => h
  | cons a arrivals ih =>
    intro rest cache s h
    rw [admitRows, ends_bind, admitTransactional, ends_bind]
    refine checkGap_rule (fun hgap => ?_) trivial
    refine (hrow a _ cache s h hgap).mono (fun r s₁ h₁ => ?_) fun _ _ h => h
    rcases r with ⟨inserted, next⟩
    rw [ends_bind]
    exact (ih rest _ s₁ h₁).mono (fun _ s₂ h₂ => h₂) fun _ _ h => h

/-- Without a pending Registry the binding is the active one. -/
theorem active_of_binding {registry : RegistryDisk δ} (hpend : R.pendingVersion registry = .ok none)
    (h : bindingRegistry R registry market = .ok binding) : R.active registry = .ok (some binding) := by
  obtain ⟨found, hfnd, h⟩ := of_bind h
  rcases hact : R.active registry with err | active
  · rw [hact] at hfnd
    cases hfnd
  · rw [hact] at hfnd
    obtain rfl := Except.ok.inj hfnd
    rcases hflt : active.filter fun version => version.markets.any fun m =>
        decide (m.marketId = market.marketId) with - | v
    · rw [hflt, hpend] at h
      cases h
    · rw [hflt] at h
      cases h
      rw [(Option.filter_eq_some_iff.mp hflt).1]

omit [DecidableEq δ] in
/-- A batch that raised is rolled back. -/
theorem rolledBack_of_frame {marketId : Text} (h : RowFrame marketId s s') :
    RolledBack marketId s (({ s' with store := s.store }.fail marketId).restoreDurableLastOpen marketId) := by
  have hfail : insert marketId s'.failed = insert marketId s.failed := by
    rcases h.failed with hf | hf
    · rw [hf]
    · rw [hf, Finset.insert_idem]
  rw [restoreDurableLastOpen, fail]
  rcases hlast : s.store.lastOpen marketId with - | last
  · refine ⟨rfl, hfail, ?_, fun m hm => ?_, h.registry, h.candidates⟩
    · show (s'.lastOpen.erase marketId).get? marketId = _
      rw [Dict.get?_erase, if_pos rfl, hlast]
    · show (s'.lastOpen.erase marketId).get? m = _
      rw [Dict.get?_erase, if_neg hm]
      exact h.others m hm
  · refine ⟨rfl, hfail, ?_, fun m hm => ?_, h.registry, h.candidates⟩
    · show (s'.lastOpen.set marketId last).get? marketId = _
      rw [Dict.get?_set, if_pos rfl, hlast]
    · show (s'.lastOpen.set marketId last).get? m = _
      rw [Dict.get?_set_ne hm.symm]
      exact h.others m hm

/-- **The rule for a batch**: what its rows keep holds after it, or it is rolled back. -/
theorem admitHistoryBatch_rule {arrivals rest : List (Arrival δ)} {cache : WindowCache δ}
    (hrow : ∀ binding a l cache s, I (a :: l) cache s → s.NoGap a.bar →
      Ends (admitRow R sha256 a.bar binding a.bar.provenanceHash (some cache) a.cut) s
        (fun r s' => I l (r.2.getD cache) s') fun _ _ => True)
    (harr : ∀ a ∈ arrivals, a.bar.marketId = market.marketId ∧ a.bar.interval = .m5)
    (hpend : R.pendingVersion s.registry = .ok none) (h : I (arrivals ++ rest) cache s) :
    Ends (admitHistoryBatch R sha256 market arrivals cache) s
      (fun r s' => I rest r.2 s' ∧ RowFrame market.marketId s s')
      fun _ s' => RolledBack market.marketId s s' := by
  rw [admitHistoryBatch, ends_bind, ends_onRaise, ends_bind, ends_get, ends_bind, ends_attempt]
  rcases hbind : bindingRegistry R s.registry market with err | binding
  · exact rolledBack_of_frame (.refl s)
  rw [Sat.ok, transaction, ends_bind, ends_get, ends_onRaise]
  have hrows := (admitRows_rule (hrow binding) arrivals rest cache s h).and
    (admitRows_frame (R := R) harr cache s)
  refine hrows.mono (fun r s₁ h₁ => ?_) fun _ s₁ h₁ => rolledBack_of_frame h₁.2
  rcases r with ⟨inserted, next⟩
  rw [ends_bind, ends_get, h₁.2.registry, active_of_binding hpend hbind]
  exact h₁

/-! ### Calls -/

/-- **The rule for the loop of a call**: an invariant of the rows to come, kept by a single
admission while a pending Registry exists and by a batch otherwise. -/
theorem admitLoop_rule (hunread : ∀ l cache s, I l cache s → R.pendingVersion s.registry ≠ .ok none → E s)
    (hsgl : ∀ a l cache s, I (a :: l) cache s → R.pendingVersion s.registry ≠ .ok none →
      Ends (admitBar R sha256 market a a.bar.provenanceHash (some cache)) s
        (fun r s' => I l (r.2.getD cache) s') fun _ s' => E s')
    (hbatch : ∀ l rest cache s, I (l ++ rest) cache s → R.pendingVersion s.registry = .ok none →
      Ends (admitHistoryBatch R sha256 market l cache) s (fun r s' => I rest r.2 s') fun _ s' => E s')
    (arrivals : List (Arrival δ)) : ∀ cache s, I arrivals cache s →
      Ends (admitLoop R sha256 market arrivals cache) s (fun _ s' => ∃ cache', I [] cache' s')
        fun _ s' => E s' := by
  induction hn : arrivals.length using Nat.strong_induction_on generalizing arrivals with
  | _ n ih =>
    intro cache s h
    cases arrivals with
    | nil =>
      rw [admitLoop]
      exact ⟨cache, h⟩
    | cons a rest =>
      rw [admitLoop, ends_bind, ends_get]
      rcases hpend : R.pendingVersion s.registry with err | - | version
      · exact hunread _ _ s h (by rw [hpend]; simp)
      · show Ends (admitHistoryBatch R sha256 market ((a :: rest).take historyBatchBars) cache
          >>= fun r => admitLoop R sha256 market ((a :: rest).drop historyBatchBars) r.2
          >>= fun bars => pure (r.1 ++ bars)) s _ _
        rw [ends_bind]
        have hspl : I ((a :: rest).take historyBatchBars ++ (a :: rest).drop historyBatchBars) cache s := by
          rw [List.take_append_drop]
          exact h
        refine (hbatch _ _ cache s hspl hpend).mono (fun r s₁ h₁ => ?_) fun _ _ h => h
        rw [ends_bind]
        have hlen : ((a :: rest).drop historyBatchBars).length < n := by
          rw [← hn, List.length_drop, historyBatchBars, List.length_cons]
          omega
        exact (ih _ hlen _ rfl r.2 s₁ h₁).mono (fun _ _ h => h) fun _ _ h => h
      · show Ends (admitBar R sha256 market a a.bar.provenanceHash (some cache)
          >>= fun r => admitLoop R sha256 market rest (r.2.getD cache)
          >>= fun bars => pure (r.1.toList ++ bars)) s _ _
        rw [ends_bind]
        refine (hsgl a rest cache s h (by rw [hpend]; simp)).mono
          (fun r s₁ h₁ => ?_) fun _ _ h => h
        rw [ends_bind]
        have hlen : rest.length < n := by
          rw [← hn]
          exact Nat.lt_succ_self _
        exact (ih _ hlen _ rfl _ s₁ h₁).mono (fun _ _ h => h) fun _ _ h => h

/-- An invariant of the rows to come that one row keeps, with what holds where a call raises.  `single`
says that the call may admit rows one by one; only then do the Registry's files change under it, and only
then is what a row left when it raised the state that stays. -/
structure KeptByRows (R : RegistryRoot δ) (sha256 : EvidencePreimage δ → δ) (market : RegistryMarket)
    (single : Prop) (I : List (Arrival δ) → WindowCache δ → DataAuthority δ → Prop)
    (E : DataAuthority δ → Prop) : Prop where
  mode : ∀ {l cache s}, I l cache s → R.pendingVersion s.registry ≠ .ok none → single
  arrivals : ∀ {l cache s}, I l cache s → ∀ a ∈ l, a.bar.marketId = market.marketId ∧ a.bar.interval = .m5
  stay : ∀ {l cache s}, single → I l cache s → E s
  fail : ∀ {l cache s}, single → I l cache s → E (s.fail market.marketId)
  back : ∀ {l cache s s'}, I l cache s → RolledBack market.marketId s s' → E s'
  registry : ∀ {l cache s}, single → ∀ d, I l cache s → I l cache { s with registry := d }
  row : ∀ {binding a l cache s}, I (a :: l) cache s → s.NoGap a.bar →
    Ends (admitRow R sha256 a.bar binding a.bar.provenanceHash (some cache) a.cut) s
      (fun r s' => I l (r.2.getD cache) s') fun _ s' => single → E s'

/-- **What one row keeps, a call keeps.** -/
theorem KeptByRows.admitLoop {single : Prop} (hI : KeptByRows R sha256 market single I E)
    {arrivals : List (Arrival δ)} {cache : WindowCache δ} (h : I arrivals cache s) :
    Ends (admitLoop R sha256 market arrivals cache) s (fun _ s' => ∃ cache', I [] cache' s')
      fun _ s' => E s' := by
  refine admitLoop_rule (I := I) (fun _ _ _ h hpend => hI.stay (hI.mode h hpend) h) ?_ ?_ arrivals cache s h
  · intro a l cache s h hpend
    have hsgl := hI.mode h hpend
    have ha := hI.arrivals h a (.head _)
    refine admitBar_rule (Q := fun next s' => I l (next.getD cache) s') (hI.stay hsgl h)
      (ha.1 ▸ hI.fail hsgl h) fun hgap binding => ?_
    refine (hI.row h hgap).mono (fun r s' h' d => ?_) fun _ _ h' => h' hsgl
    have hd := hI.registry hsgl d h'
    exact ⟨hd, hI.stay hsgl hd⟩
  · intro l rest cache s h hpend
    refine (admitHistoryBatch_rule (I := I) (fun binding a l cache s h hgap => ?_)
      (fun a ha => hI.arrivals h a (List.mem_append_left _ ha)) hpend h).mono
      (fun _ _ h' => h'.1) fun _ s' h' => hI.back h h'
    exact (hI.row h hgap).mono (fun _ _ h' => h') fun _ _ _ => trivial

/-! ### Accepted histories -/

variable {receivedAt : Option Datetime}

omit [DecidableEq δ] in
/-- What a provider bar has of its candle. -/
theorem providerBar_ok {payload : Payload} {sourceId : Text}
    (h : providerBar sha256 market payload receivedAt sourceId = .ok bar) :
    bar.marketId = market.marketId ∧ bar.interval = .m5
      ∧ (bar.openTimeMs : ℤ) = payload.sortKey ∧ receivedAt = some bar.receivedAt
      ∧ bar.provenanceHash = sha256 (.payload payload) ∧ bar.sourceId = sourceId := by
  rcases receivedAt with - | receivedAt
  · cases h
  cases payload with
  | candle c =>
    rw [providerBar] at h
    split_ifs at h with hgeo
    split at h
    · cases h
    · rename_i made hmade
      cases h
      obtain ⟨values, -, hcr⟩ := Option.bind_eq_some_iff.mp hmade
      rw [ClosedBar.create?] at hcr
      split_ifs at hcr
      cases hcr
      have hopen : 0 ≤ c.openMs := by
        by_contra hneg
        exact hgeo (.inr (.inr (.inl (not_le.mp hneg))))
      exact ⟨rfl, rfl, Int.toNat_of_nonneg hopen, rfl, rfl, rfl⟩
  | incomplete time raw => cases h
  | irregular time raw => cases h
  | other raw => cases h

variable {accepted : List (ClosedBar δ)} {snapshot : List Payload}

omit [DecidableEq δ] in
/-- The bars of an accepted history: provider bars of closed candles, in order. -/
theorem acceptedHistory_ok
    (h : acceptedHistory sha256 market snapshot receivedAt = .ok accepted) :
    (∀ b ∈ accepted, b.marketId = market.marketId ∧ b.interval = .m5)
      ∧ accepted.Pairwise fun a b => a.openTimeMs ≤ b.openTimeMs := by
  obtain ⟨bars, hbars, h⟩ := of_bind h
  cases h
  have hmade := forall₂_of_mapM hbars
  refine ⟨fun b hb => ?_, List.Pairwise.filter _ ?_⟩
  · obtain ⟨payload, -, hb⟩ := forall₂_mem_right hmade (List.mem_of_mem_filter hb)
    obtain ⟨hmkt, hiv, -⟩ := providerBar_ok hb
    exact ⟨hmkt, hiv⟩
  · -- the bars are in the order of the sorted candles
    have hsrt := sortBy_sorted Payload.sortKey snapshot
    have hops : bars.map (fun b => (b.openTimeMs : ℤ)) = (sortBy Payload.sortKey snapshot).map
        Payload.sortKey := by
      refine List.ext_getElem (by rw [List.length_map, List.length_map, hmade.length_eq]) fun i hi hi' => ?_
      rw [List.length_map] at hi hi'
      rw [List.getElem_map, List.getElem_map]
      exact (providerBar_ok (hmade.get hi' hi)).2.2.1
    rw [← List.pairwise_map (R := (· ≤ ·)), ← hops, List.pairwise_map] at hsrt
    exact hsrt.imp fun h => Int.ofNat_le.mp h

omit [DecidableEq δ] in
/-- The arrivals of a call. -/
theorem mem_arrivals {cuts : ℕ → Option ℕ} {a : Arrival δ}
    (h : a ∈ accepted.mapIdx fun i bar => (⟨bar, cuts i⟩ : Arrival δ)) :
    a.bar ∈ accepted ∧ ∃ i, a.cut = cuts i := by
  obtain ⟨i, hi, rfl⟩ := List.mem_mapIdx.mp h
  exact ⟨List.getElem_mem hi, i, rfl⟩

omit [DecidableEq δ] in
theorem map_arrivals (accepted : List (ClosedBar δ)) (cuts : ℕ → Option ℕ) :
    (accepted.mapIdx fun i bar => (⟨bar, cuts i⟩ : Arrival δ)).map Arrival.bar = accepted := by
  refine List.ext_getElem (by simp) fun i hi hi' => ?_
  simp

omit [DecidableEq δ] in
/-- They are 5m rows of the market, in order. -/
theorem arrivals_ok (cuts : ℕ → Option ℕ)
    (h : acceptedHistory sha256 market snapshot receivedAt = .ok accepted) :
    (∀ a ∈ accepted.mapIdx fun i bar => (⟨bar, cuts i⟩ : Arrival δ),
        a.bar.marketId = market.marketId ∧ a.bar.interval = .m5)
      ∧ (accepted.mapIdx fun i bar => (⟨bar, cuts i⟩ : Arrival δ)).Pairwise
        fun a b => a.bar.openTimeMs ≤ b.bar.openTimeMs := by
  obtain ⟨hbars, hsrt⟩ := acceptedHistory_ok h
  rw [← map_arrivals accepted cuts, List.pairwise_map] at hsrt
  exact ⟨fun a ha => hbars _ (mem_arrivals ha).1, hsrt⟩

omit [DecidableEq δ] in
/-- What holds however a call ends. -/
theorem after_of_ends {α : Type} {call : DataCall δ α}
    (h : Ends call s (fun _ s' => E s') fun _ s' => E s') : E (after call s) := by
  rw [after]
  rcases hcall : call s with ⟨out, s'⟩ | ⟨err, s'⟩
  · exact h.of_ok hcall
  · exact h.of_error hcall

/-- **The rule for `admit_rest_history`**: an invariant of the rows of an accepted history, then the
contiguity test. -/
theorem admitRestHistory_rule {cuts : ℕ → Option ℕ} (hstay : E s)
    (hrows : ∀ accepted, acceptedHistory sha256 market snapshot receivedAt = .ok accepted →
      ∃ single I, KeptByRows R sha256 market single I E
        ∧ I (accepted.mapIdx fun i bar => ⟨bar, cuts i⟩) Dict.empty s
        ∧ ∀ cache s', I [] cache s' → E (s'.clearFailureIfContiguous market.marketId)) :
    E (after (admitRestHistory R sha256 market snapshot receivedAt cuts) s) := by
  refine after_of_ends ?_
  rw [admitRestHistory, ends_bind, ends_attempt]
  rcases hacc : acceptedHistory sha256 market snapshot receivedAt with err | accepted
  · exact hstay
  obtain ⟨single, I, hI, hinit, hdone⟩ := hrows accepted hacc
  rw [Sat.ok, ends_bind]
  exact (hI.admitLoop hinit).mono (fun _ s' ⟨cache, h⟩ => hdone cache s' h) fun _ _ h => h

/-- **The rule for `confirm_ws_candidate`**: the admission of the bar of the candle that both snapshots
have at the time of the candidate. -/
theorem confirmWsCandidate_rule {c : Confirmation δ} {cut : Option ℕ} (hstay : E s)
    (hadm : ∀ payload bar, c.exactPayload = some payload →
      providerBar sha256 market payload c.receivedAt "hyperliquid-public-candleSnapshot-final".toList
        = .ok bar →
      Ends (admitBar R sha256 market ⟨bar, cut⟩ (sha256 (.payload payload)) none)
        { s with candidates := s.candidates.erase (market.marketId, c.openTimeMs) }
        (fun _ s' => E s') fun _ s' => E s') :
    Ends (confirmWsCandidate R sha256 market c cut) s (fun _ s' => E s') fun _ s' => E s' := by
  rw [confirmWsCandidate, ends_bind, ends_get, ends_bind, ends_check]
  refine ⟨fun _ => ?_, fun _ => hstay⟩
  by_cases hdue : c.due = false
  · rw [if_pos hdue]
    exact hstay
  rw [if_neg hdue, ends_bind, ends_check]
  refine ⟨fun _ => ?_, fun _ => hstay⟩
  rcases hpay : c.exactPayload with - | payload
  · exact hstay
  rw [ends_bind, ends_attempt]
  rcases hbar : providerBar sha256 market payload c.receivedAt
    "hyperliquid-public-candleSnapshot-final".toList with err | bar
  · exact hstay
  rw [Sat.ok, ends_bind, discardWsCandidate, ends_modify, ends_bind]
  exact (hadm payload bar hpay hbar).mono (fun _ s' h => h) fun _ _ h => h

omit [DecidableEq δ] in
/-- The candle of a confirmation opens at the time of the candidate. -/
theorem sortKey_exactPayload {c : Confirmation δ} {payload : Payload}
    (h : c.exactPayload = some payload) : payload.sortKey = c.openTimeMs := by
  rw [Confirmation.exactPayload] at h
  split at h
  · rename_i p q hp hq
    split_ifs at h
    obtain rfl := Option.some.inj h
    have hmem : p ∈ c.snapshot.filter fun p => p.time? = some (c.openTimeMs : ℤ) := by
      rw [hp]
      exact List.mem_singleton_self p
    have htime := (List.mem_filter.mp hmem).2
    rw [decide_eq_true_eq] at htime
    rw [Payload.sortKey, htime]
    rfl
  · cases h

/-- **The rule for an event**: an invariant of the rows, the last opens and the failed markets is
changed by the two calls that admit bars and by a start only. -/
theorem step_rule {P : DataAuthority δ → Prop} (h : P s) (e : DataEvent δ)
    (hsame : ∀ candidates registry, P { s with candidates := candidates, registry := registry })
    (hhist : ∀ market snapshot receivedAt cuts, e = .admitRestHistory market snapshot receivedAt cuts →
      P (after (admitRestHistory R sha256 market snapshot receivedAt cuts) s))
    (hconfirm : ∀ market c cut, e = .confirmWsCandidate market c cut →
      P (after (confirmWsCandidate R sha256 market c cut) s))
    (hbeg : ∀ s', e = .restart → start R s.store s.registry = .ok s' → P s') :
    P (step R sha256 s e) := by
  cases e with
  | admitRestHistory market snapshot receivedAt cuts => exact hhist _ _ _ _ rfl
  | offerWsCandidate market payload receivedAt =>
    refine after_of_ends ?_
    rw [offerWsCandidate]
    rcases providerBar sha256 market payload receivedAt "hyperliquid-public-ws-candidate".toList with err | bar
    · exact h
    · exact hsame _ _
  | discardWsCandidate marketId openTimeMs => exact hsame _ _
  | confirmWsCandidate market c cut => exact hconfirm _ _ _ rfl
  | registry files => exact hsame _ _
  | restart =>
    rw [step]
    rcases hstd : start R s.store s.registry with err | s'
    · exact h
    · exact hbeg s' rfl hstd

omit [DecidableEq δ] in
theorem clearFailure_store (s : DataAuthority δ) (marketId : Text) :
    (s.clearFailureIfContiguous marketId).store = s.store := by
  rw [clearFailureIfContiguous]
  split_ifs
  · rfl
  · rfl

end DataAuthority

end TraderAssist
