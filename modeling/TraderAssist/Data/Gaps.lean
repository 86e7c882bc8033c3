/-
TraderAssist/Data/Gaps.lean

Gaps fail closed.

The gap test looks at the newest stored row only, so it does not see a gap that an older row
leaves behind it.  Where the bars that are older than every stored row lead up to the stored
rows (`LeadsUp`), every row but the last has its successor stored, or still to come in the same
batch (`Filling`): a market that is not failed has no gap.
-/
import TraderAssist.Data.Batches
import TraderAssist.Lib.Simulation

namespace TraderAssist

open Py ClosedBarStore DataAuthority

variable {δ : Type} [DecidableEq δ] {R : RegistryRoot δ} {sha256 : EvidencePreimage δ → δ}
  {s s' : DataAuthority δ} {bar : ClosedBar δ}

/-! ### The last open -/

/-- The last opens in memory are those of the table. -/
def LastOpens (s : DataAuthority δ) : Prop := ∀ m, s.lastOpen.get? m = s.store.lastOpen m

omit [DecidableEq δ] in
theorem lastOpen_congr {store store' : ClosedBarStore δ} {m : Text}
    (h : ∀ o, store'.Has m o ↔ store.Has m o) : store'.lastOpen m = store.lastOpen m := by
  rcases hlast : store.lastOpen m with - | last
  · rw [lastOpen_eq_none] at hlast ⊢
    exact fun x hx => hlast x ((h x).mp hx)
  · rw [lastOpen_eq_some] at hlast ⊢
    exact ⟨(h last).mpr hlast.1, fun x hx => hlast.2 x ((h x).mp hx)⟩

omit [DecidableEq δ] in
theorem LastOpens.added (h : LastOpens s) (hrow : RowAdded bar s s') : LastOpens s' := by
  intro m
  rw [hrow.lastOpen, advance, Dict.get?_set]
  by_cases hm : bar.marketId = m
  · subst hm
    rw [if_pos rfl, h, eq_comm, lastOpen_eq_some]
    have hnew := hrow.fives.has.mpr (.inr ⟨rfl, rfl⟩)
    rcases hlast : s.store.lastOpen bar.marketId with - | last
    · rw [Option.getD_none, max_self]
      rw [lastOpen_eq_none] at hlast
      refine ⟨hnew, fun x hx => ?_⟩
      rcases hrow.fives.has.mp hx with hx | ⟨-, rfl⟩
      · exact absurd hx (hlast x)
      · exact le_rfl
    · rw [Option.getD_some]
      rw [lastOpen_eq_some] at hlast
      refine ⟨?_, fun x hx => ?_⟩
      · rcases max_choice bar.openTimeMs last with hmax | hmax
        · rw [hmax]
          exact hnew
        · rw [hmax]
          exact hrow.fives.has.mpr (.inl hlast.1)
      · rcases hrow.fives.has.mp hx with hx | ⟨-, rfl⟩
        · exact (hlast.2 x hx).trans (le_max_right _ _)
        · exact le_max_left _ _
  · rw [if_neg hm, h]
    refine (lastOpen_congr fun o => ?_).symm
    rw [Has, hrow.fives.other (Ne.symm hm), Has]

omit [DecidableEq δ] in
theorem LastOpens.refused (h : LastOpens s) (hrow : RowRefused bar s s') : LastOpens s' := by
  intro m
  rw [hrow.lastOpen, hrow.store, h]

omit [DecidableEq δ] in
theorem LastOpens.rolledBack {m : Text} (h : LastOpens s) (hback : RolledBack m s s') : LastOpens s' := by
  intro m'
  rw [hback.store]
  by_cases hm : m' = m
  · rw [hm, hback.lastOpen]
  · rw [hback.others m' hm, h]

/-! ### Rows that lead up -/

/-- The last opens are those of the table, and the markets that are not failed have no gap. -/
structure FailsClosed (s : DataAuthority δ) : Prop where
  lastOpens : LastOpens s
  gapless : ∀ m, m ∉ s.failed → Gapless fiveMinutesMs (s.store.Has m)

/-- A bar that is older than every stored row of a market: the next row is stored, or it
comes later. -/
def LeadsUp (store : ClosedBarStore δ) (m : Text) (later : ℕ → Prop) (o : ℕ) : Prop :=
  (∃ x, store.Has m x) → (∀ x, store.Has m x → o < x) →
    store.Has m (o + fiveMinutesMs) ∨ later (o + fiveMinutesMs)

/-- While the bars of a call are admitted: what was stored is, every bar is stored or to
come, the new rows come before those to come, and every row but the last has its
successor stored, or to come in the batch. -/
structure Filling (single : Prop) (before : ClosedBarStore δ) (m : Text) (opens : List ℕ)
    (l : List (Arrival δ)) (store : ClosedBarStore δ) : Prop where
  kept : ∀ x, before.Has m x → store.Has m x
  coming : ∀ x ∈ opens, store.Has m x ∨ ∃ a ∈ l, a.bar.openTimeMs = x
  sorted : ∀ x, store.Has m x → before.Has m x ∨ ∀ a ∈ l, x ≤ a.bar.openTimeMs
  next : ∀ x y, store.Has m x → store.Has m y → x < y →
    store.Has m (x + fiveMinutesMs) ∨ ¬single ∧ ∃ a ∈ l, a.bar.openTimeMs = x + fiveMinutesMs

namespace Filling

variable {single : Prop} {before store store' : ClosedBarStore δ} {m : Text} {opens : List ℕ}
  {a : Arrival δ} {l : List (Arrival δ)}

omit [DecidableEq δ] in
theorem gapless (h : Filling single before m opens l store) (hdone : single ∨ l = []) :
    Gapless fiveMinutesMs (store.Has m) := by
  refine .of_next (by decide) (fun x hx => hx.dvd) fun x y hx hy hxy => ?_
  refine (h.next x y hx hy hxy).resolve_right ?_
  rintro ⟨hbatch, a, ha, -⟩
  rcases hdone with hsgl | rfl
  · exact hbatch hsgl
  · cases ha

omit [DecidableEq δ] in
/-- A new row that is not the last one is older than every row from before the call. -/
theorem older (h : Filling single before m opens (a :: l) store)
    (hbef : Gapless fiveMinutesMs (before.Has m)) (ha : a.bar.interval = .m5)
    (hnew : ¬store.Has m a.bar.openTimeMs) {y : ℕ} (hy : store.Has m y) (hlt : a.bar.openTimeMs < y) :
    (∃ x, before.Has m x) ∧ ∀ x, before.Has m x → a.bar.openTimeMs < x := by
  have hy₀ : before.Has m y := (h.sorted y hy).resolve_right fun hle => by
    have := hle a (.head _)
    omega
  refine ⟨⟨y, hy₀⟩, fun x hx => ?_⟩
  by_contra hle
  have hgrid : fiveMinutesMs ∣ a.bar.openTimeMs := by
    have hal := a.bar.aligned
    rw [ha] at hal
    exact Nat.dvd_of_mod_eq_zero hal
  exact hnew (h.kept _ (hbef hx hy₀ (not_lt.mp hle) hlt.le hgrid))

omit [DecidableEq δ] in
/-- **A row of the call.** -/
theorem added (h : Filling single before m opens (a :: l) store)
    (hbef : Gapless fiveMinutesMs (before.Has m)) (hmkt : a.bar.marketId = m)
    (ha : a.bar.interval = .m5) (hopen : a.bar.openTimeMs ∈ opens)
    (hup : LeadsUp before m (fun x => ¬single ∧ x ∈ opens) a.bar.openTimeMs)
    (hsrt : ∀ b ∈ l, a.bar.openTimeMs ≤ b.bar.openTimeMs)
    (hgap : ∀ prior ∈ store.lastOpen m, a.bar.openTimeMs ≤ prior + fiveMinutesMs)
    (hrow : AddsFive a.bar store store') : Filling single before m opens l store' := by
  subst hmkt
  have hhas : ∀ x, store'.Has a.bar.marketId x ↔ store.Has a.bar.marketId x ∨ x = a.bar.openTimeMs := by
    intro x
    rw [hrow.has]
    exact or_congr_right (and_iff_right rfl)
  have hgrid : fiveMinutesMs ∣ a.bar.openTimeMs := ((hhas _).mpr (.inr rfl)).dvd
  -- what was to come is the new row, or still to come
  have hcome : ∀ x, (store.Has a.bar.marketId x ∨ ∃ b ∈ a :: l, b.bar.openTimeMs = x) →
      store'.Has a.bar.marketId x ∨ ∃ b ∈ l, b.bar.openTimeMs = x := by
    rintro x (hx | ⟨b, hb, rfl⟩)
    · exact .inl ((hhas x).mpr (.inl hx))
    · rcases hb with - | ⟨-, hb⟩
      · exact .inl ((hhas _).mpr (.inr rfl))
      · exact .inr ⟨b, hb, rfl⟩
  refine ⟨fun x hx => (hhas x).mpr (.inl (h.kept x hx)), fun x hx => hcome x (h.coming x hx),
    fun x hx => ?_, fun x y hx hy hxy => ?_⟩
  · rcases (hhas x).mp hx with hx | rfl
    · exact (h.sorted x hx).imp_right fun hle b hb => hle b (.tail _ hb)
    · exact .inr hsrt
  · by_cases hold : store.Has a.bar.marketId x
    · rcases (hhas y).mp hy with hy | rfl
      · rcases h.next x y hold hy hxy with hnext | ⟨hbatch, hnext⟩
        · exact .inl ((hhas _).mpr (.inl hnext))
        · exact (hcome _ (.inr hnext)).imp_right fun hnext => ⟨hbatch, hnext⟩
      · -- the new row comes after `x`: not beyond the next one if `x` was the last
        rcases hlast : store.lastOpen a.bar.marketId with - | last
        · exact absurd hold (lastOpen_eq_none.mp hlast x)
        obtain ⟨hhas', hmax⟩ := lastOpen_eq_some.mp hlast
        have hle := hgap last hlast
        rcases (hmax x hold).eq_or_lt with rfl | hlt
        · have := add_step_le hold.dvd hgrid hxy
          exact .inl ((hhas _).mpr (.inr (by omega)))
        · rcases h.next x last hold hhas' hlt with hnext | ⟨hbatch, hnext⟩
          · exact .inl ((hhas _).mpr (.inl hnext))
          · exact (hcome _ (.inr hnext)).imp_right fun hnext => ⟨hbatch, hnext⟩
    · -- the new row itself, before a stored one
      obtain rfl := ((hhas x).mp hx).resolve_left hold
      have hy := ((hhas y).mp hy).resolve_right (by omega)
      obtain ⟨hsome, holder⟩ := h.older hbef ha hold hy hxy
      rcases hup hsome holder with hnext | hnext
      · exact .inl ((hhas _).mpr (.inl (h.kept _ hnext)))
      · exact (hcome _ (h.coming _ hnext.2)).imp_right fun hltr => ⟨hnext.1, hltr⟩

omit [DecidableEq δ] in
/-- Before the first row. -/
theorem start (h : Gapless fiveMinutesMs (before.Has m)) (hops : ∀ x ∈ opens, ∃ a ∈ l, a.bar.openTimeMs = x) :
    Filling single before m opens l before := by
  refine ⟨fun _ hx => hx, fun x hx => .inr (hops x hx), fun _ hx => .inl hx, fun x y hx hy hxy => ?_⟩
  have hle := add_step_le hx.dvd hy.dvd hxy
  exact .inl (h hx hy (Nat.le_add_right _ _) hle ((Nat.dvd_add_right hx.dvd).mpr dvd_rfl))

end Filling

/-! ### Calls -/

/-- The authority while a call admits the bars of a market. -/
structure Admitting (single : Prop) (before : DataAuthority δ) (m : Text) (opens : List ℕ)
    (l : List (Arrival δ)) (s : DataAuthority δ) : Prop where
  arrivals : ∀ a ∈ l, a.bar.marketId = m ∧ a.bar.interval = .m5 ∧ a.bar.openTimeMs ∈ opens
  inOrder : l.Pairwise fun a b => a.bar.openTimeMs ≤ b.bar.openTimeMs
  mode : single ∨ s.registry = before.registry
  lastOpens : LastOpens s
  others : ∀ m', m' ≠ m → m' ∉ s.failed → Gapless fiveMinutesMs (s.store.Has m')
  failed : before.failed ⊆ s.failed
  filling : m ∉ s.failed → Filling single before.store m opens l s.store

namespace Admitting

variable {single : Prop} {before : DataAuthority δ} {m : Text} {opens : List ℕ} {a : Arrival δ}
  {l : List (Arrival δ)}

omit [DecidableEq δ] in
theorem failsClosed (h : Admitting single before m opens l s) (hdone : single ∨ l = []) : FailsClosed s := by
  refine ⟨h.lastOpens, fun m' hm' => ?_⟩
  by_cases hm : m' = m
  · rw [hm] at hm' ⊢
    exact (h.filling hm').gapless hdone
  · exact h.others m' hm hm'

omit [DecidableEq δ] in
/-- More markets fail. -/
theorem failsClosed_of_failed {l : List (Arrival δ)} (h : Admitting single before m opens l s)
    (hsto : s'.store = s.store) (hlast : LastOpens s') (hfail : s'.failed = insert m s.failed) :
    FailsClosed s' := by
  refine ⟨hlast, fun m' hm' => ?_⟩
  rw [hfail, Finset.mem_insert, not_or] at hm'
  rw [hsto]
  exact h.others m' hm'.1 hm'.2

omit [DecidableEq δ] in
theorem added (h : Admitting single before m opens (a :: l) s) (hbef : FailsClosed before)
    (hup : m ∉ before.failed → ∀ o ∈ opens, LeadsUp before.store m (fun x => ¬single ∧ x ∈ opens) o)
    (hgap : s.NoGap a.bar) (hrow : RowAdded a.bar s s') : Admitting single before m opens l s' := by
  obtain ⟨hmkt, hiv, hopen⟩ := h.arrivals a (.head _)
  obtain ⟨hfst, hrest⟩ := List.pairwise_cons.mp h.inOrder
  rw [NoGap, h.lastOpens, hmkt] at hgap
  refine ⟨fun b hb => h.arrivals b (.tail _ hb), hrest, ?_, h.lastOpens.added hrow,
    fun m' hm' hm'' => ?_, ?_, fun hm => ?_⟩
  · rw [hrow.registry]
    exact h.mode
  · rw [hrow.failed] at hm''
    refine (h.others m' hm' hm'').congr fun o => ?_
    rw [Has, hrow.fives.other (hmkt ▸ hm'), Has]
  · rw [hrow.failed]
    exact h.failed
  · rw [hrow.failed] at hm
    have hm₀ : m ∉ before.failed := fun hm' => hm (h.failed hm')
    exact (h.filling hm).added (hbef.gapless m hm₀) hmkt hiv hopen (hup hm₀ _ hopen) hfst hgap hrow.fives

/-- **What the admission of a row keeps.** -/
theorem row {binding : RegistryVersion} {finality : δ} {cache : Option (WindowCache δ)} {cut : Option ℕ}
    (h : Admitting single before m opens (a :: l) s) (hbef : FailsClosed before)
    (hup : m ∉ before.failed → ∀ o ∈ opens, LeadsUp before.store m (fun x => ¬single ∧ x ∈ opens) o)
    (hgap : s.NoGap a.bar) : Ends (admitRow R sha256 a.bar binding finality cache cut) s
      (fun _ s' => Admitting single before m opens l s') fun _ s' => single → FailsClosed s' := by
  obtain ⟨hmkt, hiv, -⟩ := h.arrivals a (.head _)
  refine (admitRow_effect hiv).mono (fun _ s' hrow => h.added hbef hup hgap hrow.1) ?_
  rintro _ s' (hrow | hrow) hsgl
  · exact (h.added hbef hup hgap hrow).failsClosed (.inl hsgl)
  · have hlast := h.lastOpens.refused hrow
    rcases hrow.failed with hfail | hfail
    · refine ⟨hlast, ?_⟩
      rw [hfail, hrow.store]
      exact (h.failsClosed (.inl hsgl)).gapless
    · rw [hmkt] at hfail
      exact h.failsClosed_of_failed hrow.store hlast hfail

omit [DecidableEq δ] in
theorem registry (h : Admitting single before m opens l s) (hsgl : single) (d : RegistryDisk δ) :
    Admitting single before m opens l { s with registry := d } :=
  ⟨h.arrivals, h.inOrder, .inl hsgl, h.lastOpens, h.others, h.failed, h.filling⟩

end Admitting

omit [DecidableEq δ] in
/-- The contiguity test at the end of a call. -/
theorem FailsClosed.clear (h : FailsClosed s) (m : Text) : FailsClosed (s.clearFailureIfContiguous m) := by
  rw [clearFailureIfContiguous]
  split_ifs with hcont
  · refine ⟨h.lastOpens, fun m' hm' => ?_⟩
    by_cases hm : m' = m
    · rw [hm]
      exact isContiguous5m_iff.mp hcont
    · exact h.gapless m' fun hmem => hm' (Finset.mem_erase.mpr ⟨hm, hmem⟩)
  · exact h

/-- What a call needs: the bars of a market that is not failed, where they are older than its rows, lead up
to them, bar by bar while a Registry is pending.  A new process is no call. -/
def NoGapBehind (R : RegistryRoot δ) (sha256 : EvidencePreimage δ → δ) (s : DataAuthority δ) :
    DataEvent δ → Prop
  | .admitRestHistory market snapshot receivedAt _ => market.marketId ∉ s.failed →
    ∀ accepted, acceptedHistory sha256 market snapshot receivedAt = .ok accepted →
      ∀ b ∈ accepted, LeadsUp s.store market.marketId (fun x => R.pendingVersion s.registry = .ok none
        ∧ x ∈ accepted.map ClosedBar.openTimeMs) b.openTimeMs
  | .confirmWsCandidate market c _ => market.marketId ∉ s.failed →
    LeadsUp s.store market.marketId (fun _ => False) c.openTimeMs
  | .restart => False
  | .offerWsCandidate .. | .discardWsCandidate .. | .registry _ => True

theorem FailsClosed.admitRestHistory (h : FailsClosed s) {market : RegistryMarket}
    {snapshot : List Payload} {receivedAt : Option Datetime} {cuts : ℕ → Option ℕ}
    (hcall : NoGapBehind R sha256 s (.admitRestHistory market snapshot receivedAt cuts)) :
    FailsClosed (after (admitRestHistory R sha256 market snapshot receivedAt cuts) s) := by
  refine admitRestHistory_rule h fun accepted hacc => ?_
  obtain ⟨harr, hsrt⟩ := arrivals_ok cuts hacc
  have hup : market.marketId ∉ s.failed → ∀ o ∈ accepted.map ClosedBar.openTimeMs,
      LeadsUp s.store market.marketId (fun x => ¬(R.pendingVersion s.registry ≠ .ok none)
        ∧ x ∈ accepted.map ClosedBar.openTimeMs) o := by
    intro hm o ho
    obtain ⟨b, hb, rfl⟩ := List.mem_map.mp ho
    rw [not_not]
    exact hcall hm accepted hacc b hb
  refine ⟨_, fun l _ s₁ => Admitting (R.pendingVersion s.registry ≠ .ok none) s market.marketId
      (accepted.map ClosedBar.openTimeMs) l s₁,
    ⟨fun h₁ hpend => ?_, fun h₁ a ha => ⟨(h₁.arrivals a ha).1, (h₁.arrivals a ha).2.1⟩,
      fun hsgl h₁ => h₁.failsClosed (.inl hsgl),
      fun _ h₁ => h₁.failsClosed_of_failed rfl h₁.lastOpens rfl,
      fun h₁ h₂ => h₁.failsClosed_of_failed h₂.store (h₁.lastOpens.rolledBack h₂) h₂.failed,
      fun hsgl d h₁ => h₁.registry hsgl d, fun h₁ hgap => h₁.row h hup hgap⟩, ?_,
    fun _ s₁ h₁ => (h₁.failsClosed (.inr rfl)).clear _⟩
  · rcases h₁.mode with hsgl | hreg
    · exact hsgl
    · rw [← hreg]
      exact hpend
  · -- before the first bar
    refine ⟨fun a ha => ⟨(harr a ha).1, (harr a ha).2, List.mem_map_of_mem (mem_arrivals ha).1⟩, hsrt, .inr rfl,
      h.lastOpens, fun m' _ hm' => h.gapless m' hm', Finset.Subset.refl _,
      fun hm => .start (h.gapless _ hm) fun x hx => ?_⟩
    rw [← map_arrivals accepted cuts, List.map_map] at hx
    exact List.mem_map.mp hx

theorem FailsClosed.confirmWsCandidate (h : FailsClosed s) {market : RegistryMarket}
    {c : Confirmation δ} {cut : Option ℕ}
    (hcall : NoGapBehind R sha256 s (.confirmWsCandidate market c cut)) :
    FailsClosed (after (confirmWsCandidate R sha256 market c cut) s) := by
  refine after_of_ends (confirmWsCandidate_rule h fun payload bar hpay hbar => ?_)
  obtain ⟨hmkt, hiv, hopen, -⟩ := providerBar_ok hbar
  have hopen : bar.openTimeMs = c.openTimeMs := by
    rw [sortKey_exactPayload hpay] at hopen
    exact Int.ofNat_inj.mp hopen
  have hbeg : Admitting True s market.marketId [c.openTimeMs] [⟨bar, cut⟩]
      { s with candidates := s.candidates.erase (market.marketId, c.openTimeMs) } := by
    refine ⟨fun a ha => ?_, List.pairwise_singleton _ _, .inl trivial, h.lastOpens,
      fun m' _ hm' => h.gapless m' hm', Finset.Subset.refl _, fun hm => .start (h.gapless _ hm) fun x hx => ?_⟩
    · rw [List.mem_singleton.mp ha]
      exact ⟨hmkt, hiv, List.mem_singleton.mpr hopen⟩
    · exact ⟨_, List.mem_singleton_self _, hopen.trans (List.mem_singleton.mp hx).symm⟩
  have hup : market.marketId ∉ s.failed → ∀ o ∈ [c.openTimeMs],
      LeadsUp s.store market.marketId (fun x => ¬True ∧ x ∈ [c.openTimeMs]) o := by
    intro hm o ho hsome holder
    rw [List.mem_singleton.mp ho] at holder ⊢
    exact .inl ((hcall hm hsome holder).resolve_right id)
  refine admitBar_rule (Q := fun _ s' => FailsClosed s') (hbeg.failsClosed (.inl trivial))
    (hbeg.failsClosed_of_failed rfl h.lastOpens (by rw [fail, hmkt])) fun hgap binding => ?_
  refine (hbeg.row h hup hgap).mono (fun _ s₁ h₁ d => ?_) fun _ s₁ h₁ => h₁ trivial
  have hd := (h₁.registry trivial d).failsClosed (.inl trivial)
  exact ⟨hd, hd⟩

/-- A step keeps the invariant. -/
theorem FailsClosed.step (h : FailsClosed s) (e : DataEvent δ) (he : NoGapBehind R sha256 s e) :
    FailsClosed (step R sha256 s e) := by
  refine step_rule h e (fun _ _ => ⟨h.lastOpens, h.gapless⟩) ?_ ?_ ?_
  · rintro market snapshot receivedAt cuts rfl
    exact h.admitRestHistory he
  · rintro market c cut rfl
    exact h.confirmWsCandidate he
  · rintro s' rfl
    exact absurd he id

variable {registry : RegistryDisk δ}

/-- A process starts on its table, with the last opens of some markets. -/
theorem start_eq {store : ClosedBarStore δ} (h : start R store registry = .ok s) :
    ∃ markets : List RegistryMarket, s = { store, registry, lastOpen := markets.foldl (fun lastOpen m =>
      (store.lastOpen m.marketId).elim lastOpen (lastOpen.set m.marketId)) Dict.empty } := by
  obtain ⟨active, -, h⟩ := of_bind h
  rcases active with - | active
  · obtain ⟨pending, -, h⟩ := of_bind h
    rw [← Except.ok.inj h]
    exact ⟨_, by
      congr
      funext lastOpen m
      cases store.lastOpen m.marketId <;> rfl⟩
  · rw [← Except.ok.inj h]
    exact ⟨_, by
      congr
      funext lastOpen m
      cases store.lastOpen m.marketId <;> rfl⟩

theorem start_store {store : ClosedBarStore δ}
    (h : start R store registry = .ok s) : s.store = store := by
  obtain ⟨markets, rfl⟩ := start_eq h
  rfl

/-- A process that starts on an empty table. -/
theorem start_empty (h : start R {} registry = .ok s) : s = { registry } := by
  obtain ⟨markets, rfl⟩ := start_eq h
  clear h
  refine congrArg (fun lastOpen => ({ registry, lastOpen } : DataAuthority δ)) ?_
  induction markets with
  | nil => rfl
  | cons m markets ih => exact ih

/-- **Gaps fail closed**: the rows of a market that is not failed follow each other without a gap, after
any calls whose older bars lead up to the rows that are there. -/
theorem gaps_fail_closed {events : List (DataEvent δ)}
    (hstart : start R {} registry = .ok s)
    (hcalls : Along (step R sha256) (NoGapBehind R sha256) s events) {m : Text}
    (hm : m ∉ (run R sha256 s events).failed) :
    ((run R sha256 s events).store.bars m .m5).IsChain fun left right =>
      right.openTimeMs = left.openTimeMs + fiveMinutesMs := by
  have hempty : FailsClosed s := by
    rw [start_empty hstart]
    refine ⟨fun _ => rfl, fun m' _ x y z hx => ?_⟩
    cases hx
  have hend := hcalls.invariant (I := FailsClosed) (fun s e h he => h.step e he) hempty
  exact gapless_iff_chain_bars.mp (hend.gapless m hm)

open EvidenceTerm in
/-- A process that starts on the files of the active Registry. -/
theorem start_activeFiles : start registryRoot {} activeFiles = .ok { registry := activeFiles } := by
  have hact : registryRoot.active activeFiles = .ok (some version) := by decide +kernel
  rw [start, hact]
  rfl

open EvidenceTerm in
/-- A candle that comes an hour before the only stored row: the rows 0 and 10 of the grid, and no
failure. -/
theorem older_candle_leaves_gap :
    start registryRoot {} activeFiles = .ok { registry := activeFiles }
      ∧ market.marketId ∉ (run registryRoot EvidenceTerm.sha256 { registry := activeFiles }
        [.admitRestHistory market [candle 10] (some version.createdAt) fun _ => none,
          .admitRestHistory market [candle 0] (some version.createdAt) fun _ => none]).failed
      ∧ ((run registryRoot EvidenceTerm.sha256 { registry := activeFiles }
        [.admitRestHistory market [candle 10] (some version.createdAt) fun _ => none,
          .admitRestHistory market [candle 0] (some version.createdAt) fun _ => none]).store.bars
          market.marketId .m5).map ClosedBar.openTimeMs = [0, 3000000] := by
  refine ⟨start_activeFiles, ?_⟩
  decide +kernel

open EvidenceTerm in
/-- The same candles in one call with those between them, after a newer row. -/
theorem gaps_fail_closed_backfill :
    ((run registryRoot EvidenceTerm.sha256 { registry := activeFiles }
      [.admitRestHistory market [candle 2] (some version.createdAt) fun _ => none,
        .admitRestHistory market [candle 0, candle 1] (some version.createdAt) fun _ => none]).store.bars
      market.marketId .m5).IsChain fun left right => right.openTimeMs = left.openTimeMs + fiveMinutesMs := by
  refine gaps_fail_closed start_activeFiles ?_ (by decide +kernel)
  refine And.intro ?_ (And.intro ?_ trivial)
  · -- nothing is stored
    intro _ accepted _ b _ ⟨x, hx⟩
    cases hx
  · intro _ accepted haccepted b hb _ holder
    have hopens : (acceptedHistory EvidenceTerm.sha256 market [candle 0, candle 1] (some version.createdAt)).map
        (List.map ClosedBar.openTimeMs) = .ok [0, 300000] := by
      decide +kernel
    rw [haccepted] at hopens
    have hopens := Except.ok.inj hopens
    have hb : b.openTimeMs ∈ [0, 300000] := hopens ▸ List.mem_map_of_mem hb
    rcases List.mem_pair.mp hb with hb | hb
    · rw [hb]
      refine .inr ⟨?_, ?_⟩
      · decide +kernel
      · rw [hopens]
        decide
    · rw [hb]
      left
      decide +kernel

end TraderAssist
