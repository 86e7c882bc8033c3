/-
TraderAssist/Data/Alike.lean

Tables that are alike up to evidence metadata, and calls that keep them so.

The loop of a call, which admits rows one by one or in batches and serves windows from a
rolling tail, is compared with the plain loop that admits each bar by itself and reads every
window from the table (`admitEach`).  From authorities that are alike, both return, with the
same bars and authorities that are alike again, or both raise (`pairs_admitLoop`).
-/
import TraderAssist.Data.Buckets
import TraderAssist.Data.Gaps

namespace TraderAssist

open Py

variable {δ : Type}

/-! ### Tables -/

/-- Rows of one key, one candle and one Registry. -/
structure EvidenceRow.Alike (r r' : EvidenceRow δ) : Prop where
  contents : r.bar.SameCandleContents r'.bar
  version : r.registryVersion = r'.registryVersion
  content : r.registryContentHash = r'.registryContentHash

namespace ClosedBar.SameCandleContents

variable {a b c : ClosedBar δ}

theorem refl (a : ClosedBar δ) : a.SameCandleContents a := ⟨rfl, rfl, rfl⟩

theorem symm (h : a.SameCandleContents b) : b.SameCandleContents a := ⟨h.1.symm, h.2.1.symm, h.2.2.symm⟩

theorem trans (h : a.SameCandleContents b) (h' : b.SameCandleContents c) : a.SameCandleContents c :=
  ⟨h.1.trans h'.1, h.2.1.trans h'.2.1, h.2.2.trans h'.2.2⟩

end ClosedBar.SameCandleContents

open ClosedBar ClosedBarStore

/-- Tables with the same rows up to evidence metadata. -/
def ClosedBarStore.Alike (store store' : ClosedBarStore δ) : Prop :=
  List.Forall₂ EvidenceRow.Alike store.rows store'.rows

namespace ClosedBarStore.Alike

variable {store store' store'' : ClosedBarStore δ} {m : Text} {interval : Interval} {o : ℕ}

theorem refl (store : ClosedBarStore δ) : store.Alike store :=
  List.forall₂_same.mpr fun r _ => ⟨.refl r.bar, rfl, rfl⟩

section

variable (h : store.Alike store')
include h

theorem symm : store'.Alike store :=
  List.Forall₂.flip (h.imp fun _ _ hr => ⟨hr.contents.symm, hr.version.symm, hr.content.symm⟩)

theorem trans (h' : store'.Alike store'') : store.Alike store'' := by
  exact forall₂_trans (fun _ _ _ hr hr' => ⟨hr.contents.trans hr'.contents, hr.version.trans hr'.version,
    hr.content.trans hr'.content⟩) h h'

theorem row? (key : Text × Interval × ℕ) :
    Option.Rel EvidenceRow.Alike (store.row? key) (store'.row? key) := by
  rw [ClosedBarStore.Alike] at h
  rw [ClosedBarStore.row?, ClosedBarStore.row?]
  generalize store.rows = rows at h ⊢
  generalize store'.rows = rows' at h ⊢
  induction h with
  | nil => exact .none
  | @cons r r' l l' hr _ ih =>
    rw [List.find?_cons, List.find?_cons, hr.contents.1]
    by_cases hkey : r'.bar.key = key
    · rw [decide_eq_true hkey]
      exact .some hr
    · rw [decide_eq_false hkey]
      exact ih

theorem bar? (m : Text) (interval : Interval) (o : ℕ) :
    Option.Rel SameCandleContents (store.bar? m interval o) (store'.bar? m interval o) := by
  have hrow := h.row? (m, interval, o)
  rw [ClosedBarStore.bar?, ClosedBarStore.bar?]
  generalize store.row? (m, interval, o) = r at hrow ⊢
  generalize store'.row? (m, interval, o) = r' at hrow ⊢
  cases hrow with
  | some hr => exact .some hr.contents
  | none => exact .none

theorem has : store.Has m o ↔ store'.Has m o := by
  have hbar := h.bar? m .m5 o
  rw [Has, Has]
  generalize store.bar? m .m5 o = b at hbar ⊢
  generalize store'.bar? m .m5 o = b' at hbar ⊢
  cases hbar with
  | some _ => exact Iff.rfl
  | none => exact Iff.rfl

theorem isContiguous5m (m : Text) : store.isContiguous5m m = store'.isContiguous5m m := by
  rw [Bool.eq_iff_iff, isContiguous5m_iff, isContiguous5m_iff]
  exact ⟨fun hg => hg.congr fun _ => h.has.symm, fun hg => hg.congr fun _ => h.has⟩

theorem members (m : Text) (n start : ℕ) :
    Option.Rel (List.Forall₂ SameCandleContents) (store.members m start n) (store'.members m start n) := by
  induction n generalizing start with
  | zero => exact .some .nil
  | succ n ih =>
    have hbar := h.bar? m .m5 start
    have hrest := ih (start + fiveMinutesMs)
    rw [ClosedBarStore.members, ClosedBarStore.members]
    generalize store.bar? m .m5 start = b at hbar ⊢
    generalize store'.bar? m .m5 start = b' at hbar ⊢
    generalize store.members m (start + fiveMinutesMs) n = w at hrest ⊢
    generalize store'.members m (start + fiveMinutesMs) n = w' at hrest ⊢
    cases hbar with
    | none => exact .none
    | some hb =>
      cases hrest with
      | none => exact .none
      | some hw => exact .some (.cons hb hw)

theorem length_tailBars (m : Text) (o limit : ℕ) :
    (store.tailBars m o limit).length = (store'.tailBars m o limit).length := by
  have hsel : List.Forall₂ SameCandleContents ((store.select m .m5).filter fun b => b.openTimeMs ≤ o)
      ((store'.select m .m5).filter fun b => b.openTimeMs ≤ o) := by
    rw [select, select, List.filter_filter, List.filter_filter]
    rw [ClosedBarStore.Alike] at h
    generalize store.rows = rows at h ⊢
    generalize store'.rows = rows' at h ⊢
    induction h with
    | nil => exact .nil
    | @cons r r' l l' hr _ ih =>
      have hkey := hr.contents.1
      rw [ClosedBar.key, ClosedBar.key, Prod.mk.injEq, Prod.mk.injEq] at hkey
      rw [List.map_cons, List.map_cons, List.filter_cons, List.filter_cons, hkey.1, hkey.2.1, hkey.2.2]
      split_ifs
      · exact .cons hr.contents ih
      · exact ih
  rw [tailBars, tailBars, length_lastN, length_lastN, length_sortBy, length_sortBy, hsel.length_eq]

end

variable [DecidableEq δ] {sha256 : EvidencePreimage δ → δ}

/-- Insertion does not see evidence metadata. -/
theorem insert (hsha : Function.Injective sha256) (h : store.Alike store') {row row' : EvidenceRow δ}
    (hrow : row.Alike row') :
    Agree (store.insert sha256 row) (store'.insert sha256 row') (Option.Rel ClosedBarStore.Alike) := by
  have hsame : ∀ prior bar : ClosedBar δ, (prior.canonicalHash sha256 = bar.canonicalHash sha256
      ∨ prior.SameCandleContents bar) ↔ prior.SameCandleContents bar :=
    fun prior bar => ⟨fun h => h.elim (contents_of_hash hsha) id, .inr⟩
  have hpri := h.row? row.bar.key
  have hkey : row'.bar.key = row.bar.key := hrow.contents.1.symm
  generalize hp : store.row? row.bar.key = prior at hpri
  generalize hp' : store'.row? row.bar.key = prior' at hpri
  rw [← hkey] at hp'
  cases hpri with
  | none =>
    obtain ⟨new, hnew, hres⟩ := insert_of_none sha256 hp
    obtain ⟨new', hnew', hres'⟩ := insert_of_none sha256 hp'
    rw [hres, hres']
    refine .some ?_
    rw [ClosedBarStore.Alike, hnew, hnew']
    exact List.rel_append h (.cons hrow .nil)
  | @some prior prior' hpp =>
    simp only [insert_of_some sha256 hp, insert_of_some sha256 hp', hsame]
    by_cases hdup : prior.bar.SameCandleContents row.bar
    · rw [if_pos hdup, if_pos (hpp.contents.symm.trans (hdup.trans hrow.contents))]
      exact .none
    · rw [if_neg hdup, if_neg fun hdup' => hdup (hpp.contents.trans (hdup'.trans hrow.contents.symm))]
      exact trivial

end ClosedBarStore.Alike

/-! ### Aggregates -/

/-- What is read of two runs with the same candles is the same. -/
theorem map_of_alike {β : Type} {u u' : List (ClosedBar δ)} (h : List.Forall₂ SameCandleContents u u')
    {f : ClosedBar δ → β} (hf : ∀ a b : ClosedBar δ, a.SameCandleContents b → f a = f b) :
    u.map f = u'.map f := map_eq_of_forall₂ (h.imp hf)

/-- Aggregation does not see evidence metadata. -/
theorem aggregateClosed5m_alike {sha256 : EvidencePreimage δ → δ} {i : Interval}
    {u u' : List (ClosedBar δ)} (h : List.Forall₂ SameCandleContents u u') :
    Agree (aggregateClosed5m sha256 u i) (aggregateClosed5m sha256 u' i) SameCandleContents := by
  refine Agree.bind (Agree.require Iff.rfl) fun _ _ _ _ _ => ?_
  have hall : ∀ {β : Type} {l l' : List (ClosedBar δ)} {f : ClosedBar δ → β} {P : β → Prop},
      l.map f = l'.map f → ((∀ b ∈ l, P (f b)) ↔ ∀ b ∈ l', P (f b)) := by
    intro β l l' f P heq
    rw [← List.forall_mem_map, heq, List.forall_mem_map]
  have hlen := h.length_eq
  have hops := map_of_alike h fun a b hab => (congrArg (fun k => k.2.2) hab.1 : a.openTimeMs = b.openTimeMs)
  have hivs := map_of_alike h fun a b hab => (congrArg (fun k => k.2.1) hab.1 : a.interval = b.interval)
  cases h with
  | nil => exact trivial
  | @cons first first' rest rest' hfst hrest =>
    have hkey := hfst.1
    rw [key, key, Prod.mk.injEq, Prod.mk.injEq] at hkey
    have hmkts := map_of_alike hrest fun a b hab => (congrArg (fun k => k.1) hab.1 : a.marketId = b.marketId)
    have hvals := map_of_alike hrest fun a b hab => hab.2.2
    have hcls := map_of_alike hrest fun a b hab => hab.2.1
    have hlast : (rest.getLast?.getD first).closeTimeMs = (rest'.getLast?.getD first').closeTimeMs := by
      have hgetD : ∀ (b : ClosedBar δ) (l : List (ClosedBar δ)), (l.getLast?.getD b).closeTimeMs
          = (l.map closeTimeMs).getLast?.getD b.closeTimeMs := by
        intro b l
        rw [List.getLast?_map, Option.getD_map]
      rw [hgetD, hgetD, hcls, hfst.2.1]
    have hmrg := mergedValues_congr hfst.2.2 hvals
    refine Agree.bind (Agree.require ?_) fun _ _ _ _ _ => ?_
    · rw [hlen]
      exact and_congr_right fun _ => hall (P := fun j => j = .m5) hivs
    refine Agree.bind (Agree.require ?_) fun _ _ _ _ _ => ?_
    · rw [hkey.1]
      exact hall (P := fun m => m = first'.marketId) hmkts
    refine Agree.bind (Agree.require ?_) fun _ _ _ _ _ => ?_
    · rw [← List.isChain_map (R := fun x y => y = x + fiveMinutesMs) openTimeMs, hops, List.isChain_map]
    refine Agree.bind (Agree.require (by rw [hkey.2.2])) fun _ _ _ _ _ => ?_
    rw [create?, create?, hkey.1, hkey.2.2, hlast, hmrg]
    split_ifs
    · exact ⟨rfl, rfl, rfl⟩
    · exact trivial

/-! ### Authorities -/

/-- Authorities with tables that are alike; the failed markets, which no admission reads,
are left out. -/
structure DataAuthority.Alike (s t : DataAuthority δ) : Prop where
  store : s.store.Alike t.store
  registry : s.registry = t.registry
  lastOpen : s.lastOpen = t.lastOpen
  candidates : s.candidates = t.candidates

namespace DataAuthority

theorem Alike.refl (s : DataAuthority δ) : s.Alike s := ⟨.refl _, rfl, rfl, rfl⟩

theorem Alike.symm {s t : DataAuthority δ} (h : s.Alike t) : t.Alike s :=
  ⟨h.store.symm, h.registry.symm, h.lastOpen.symm, h.candidates.symm⟩

theorem Alike.trans {s t u : DataAuthority δ} (h : s.Alike t) (h' : t.Alike u) : s.Alike u :=
  ⟨h.store.trans h'.store, h.registry.trans h'.registry, h.lastOpen.trans h'.lastOpen,
    h.candidates.trans h'.candidates⟩

theorem Alike.advance {s t : DataAuthority δ} (h : s.Alike t) (bar : ClosedBar δ) :
    (s.advance bar).Alike (t.advance bar) := by
  refine ⟨h.store, h.registry, ?_, h.candidates⟩
  rw [DataAuthority.advance, DataAuthority.advance, h.lastOpen]

variable [DecidableEq δ] {R : RegistryRoot δ} {sha256 : EvidencePreimage δ → δ} {s t : DataAuthority δ}
  {bar : ClosedBar δ} {binding : RegistryVersion} {finality : δ} {cache : Option (WindowCache δ)}
  {interval : Interval} {market : RegistryMarket} {a : Arrival δ}

section

variable (hsha : Function.Injective sha256)
include hsha

theorem pairs_put (h : s.Alike t) {b b' : ClosedBar δ} (hbar : b.SameCandleContents b') {f f' : δ} :
    Pairs (put R sha256 b binding f) s (put R sha256 b' binding f') t
      fun inserted s' inserted' t' => inserted = inserted' ∧ s'.Alike t' := by
  refine pairs_get_left (pairs_get_right ?_)
  have hrow : (evidenceRow R b binding f).Alike (evidenceRow R b' binding f') := ⟨hbar, rfl, rfl⟩
  refine Pairs.bind (P := fun o s' o' t' => s'.Alike t' ∧ Option.Rel ClosedBarStore.Alike o o')
    (pairs_attempt ((h.store.insert hsha hrow).mono fun _ _ hrel => ⟨h, hrel⟩)) ?_
  rintro o s' o' t' ⟨h', hrel⟩
  cases hrel with
  | none => exact pairs_pure ⟨rfl, h'⟩
  | @some store store' hsto =>
    have hnext : ({ s' with store } : DataAuthority δ).Alike { t' with store := store' } :=
      ⟨hsto, h'.registry, h'.lastOpen, h'.candidates⟩
    exact And.intro rfl hnext

/-- A turn of the aggregate loop, with and without the rolling tail. -/
theorem pairs_persistAggregate (h : s.Alike t) (hsrv : ∀ c ∈ cache, Served SameCandleContents s.store c)
    (hbar : s.store.bar? bar.marketId .m5 bar.openTimeMs = some bar)
    (hbar' : t.store.bar? bar.marketId .m5 bar.openTimeMs = some bar) :
    Pairs (persistAggregate R sha256 bar binding cache none interval) s
      (persistAggregate R sha256 bar binding none none interval) t fun _ s' _ t' => s'.Alike t' := by
  refine Pairs.bind (P := fun _ s' _ t' => s = s' ∧ t = t') (pairs_check fun _ => ⟨rfl, rfl⟩) ?_
  rintro _ _ _ _ ⟨rfl, rfl⟩
  by_cases hal : ((bar.openTimeMs : ℤ) - (interval.sources - 1 : ℕ) * fiveMinutesMs)
      % (interval.sources * fiveMinutesMs : ℕ) ≠ 0
  · rw [if_pos hal, if_pos hal]
    exact pairs_pure h
  rw [if_neg hal, if_neg hal]
  refine pairs_get_left (pairs_get_right ?_)
  obtain ⟨start, hcls⟩ := closes_iff.mp (not_not.mp hal)
  obtain ⟨n, hn⟩ := Nat.exists_eq_succ_of_ne_zero (Nat.ne_of_gt interval.sources_pos)
  have hbeg : start + n * fiveMinutesMs = bar.openTimeMs := by
    have hend := hcls.2
    rw [hn] at hend
    exact hend
  have hleft := aggregateWindow_spec SameCandleContents.refl hsrv hbar hbeg
  have hrt := aggregateWindow_spec SameCandleContents.refl (show ∀ c ∈ none, _ from nofun) hbar' hbeg
  rw [← Nat.succ_eq_add_one, ← hn] at hleft hrt
  have hmems := h.store.members bar.marketId interval.sources start
  generalize aggregateWindow _ cache bar interval.sources = u at hleft ⊢
  generalize aggregateWindow _ none bar interval.sources = u' at hrt ⊢
  rcases hleft with ⟨w, hw, hall⟩ | ⟨hw, rfl, hgap⟩
  · rcases hrt with ⟨w', hw', hall'⟩ | ⟨hw', -⟩
    · -- both buckets are complete
      rw [hw, hw'] at hmems
      cases hmems with
      | some hww =>
        rw [if_pos (hall.length_eq.trans (length_members hw)),
          if_pos (hall'.length_eq.trans (length_members hw'))]
        have hback := List.Forall₂.flip (hall'.imp fun _ _ hab => SameCandleContents.symm hab)
        have hfront : List.Forall₂ SameCandleContents u w' := forall₂_trans (fun _ _ _ => .trans) hall hww
        have huu : List.Forall₂ SameCandleContents u u' := forall₂_trans (fun _ _ _ => .trans) hfront hback
        refine Pairs.bind (P := fun a s' a' t' => s'.Alike t' ∧ a.SameCandleContents a')
          (pairs_attempt ((aggregateClosed5m_alike huu).mono fun _ _ hab => ⟨h, hab⟩)) ?_
        rintro b s' b' t' ⟨h', hab⟩
        refine Pairs.bind (pairs_put hsha h' hab) ?_
        rintro _ s₁ _ t₁ ⟨-, h₁⟩
        exact pairs_pure h₁
    · rw [hw, hw'] at hmems
      cases hmems
  · rcases hrt with ⟨w', hw', -⟩ | ⟨hw', rfl, hgap'⟩
    · rw [hw, hw'] at hmems
      cases hmems
    · -- neither is: the tails read from the tables have one length
      have hlen := h.store.length_tailBars bar.marketId bar.openTimeMs interval.sources
      by_cases hfull : (t.store.tailBars bar.marketId bar.openTimeMs interval.sources).length = interval.sources
      · rw [if_pos (hlen.trans hfull), if_pos hfull]
        refine Pairs.bind (P := fun _ _ _ _ => False) (pairs_attempt ?_) fun _ _ _ _ hf => hf.elim
        rcases hmade : aggregateClosed5m sha256 (s.store.tailBars bar.marketId bar.openTimeMs interval.sources)
          interval with err | made
        · rcases hmade' : aggregateClosed5m sha256 (t.store.tailBars bar.marketId bar.openTimeMs interval.sources)
            interval with err' | made'
          · exact trivial
          · obtain ⟨-, _, _, -, -, hch, -⟩ := aggregateClosed5m_ok hmade'
            exact hgap' ⟨hfull, hch⟩
        · obtain ⟨-, _, _, -, -, hch, -⟩ := aggregateClosed5m_ok hmade
          exact absurd ⟨hlen.trans hfull, hch⟩ hgap
      · rw [if_neg fun hl => hfull (hlen.symm.trans hl), if_neg hfull]
        exact pairs_pure h

/-- The aggregates of a new row. -/
theorem pairs_persistAggregates (h : s.Alike t) (hsrv : ∀ c ∈ cache, Served SameCandleContents s.store c)
    (hbar : s.store.bar? bar.marketId .m5 bar.openTimeMs = some bar)
    (hbar' : t.store.bar? bar.marketId .m5 bar.openTimeMs = some bar) :
    Pairs (persistAggregates R sha256 bar binding cache none) s
      (persistAggregates R sha256 bar binding none none) t fun _ s' _ t' => s'.Alike t' := by
  refine Pairs.bind ((pairs_persistAggregate hsha h hsrv hbar hbar').and_both
    (persistAggregate_fives .m15) (persistAggregate_fives .m15)) ?_
  rintro _ s₁ _ t₁ ⟨h₁, ⟨-, -, hfives⟩, -, -, hfives'⟩
  refine pairs_persistAggregate hsha h₁ (fun c hc => (hsrv c hc).mono fun m o b hb => ?_) ?_ ?_
  · rw [hfives]
    exact hb
  · rw [hfives]
    exact hbar
  · rw [hfives']
    exact hbar'

end

/-- A row that was put is stored, and hides no other. -/
theorem put_stored (hfive : bar.interval = .m5) : Ends (put R sha256 bar binding finality) s
    (fun inserted s' => (inserted = true → s'.store.bar? bar.marketId .m5 bar.openTimeMs = some bar)
      ∧ ∀ m o b, s.store.bar? m .m5 o = some b → s'.store.bar? m .m5 o = some b) fun _ _ => True := by
  refine put_rule (fun _ _ _ => ⟨nofun, fun _ _ _ hb => hb⟩) (fun _ _ _ => trivial) ?_
  intro hnew store' hrows
  exact ⟨fun _ => bar?_added hfive hnew hrows, fun _ _ _ hb => bar?_kept hrows hnew hb⟩

/-- A row, with and without the rolling tail. -/
theorem pairs_admitRow (hsha : Function.Injective sha256) (h : s.Alike t) (hfive : bar.interval = .m5)
    (hsrv : ∀ c ∈ cache, Served SameCandleContents s.store c) :
    Pairs (admitRow R sha256 bar binding finality cache none) s
      (admitRow R sha256 bar binding finality none none) t fun r s' r' t' => r.1 = r'.1 ∧ s'.Alike t' := by
  refine Pairs.bind (P := fun _ s' _ t' => s = s' ∧ t = t') (pairs_check fun _ => ⟨rfl, rfl⟩) ?_
  rintro _ _ _ _ ⟨rfl, rfl⟩
  refine Pairs.bind ((pairs_put hsha h (.refl bar)).and_both (put_stored hfive) (put_stored hfive)).onRaise ?_
  rintro inserted s₁ _ t₁ ⟨⟨rfl, h₁⟩, ⟨hst, hkept⟩, hst', -⟩
  refine Pairs.bind (P := fun _ s' _ t' => s₁.advance bar = s' ∧ t₁.advance bar = t') (And.intro rfl rfl) ?_
  rintro _ _ _ _ ⟨rfl, rfl⟩
  cases inserted with
  | false => exact pairs_pure ⟨rfl, h₁.advance bar⟩
  | true =>
    refine Pairs.bind (pairs_persistAggregates hsha (h₁.advance bar)
      (fun c hc => (hsrv c hc).mono hkept) (hst rfl) (hst' rfl)) ?_
    intro _ s₂ _ t₂ h₂
    exact pairs_pure ⟨rfl, h₂⟩

variable {cache : WindowCache δ}

/-- The rolling tail after a row. -/
theorem served_admitRow (hsha : Function.Injective sha256) (hfive : bar.interval = .m5)
    (hsrv : Served SameCandleContents s.store cache) {cut : Option ℕ} :
    Ends (admitRow R sha256 bar binding finality (some cache) cut) s
      (fun r s' => Served SameCandleContents s'.store (r.2.getD cache) ∧ s'.registry = s.registry)
      fun _ _ => True := by
  refine ((admitRow_contents hsha hfive).and (admitRow_effect hfive)).mono ?_ fun _ _ _ => trivial
  rintro ⟨inserted, next⟩ s' ⟨hstnd, hadd, rfl⟩
  exact ⟨(hsrv.mono fun _ _ _ hb => hadd.fives.kept hb).track (.inl hstnd), hadd.registry⟩

omit [DecidableEq δ] in
theorem pairs_checkGap (h : s.Alike t) :
    Pairs (checkGap bar) s (checkGap bar) t fun _ s' _ t' => s = s' ∧ t = t' := by
  refine Pairs.onRaise (pairs_get_left (pairs_get_right ?_))
  rw [h.lastOpen]
  exact pairs_check fun _ => ⟨rfl, rfl⟩

theorem pairs_activate (h : s.Alike t) :
    Pairs (activate R bar) s (activate R bar) t fun _ s' _ t' => s'.Alike t' ∧ s'.store = s.store := by
  refine pairs_get_left (pairs_get_right ?_)
  rw [h.registry]
  refine Pairs.bind (P := fun u s' u' t' => u = u' ∧ s = s' ∧ t = t')
    (pairs_attempt ((Agree.refl _).mono fun _ _ heq => ⟨heq, rfl, rfl⟩)) ?_
  rintro steps _ _ _ ⟨rfl, rfl, rfl⟩
  rcases hstp : t.registry.steps steps with ⟨registry, failure⟩
  have hnext : ({ s with registry } : DataAuthority δ).Alike { t with registry } :=
    ⟨h.store, rfl, h.lastOpen, h.candidates⟩
  cases failure with
  | none => exact And.intro hnext rfl
  | some err => exact trivial

/-- `_admit`, with and without the rolling tail. -/
theorem pairs_admitBar (hsha : Function.Injective sha256) (h : s.Alike t) (hfive : a.bar.interval = .m5)
    (hcut : a.cut = none) (hsrv : Served SameCandleContents s.store cache) :
    Pairs (admitBar R sha256 market a finality (some cache)) s (admitBar R sha256 market a finality none) t
      fun r s' r' t' => r.1 = r'.1 ∧ s'.Alike t' ∧ Served SameCandleContents s'.store (r.2.getD cache) := by
  refine Pairs.bind (pairs_checkGap h) ?_
  rintro _ _ _ _ ⟨rfl, rfl⟩
  refine pairs_get_left (pairs_get_right ?_)
  rw [h.registry]
  refine Pairs.bind (P := fun u s' u' t' => u = u' ∧ s = s' ∧ t = t')
    (pairs_attempt ((Agree.refl _).mono fun _ _ heq => ⟨heq, rfl, rfl⟩)) ?_
  rintro binding _ _ _ ⟨rfl, rfl, rfl⟩
  rw [hcut]
  refine Pairs.bind ((pairs_admitRow hsha h hfive hsrv.of_mem_some).and_ends (served_admitRow hsha hfive hsrv)) ?_
  rintro ⟨inserted, next⟩ s₁ ⟨_, next'⟩ t₁ ⟨⟨rfl, h₁⟩, hsrv₁, -⟩
  cases inserted with
  | false => exact pairs_pure ⟨rfl, h₁, hsrv₁⟩
  | true =>
    refine Pairs.bind (pairs_activate h₁) ?_
    rintro _ s₂ _ t₂ ⟨h₂, hsto⟩
    refine pairs_pure ⟨rfl, h₂, ?_⟩
    rw [hsto]
    exact hsrv₁

/-! ### The plain loop -/

variable (R sha256) in
/-- Each bar by itself, with every window read from the table. -/
def admitEach (market : RegistryMarket) : List (Arrival δ) → DataCall δ (List (ClosedBar δ))
  | [] => pure []
  | a :: rest => do
    let s ← get
    let _ ← attempt ((R.pendingVersion s.registry).mapError .registry)
    let (admitted, _) ← admitBar R sha256 market a a.bar.provenanceHash none
    let bars ← admitEach market rest
    pure (admitted.toList ++ bars)

theorem admitEach_append (l l' : List (Arrival δ)) : admitEach R sha256 market (l ++ l')
    = admitEach R sha256 market l >>= fun bars => admitEach R sha256 market l' >>= fun bars' =>
      pure (bars ++ bars') := by
  induction l with
  | nil => simp [admitEach]
  | cons a l ih =>
    rw [List.cons_append, admitEach, admitEach, ih]
    simp only [bind_assoc, pure_bind, List.append_assoc]

/-- Where there is an active Registry an admission does not change it. -/
theorem activate_active {v : RegistryVersion} (h : R.active s.registry = .ok (some v)) :
    activate R bar s = .ok () s := by
  have hstp : R.applyAdmitted s.registry bar.receivedAt = .ok [] := by
    rw [RegistryRoot.applyAdmitted, h]
    rfl
  show (attempt ((R.applyAdmitted s.registry bar.receivedAt).mapError DataRouteError.registry) >>= _) s = _
  rw [hstp]
  rfl

section

variable (hsha : Function.Injective sha256)
include hsha

/-- A row of a batch, and a bar by itself. -/
theorem pairs_admitTransactional (h : s.Alike t)
    (hfive : a.bar.interval = .m5) (hcut : a.cut = none)
    (hsrv : Served SameCandleContents s.store cache)
    (hbind : bindingRegistry R s.registry market = .ok binding)
    (hact : R.active s.registry = .ok (some binding)) : Pairs (admitTransactional R sha256 a binding cache) s
      (admitBar R sha256 market a a.bar.provenanceHash none) t
      fun r s' r' t' => (if r.1 then some a.bar else none) = r'.1 ∧ s'.Alike t'
        ∧ Served SameCandleContents s'.store (r.2.getD cache) ∧ s'.registry = s.registry := by
  refine Pairs.bind (pairs_checkGap h) ?_
  rintro _ _ _ _ ⟨rfl, rfl⟩
  refine pairs_get_right ?_
  rw [← h.registry, hbind, hcut]
  refine pairs_ok_right ?_
  rw [← bind_pure (admitRow R sha256 a.bar binding a.bar.provenanceHash (some cache) none)]
  refine Pairs.bind ((pairs_admitRow hsha h hfive hsrv.of_mem_some).and_ends (served_admitRow hsha hfive hsrv)) ?_
  rintro ⟨inserted, next⟩ s₁ ⟨_, next'⟩ t₁ ⟨⟨rfl, h₁⟩, hsrv₁, hreg⟩
  cases inserted with
  | false => exact pairs_pure ⟨rfl, h₁, hsrv₁, hreg⟩
  | true =>
    -- the Registry is active, so the activation does nothing
    have hact₁ : R.active t₁.registry = .ok (some binding) := by
      rw [← h₁.registry, hreg]
      exact hact
    show Agree _ (outcome (activate R a.bar >>= fun _ => pure (some a.bar, next')) t₁) _
    rw [outcome_bind, outcome_eq_ok.mpr (activate_active hact₁)]
    exact ⟨rfl, h₁, hsrv₁, hreg⟩

/-- The rows of a batch, and bars by themselves. -/
theorem pairs_admitRows
    {arrivals : List (Arrival δ)} (hfives : ∀ a ∈ arrivals, a.bar.interval = .m5 ∧ a.cut = none) :
    ∀ (s t : DataAuthority δ) (cache : WindowCache δ), s.Alike t →
      Served SameCandleContents s.store cache → R.pendingVersion s.registry = .ok none →
      bindingRegistry R s.registry market = .ok binding → R.active s.registry = .ok (some binding) →
      Pairs (admitRows R sha256 binding arrivals cache) s (admitEach R sha256 market arrivals) t
        fun r s' bars t' => r.1 = bars ∧ s'.Alike t' ∧ Served SameCandleContents s'.store r.2 := by
  induction arrivals with
  | nil => exact fun _ _ _ h hsrv _ _ _ => pairs_pure ⟨rfl, h, hsrv⟩
  | cons a rest ih =>
    intro s t cache h hsrv hpend hbind hact
    obtain ⟨hfive, hcut⟩ := hfives a (.head _)
    have ih := ih fun b hb => hfives b (.tail _ hb)
    refine pairs_get_right ?_
    rw [← h.registry, hpend]
    show Pairs (admitTransactional R sha256 a binding cache >>= fun r =>
        admitRows R sha256 binding rest (r.2.getD cache) >>= fun r' =>
        pure (if r.1 then a.bar :: r'.1 else r'.1, r'.2)) s
      (admitBar R sha256 market a a.bar.provenanceHash none >>= fun r =>
        admitEach R sha256 market rest >>= fun bars => pure (r.1.toList ++ bars)) t _
    refine Pairs.bind (pairs_admitTransactional hsha h hfive hcut hsrv hbind hact) ?_
    rintro ⟨inserted, next⟩ s₁ ⟨admitted, next'⟩ t₁ ⟨rfl, h₁, hsrv₁, hreg⟩
    rw [← hreg] at hpend hbind hact
    refine Pairs.bind (ih _ _ _ h₁ hsrv₁ hpend hbind hact) ?_
    rintro ⟨bars, last⟩ s₂ _ t₂ ⟨rfl, h₂, hsrv₂⟩
    refine pairs_pure ⟨?_, h₂, hsrv₂⟩
    cases inserted with
    | false => rfl
    | true => rfl

/-- A batch, and bars by themselves. -/
theorem pairs_admitHistoryBatch (h : s.Alike t) {arrivals : List (Arrival δ)} (hne : arrivals ≠ [])
    (hfives : ∀ a ∈ arrivals, a.bar.interval = .m5 ∧ a.cut = none)
    (hmkts : ∀ a ∈ arrivals, a.bar.marketId = market.marketId)
    (hsrv : Served SameCandleContents s.store cache) (hpend : R.pendingVersion s.registry = .ok none) :
    Pairs (admitHistoryBatch R sha256 market arrivals cache) s (admitEach R sha256 market arrivals) t
      fun r s' bars t' => r.1 = bars ∧ s'.Alike t' ∧ Served SameCandleContents s'.store r.2 := by
  rw [← bind_pure (admitEach R sha256 market arrivals)]
  refine Pairs.bind (P := fun r s' bars t' => (r.1 = bars ∧ s'.Alike t'
    ∧ Served SameCandleContents s'.store r.2) ∧ ∃ v, R.active s'.registry = .ok (some v)) ?_ ?_
  · refine Pairs.onRaise_left (pairs_get_left ?_)
    rcases hbind : bindingRegistry R s.registry market with err | binding
    · -- no binding: the first bar by itself raises as well
      cases arrivals with
      | nil => exact absurd rfl hne
      | cons a rest =>
        refine pairs_of_raises ?_ ?_
        · exact trivial
        · rw [admitEach, ends_bind, ends_get, ends_bind, ends_attempt, ← h.registry, hpend]
          rw [ends_bind, admitBar, ends_bind]
          refine checkGap_rule (fun _ => ?_) trivial
          rw [ends_bind, ends_get, ← h.registry, hbind]
          exact trivial
    · have hact := active_of_binding hpend hbind
      refine pairs_ok_left (pairs_get_left (Pairs.onRaise_left ?_))
      have hmkt : ∀ a ∈ arrivals, a.bar.marketId = market.marketId ∧ a.bar.interval = .m5 :=
        fun a ha => ⟨hmkts a ha, (hfives a ha).1⟩
      refine ((pairs_admitRows hsha hfives s t cache h hsrv hpend hbind hact).and_ends
        (admitRows_frame hmkt cache s)).mono ?_
      rintro r s₁ bars t₁ ⟨h₁, hfrm⟩
      refine ⟨h₁, binding, ?_⟩
      rw [hfrm.registry]
      exact hact
  · rintro ⟨bars, last⟩ s₁ _ t₁ ⟨⟨rfl, h₁, hsrv₁⟩, v, hact⟩
    refine pairs_get_left ?_
    rw [hact]
    exact pairs_pure ⟨rfl, h₁, hsrv₁⟩

/-- **The loop of a call, and bars by themselves.** -/
theorem pairs_admitLoop (arrivals : List (Arrival δ))
    (hfives : ∀ a ∈ arrivals, a.bar.interval = .m5 ∧ a.cut = none)
    (hmkts : ∀ a ∈ arrivals, a.bar.marketId = market.marketId) :
    ∀ (s t : DataAuthority δ) (cache : WindowCache δ), s.Alike t → Served SameCandleContents s.store cache →
      Pairs (admitLoop R sha256 market arrivals cache) s (admitEach R sha256 market arrivals) t
        fun bars s' bars' t' => bars = bars' ∧ s'.Alike t' := by
  induction hn : arrivals.length using Nat.strong_induction_on generalizing arrivals with
  | _ n ih =>
    intro s t cache h hsrv
    cases arrivals with
    | nil =>
      rw [admitLoop]
      exact pairs_pure ⟨rfl, h⟩
    | cons a rest =>
      rcases hpend : R.pendingVersion s.registry with err | - | version
      · refine pairs_of_raises ?_ ?_
        · rw [admitLoop, ends_bind, ends_get, hpend]
          exact trivial
        · rw [admitEach, ends_bind, ends_get, ← h.registry, hpend]
          exact trivial
      · -- a batch
        have htake : (a :: rest).take historyBatchBars ≠ [] := by
          exact List.cons_ne_nil _ _
        have hlen : ((a :: rest).drop historyBatchBars).length < n := by
          rw [← hn, List.length_drop, historyBatchBars, List.length_cons]
          omega
        rw [admitLoop]
        refine pairs_get_left ?_
        rw [hpend, ← List.take_append_drop historyBatchBars (a :: rest), admitEach_append,
          List.take_append_drop]
        show Pairs (admitHistoryBatch R sha256 market ((a :: rest).take historyBatchBars) cache
          >>= fun r => admitLoop R sha256 market ((a :: rest).drop historyBatchBars) r.2
          >>= fun bars => pure (r.1 ++ bars)) s _ t _
        refine Pairs.bind (pairs_admitHistoryBatch hsha h htake
          (fun b hb => hfives b (List.mem_of_mem_take hb)) (fun b hb => hmkts b (List.mem_of_mem_take hb))
          hsrv hpend) ?_
        rintro ⟨bars, next⟩ s₁ _ t₁ ⟨rfl, h₁, hsrv₁⟩
        refine Pairs.bind (ih _ hlen _ (fun b hb => hfives b (List.mem_of_mem_drop hb))
          (fun b hb => hmkts b (List.mem_of_mem_drop hb)) rfl s₁ t₁ next h₁ hsrv₁) ?_
        rintro bars' s₂ _ t₂ ⟨rfl, h₂⟩
        exact pairs_pure ⟨rfl, h₂⟩
      · have hlen : rest.length < n := by
          rw [← hn]
          exact Nat.lt_succ_self _
        obtain ⟨hfive, hcut⟩ := hfives a (.head _)
        rw [admitLoop]
        refine pairs_get_left (pairs_get_right ?_)
        rw [← h.registry, hpend]
        show Pairs (admitBar R sha256 market a a.bar.provenanceHash (some cache)
            >>= fun r => admitLoop R sha256 market rest (r.2.getD cache)
            >>= fun bars => pure (r.1.toList ++ bars)) s
          (admitBar R sha256 market a a.bar.provenanceHash none
            >>= fun r => admitEach R sha256 market rest >>= fun bars => pure (r.1.toList ++ bars)) t _
        refine Pairs.bind (pairs_admitBar hsha h hfive hcut hsrv) ?_
        rintro ⟨admitted, next⟩ s₁ ⟨_, next'⟩ t₁ ⟨rfl, h₁, hsrv₁⟩
        refine Pairs.bind (ih _ hlen _ (fun b hb => hfives b (.tail _ hb))
          (fun b hb => hmkts b (.tail _ hb)) rfl s₁ t₁ _ h₁ hsrv₁) ?_
        rintro bars s₂ _ t₂ ⟨rfl, h₂⟩
        exact pairs_pure ⟨rfl, h₂⟩

end

end DataAuthority

end TraderAssist
