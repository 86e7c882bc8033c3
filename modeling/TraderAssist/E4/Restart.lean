/-
TraderAssist/E4/Restart.lean

Runs of the projection: admitted events are appended to the log and offered to it, and the
Registry changes in between.

An event that `accept` refuses only marks its market as failed while the process runs, but the
constructor of the next process does not catch the error, and reads the whole log under the
Registry of its own time.  `projection_survives_restart`: a new projection is built and has the
5m rows of the running one, with their bindings, if the log is `Replayable`.
-/
import TraderAssist.E4.Replay

namespace TraderAssist.E4

open Py

variable {δ : Type} [DecidableEq δ] {c : TruthConfig δ} {R : RegistryRoot δ} {d : RegistryDisk δ}

/-! ### A running projection -/

/-- A projection that runs: it has the newest of the first bars, and no bars but first ones. -/
structure Live (c : TruthConfig δ) (R : RegistryRoot δ) (log : List (AdmittedEvent δ)) (firsts : Firsts δ)
    (p : Projection δ) : Prop where
  last : p.lastOrdinal = 0 ∨ ∃ e ∈ log, p.lastOrdinal = e.admissionOrdinal
  hashes : ∀ hash, p.events.has hash = true → ∃ e ∈ log, hash = c.admissionHash e
  slots : ∀ m t e, p.barEvents.get? (m, .m5, t) = some e → firsts.has (m, t) = true
  rows : ∀ m t row, p.store.row? (m, .m5, t) = some row → firsts.has (m, t) = true
  kept : ∀ m t, firsts.Retained m t → p.barEvents.get? (m, .m5, t) = (firsts.get? (m, t)).map Prod.fst
    ∧ p.store.row? (m, .m5, t) = (firsts.get? (m, t)).bind (rowOf? c R)

/-- The references of the first bars. -/
def RefersTo (c : TruthConfig δ) (R : RegistryRoot δ) (firsts : Firsts δ)
    (refs : Dict (Text × ℕ) (MarketBarReference δ)) : Prop :=
  ∀ m t, refs.get? (m, t) = (firsts.get? (m, t)).map (referenceOf c R t)

section Live

variable {log : List (AdmittedEvent δ)} {firsts : Firsts δ} {p p' : Projection δ} {e : AdmittedEvent δ}

/-- Nothing changes but depth, minutes, failed markets and events that are forgotten. -/
structure Quiet (s s' : TruthState δ) : Prop where
  references : s'.references = s.references
  barEvents : s'.projection.barEvents = s.projection.barEvents
  store : s'.projection.store = s.projection.store
  lastOrdinal : s'.projection.lastOrdinal = s.projection.lastOrdinal
  events : ∀ hash, s'.projection.events.has hash = true → s.projection.events.has hash = true

theorem Quiet.refl (s : TruthState δ) : Quiet s s := ⟨rfl, rfl, rfl, rfl, fun _ h => h⟩

instance : Std.Refl (Quiet (δ := δ)) := ⟨Quiet.refl⟩

instance : IsTrans (TruthState δ) Quiet :=
  ⟨fun _ _ _ h h' => ⟨h'.references.trans h.references, h'.barEvents.trans h.barEvents, h'.store.trans h.store,
    h'.lastOrdinal.trans h.lastOrdinal, fun hash hhas => h.events hash (h'.events hash hhas)⟩⟩

theorem Live.quiet {s s' : TruthState δ} (h : Live c R log firsts s.projection) (hqt : Quiet s s') :
    Live c R log firsts s'.projection := by
  refine ⟨?_, fun hash hhas => h.hashes hash (hqt.events hash hhas), ?_, ?_, ?_⟩
  · rw [hqt.lastOrdinal]
    exact h.last
  · rw [hqt.barEvents]
    exact h.slots
  · rw [hqt.store]
    exact h.rows
  · rw [hqt.barEvents, hqt.store]
    exact h.kept

theorem quiet_erase (s : TruthState δ) (hash : δ) (depth : Dict Text (AdmittedEvent δ)) :
    Quiet s { s with projection :=
      { s.projection with events := s.projection.events.erase hash, depth := depth } } := by
  refine ⟨rfl, rfl, rfl, rfl, fun hash' hhas => ?_⟩
  obtain ⟨e, he⟩ := Dict.has_eq_true.mp hhas
  rw [Dict.get?_erase] at he
  split at he
  · cases he
  · exact Dict.has_eq_true.mpr ⟨e, he⟩

/-- A depth snapshot does nothing to bars, whether it is taken or refused. -/
theorem quiet_acceptDepthEvent (s : TruthState δ) : Keeps Quiet (acceptDepthEvent c e) s := by
  have hdepth : ∀ s : TruthState δ, Keeps Quiet (acceptDepth c e) s := by
    intro s
    unfold acceptDepth
    split
    · exact keeps_pure _
    · refine keeps_attempt_bind fun _ => keeps_get_bind ?_
      rcases s.projection.depth.get? e.source.marketId with - | prior
      · exact ⟨rfl, rfl, rfl, rfl, fun _ h => h⟩
      · dsimp only
        split
        · exact ⟨rfl, rfl, rfl, rfl, fun _ h => h⟩
        · split
          · exact quiet_erase s _ _
          · exact keeps_pure _
  unfold acceptDepthEvent Keeps
  rw [ends_bind, ends_onRaise]
  refine (hdepth s).mono (fun _ s' hs' => ?_) fun _ s' hs' => ?_
  · rw [modifyProjection, ends_modify]
    split
    · exact hs'
    · exact IsTrans.trans _ _ _ hs' (quiet_erase s' _ _)
  · exact IsTrans.trans _ _ _ hs' (quiet_erase s' _ _)

section

variable (h : Live c R log firsts p)
include h

theorem Live.noted (hlast : p.lastOrdinal < e.admissionOrdinal) :
    Live c R (log ++ [e]) firsts (p.noted c e) :=
  { h with
    last := .inr ⟨e, by simp, max_eq_right hlast.le⟩
    hashes hash hhas := by
      obtain ⟨a, ha, hhash⟩ := h.hashes hash hhas
      exact ⟨a, List.mem_append_left _ ha, hhash⟩ }

theorem Live.indexed (hlast : p.lastOrdinal < e.admissionOrdinal) :
    Live c R (log ++ [e]) firsts (p.indexed c e) :=
  { h with last := .inr ⟨e, by simp, max_eq_right hlast.le⟩, hashes := hashes_indexed h.hashes }

/-- **Pruning keeps the newest.** -/
theorem Live.prune : Live c R log firsts (p.prune c) := by
  have hprun := Projection.pruned_prune (c := c) p
  have hcases : ∀ m t, ((p.prune c).barEvents.get? (m, .m5, t) = none ∧ (p.prune c).store.row? (m, .m5, t) = none)
      ∨ (p.prune c).barEvents.get? (m, .m5, t) = p.barEvents.get? (m, .m5, t)
        ∧ (p.prune c).store.row? (m, .m5, t) = p.store.row? (m, .m5, t) := by
    intro m t
    by_cases hcut : p.Cut m .m5 t
    · exact .inl (hprun.cut m t (Projection.mem_markets_of_cut hcut) hcut)
    · exact .inr (hprun.kept m t fun h => hcut h.2)
  refine ⟨?_, fun hash hhas => ?_, fun m t e he => ?_, fun m t row hrow => ?_, fun m t hret => ?_⟩
  · rw [hprun.lastOrdinal]
    exact h.last
  · obtain ⟨e, he⟩ := Dict.has_eq_true.mp hhas
    exact h.hashes hash (Dict.has_eq_true.mpr ⟨e, hprun.events hash e he⟩)
  · rcases hcases m t with hnone | hsame
    · rw [hnone.1] at he
      cases he
    · exact h.slots m t e (hsame.1 ▸ he)
  · rcases hcases m t with hnone | hsame
    · rw [hnone.2] at hrow
      cases hrow
    · exact h.rows m t row (hsame.2 ▸ hrow)
  · -- a bar that is among the newest of all first bars is so among those that are there
    have hnew : Newest maxBars (p.opens m .m5) t := by
      refine Newest.of_subset hret (Projection.opens_sorted.imp fun hlt => hlt.ne) fun x hx => ?_
      obtain ⟨e, he⟩ := Projection.mem_opens.mp hx
      exact Firsts.mem_opens.mpr (h.slots m x e he)
    have hkept := hprun.kept m t fun hcut => Projection.not_cut_of_newest hnew hcut.2
    exact ⟨hkept.1.trans (h.kept m t hret).1, hkept.2.trans (h.kept m t hret).2⟩

/-- A 1m bar gets its slot. -/
theorem Live.setMinute (m : Text) (t : ℕ)
    (oneMinute : Dict (Text × ℕ) OneMinuteBar) :
    Live c R log firsts
      { p with barEvents := p.barEvents.set (m, .m1, t) e, oneMinute := oneMinute } := by
  have hsame : ∀ m' t', (p.barEvents.set (m, .m1, t) e).get? (m', .m5, t') = p.barEvents.get? (m', .m5, t') :=
    fun m' t' => Dict.get?_set_ne (by simp)
  refine ⟨h.last, h.hashes, fun m' t' a ha => ?_, h.rows, fun m' t' hret => ?_⟩
  · exact h.slots m' t' a ((hsame m' t').symm.trans ha)
  · exact ⟨(hsame m' t').trans (h.kept m' t' hret).1, (h.kept m' t' hret).2⟩

/-- Aggregates are no 5m rows. -/
theorem Live.aggregated {bar : ClosedBar δ} {interval : Interval}
    (hiv : interval ≠ .m5) {store : ClosedBarStore δ} (hput : AggregatePut bar interval p.store store) :
    Live c R log firsts { p with store := store } := by
  have hsame : ∀ m t, store.row? (m, .m5, t) = p.store.row? (m, .m5, t) := by
    intro m t
    rcases hput (m, .m5, t) with h | ⟨hkey, -⟩
    · exact h
    · exact absurd (congrArg (fun k => k.2.1) hkey).symm hiv
  refine ⟨h.last, h.hashes, h.slots, fun m t row hrow => h.rows m t row ((hsame m t) ▸ hrow), fun m t hret => ?_⟩
  exact ⟨(h.kept m t hret).1, (hsame m t).trans (h.kept m t hret).2⟩

/-- A 5m bar gets its slot, and its row unless it is not among the newest. -/
theorem Live.setFive {key : Text × ℕ} {firsts' : Firsts δ} {store : ClosedBarStore δ}
    (hhas : firsts'.has key = true) (hfirsts : ∀ k, k ≠ key → firsts'.get? k = firsts.get? k)
    (hret : ∀ m t, firsts'.Retained m t → firsts.Retained m t)
    (hrows : ∀ k, k ≠ key → store.row? (k.1, .m5, k.2) = p.store.row? (k.1, .m5, k.2))
    (hkept : firsts'.Retained key.1 key.2 → ∃ v row, firsts'.get? key = some (e, v)
      ∧ rowOf? c R (e, v) = some row ∧ store.row? (key.1, .m5, key.2) = some row) :
    Live c R log firsts'
      { p with barEvents := p.barEvents.set (key.1, .m5, key.2) e, store := store } := by
  have hmono : ∀ k, firsts.has k = true → firsts'.has k = true := by
    intro k hk
    by_cases hkey : k = key
    · exact hkey ▸ hhas
    · rw [Dict.has_eq_true] at hk ⊢
      rw [hfirsts k hkey]
      exact hk
  have hslot : ∀ m t, (m, t) ≠ key →
      (p.barEvents.set (key.1, .m5, key.2) e).get? (m, .m5, t) = p.barEvents.get? (m, .m5, t) := by
    intro m t hne
    refine Dict.get?_set_ne fun heq => hne ?_
    obtain ⟨hm, ht⟩ : key.1 = m ∧ key.2 = t := by simpa using heq
    exact Prod.ext hm.symm ht.symm
  refine ⟨h.last, h.hashes, fun m t a ha => ?_, fun m t row hrow => ?_, fun m t hnew => ?_⟩
  · by_cases hkey : (m, t) = key
    · exact hkey ▸ hhas
    · exact hmono _ (h.slots m t a ((hslot m t hkey).symm.trans ha))
  · by_cases hkey : (m, t) = key
    · exact hkey ▸ hhas
    · exact hmono _ (h.rows m t row ((hrows (m, t) hkey).symm.trans hrow))
  · by_cases hkey : (m, t) = key
    · obtain rfl : m = key.1 := congrArg Prod.fst hkey
      obtain rfl : t = key.2 := congrArg Prod.snd hkey
      obtain ⟨v, row, hget, hof, hrow⟩ := hkept hnew
      rw [show firsts'.get? (key.1, key.2) = some (e, v) from hget]
      exact ⟨Dict.get?_set_self, hrow.trans hof.symm⟩
    · have hold := h.kept m t (hret m t hnew)
      rw [hfirsts _ hkey]
      exact ⟨(hslot m t hkey).trans hold.1, (hrows (m, t) hkey).trans hold.2⟩

end

end Live

/-! ### Accepting while it runs -/

/-- A projection that runs, and the references of its evidence store. -/
def Running (c : TruthConfig δ) (R : RegistryRoot δ) (log : List (AdmittedEvent δ)) (firsts : Firsts δ)
    (s : TruthState δ) : Prop :=
  Live c R log firsts s.projection ∧ RefersTo c R firsts s.references

section Running

variable {log : List (AdmittedEvent δ)} {firsts : Firsts δ} {s : TruthState δ} {e : AdmittedEvent δ}

section

variable (h : Running c R log firsts s)
include h

theorem Running.quiet {s' : TruthState δ} (hqt : Quiet s s') : Running c R log firsts s' :=
  ⟨h.1.quiet hqt, hqt.references ▸ h.2⟩

/-- The aggregates of a bar and the pruning after it, whether or not an aggregate conflicts. -/
theorem Running.finish {α : Type} (v : RegistryVersion) (bar : ClosedBar δ) (a : α) :
    Ends (do
        putAggregate c R v bar .m15
        putAggregate c R v bar .h1
        pruneLive c false
        pure a) s
      (fun _ s' => Running c R log firsts s') fun _ s' => Running c R log firsts s' := by
  rw [ends_bind]
  refine ends_putAggregate (fun store₁ hput₁ => ?_) fun _ _ => h
  have h₁ : Running c R log firsts (s.withStore store₁) := ⟨h.1.aggregated (by decide) hput₁, h.2⟩
  rw [ends_bind]
  refine ends_putAggregate (fun store₂ hput₂ => ?_) fun _ _ => h₁
  have h₂ : Running c R log firsts ((s.withStore store₁).withStore store₂) :=
    ⟨h₁.1.aggregated (by decide) hput₂, h₁.2⟩
  exact ⟨h₂.1.prune, h₂.2⟩

/-- **A 5m bar whose slot is free.**  Its slot may be one that was pruned: then the reference is
there, and the bar leaves nothing that is retained. -/
theorem Running.acceptFive {f : BarFacts} {bar : ClosedBar δ} {v : RegistryVersion}
    (hfct : barFacts e.source = .ok f) (hbar : closedBar? c e f = some bar)
    (hfive : five? e = some (e.source.marketId, f.openMs)) (hord : e.outOfOrder = false)
    (hbnd : boundRegistry c R d e.source.marketId = .ok v)
    (hfree : s.projection.barEvents.get? (e.source.marketId, .m5, f.openMs) = none) :
    Ends (acceptFive c R d false e f) { s with projection :=
        { s.projection with barEvents := s.projection.barEvents.set (e.source.marketId, .m5, f.openMs) e } }
      (fun _ s' => Running c R log (firsts.add c R (e, d)) s')
      fun _ s' => Running c R log (firsts.add c R (e, d)) s' := by
  have hkey : (evidenceRow R bar v (c.admissionHash e)).bar.key = (e.source.marketId, .m5, f.openMs) :=
    closedBar?_key hbar
  have hoths : ∀ store : ClosedBarStore δ,
      store.rows = s.projection.store.rows ++ [evidenceRow R bar v (c.admissionHash e)] →
      s.projection.store.row? (e.source.marketId, .m5, f.openMs) = none →
      ∀ k, k ≠ (e.source.marketId, f.openMs) →
        store.row? (k.1, .m5, k.2) = s.projection.store.row? (k.1, .m5, k.2) := by
    intro store hrows hnone k hk
    rw [MemoryBarStore.row?_append hrows (hkey ▸ hnone), hkey]
    refine if_neg fun heq => hk ?_
    simp only [Prod.mk.injEq, true_and] at heq
    exact Prod.ext heq.1.symm heq.2.symm
  unfold E4.acceptFive
  rw [ends_bind, ends_attempt, hbnd]
  show Ends _ _ _ _
  rw [hbar]
  rw [ends_bind]
  rcases hfst : firsts.get? (e.source.marketId, f.openMs) with - | first
  · -- the first bar of its slot
    rw [Firsts.add_new hfive hbnd hord hfst]
    have hnone : s.projection.store.row? (e.source.marketId, .m5, f.openMs) = none := by
      rcases hrow : s.projection.store.row? (e.source.marketId, .m5, f.openMs) with - | row
      · rfl
      · obtain ⟨first, hhas⟩ := Dict.has_eq_true.mp (h.1.rows _ _ row hrow)
        rw [hfst] at hhas
        cases hhas
    refine ends_putRow_new (hkey ▸ hnone) fun store hrows => ?_
    rw [if_neg (by decide), ends_bind]
    unfold writeReference
    rw [ends_bind, ends_get]
    have hnoRef : s.references.get? (e.source.marketId, f.openMs) = none := by
      rw [h.2, hfst]
      rfl
    simp only [reference, TruthState.withStore, hnoRef]
    rw [ends_modify]
    refine Running.finish ⟨?_, fun m t => ?_⟩ v bar _
    · refine h.1.setFive (Dict.has_eq_true.mpr ⟨_, Dict.get?_set_self⟩) (fun k hk => Dict.get?_set_ne hk.symm)
        (fun m t hnew => hnew.of_set) (hoths store hrows hnone) fun _ =>
        ⟨v, _, Dict.get?_set_self, rowOf?_eq hfct hbar, ?_⟩
      rw [MemoryBarStore.row?_append hrows (hkey ▸ hnone), hkey, if_pos rfl]
    · rw [Dict.get?_set, Dict.get?_set]
      split
      · rename_i heq
        obtain ⟨rfl, rfl⟩ := Prod.mk.inj heq
        rfl
      · exact h.2 m t
  · -- a later bar of a slot that is no longer retained
    rw [Firsts.add_of_has hfive (Dict.has_eq_true.mpr ⟨first, hfst⟩)]
    have hstale : ¬ firsts.Retained e.source.marketId f.openMs := by
      intro hnew
      have hkept := (h.1.kept _ _ hnew).1
      rw [hfree, hfst] at hkept
      cases hkept
    have hset : ∀ store : ClosedBarStore δ, (∀ k, k ≠ (e.source.marketId, f.openMs) →
          store.row? (k.1, .m5, k.2) = s.projection.store.row? (k.1, .m5, k.2)) →
        Running c R log firsts { s with projection := { s.projection with
          barEvents := s.projection.barEvents.set (e.source.marketId, .m5, f.openMs) e
          store := store } } := fun store hrows =>
      ⟨h.1.setFive (Dict.has_eq_true.mpr ⟨first, hfst⟩) (fun _ _ => rfl) (fun _ _ hnew => hnew) hrows
        fun hnew => absurd hnew hstale, h.2⟩
    have hrest : ∀ s', Running c R log firsts s' → s'.references = s.references →
        Ends (do
          writeReference (reference c e f.openMs v.version (R.content v))
          putAggregate c R v bar .m15
          putAggregate c R v bar .h1
          pruneLive c false
          pure (if e.outOfOrder = true then none else some BarInterval.m5)) s'
          (fun _ s' => Running c R log firsts s') fun _ s' => Running c R log firsts s' := by
      intro s' hrun hsame
      unfold writeReference
      rw [ends_bind, ends_bind, ends_get]
      split
      · rw [ends_check]
        exact ⟨fun _ => hrun.finish v bar _, fun _ => hrun⟩
      · rename_i hnoRef
        have href := h.2 e.source.marketId f.openMs
        rw [hfst, ← hsame, show s'.references.get? (e.source.marketId, f.openMs) = none from hnoRef] at href
        cases href
    refine ends_putRow (fun hnone store hrows => hrest _ (hset store (hoths store hrows (hkey ▸ hnone))) rfl)
      (fun _ => hrest _ (hset _ fun _ _ => rfl) rfl) fun _ => hset _ fun _ _ => rfl

variable {D : RegistryDisk δ}

/-- **A bar**, under a Registry that treats its market as the one of the next constructor
does. -/
theorem Running.acceptBar (hkind : e.source.dataKind = .bar)
    (hacc : Acceptable c R D e) (hali : Alike c R D (e, d)) :
    Ends (acceptBar c R d false e) s (fun _ s' => Running c R log (firsts.add c R (e, d)) s')
      fun _ s' => Running c R log (firsts.add c R (e, d)) s' := by
  unfold E4.acceptBar
  rw [ends_bind, ends_attempt]
  rcases hvers : selectedVersions R d with err | versions
  · rw [Firsts.add_of_not_bound]
    · exact h
    · rintro ⟨v, hv⟩
      obtain ⟨versions, hok, -⟩ := selects_of_bound hv
      rw [hvers] at hok
      cases hok
  show Ends _ _ _ _
  split
  swap
  · rename_i hnot
    rw [Firsts.add_of_not_any hvers hnot]
    exact h
  rename_i hany
  have hsel : Selects R d e.source.marketId := ⟨versions, hvers, hany⟩
  have hbinds : (five? e).isSome = true → Binds c R d e.source.marketId ∧ Binds c R D e.source.marketId :=
    fun hfive => (hali hfive).resolve_right fun hnot => hnot.1 hsel
  rw [ends_bind, ends_attempt]
  rcases hfct : barFacts e.source with err | f
  · -- only a bar that is no 5m bar is refused here
    have hfive : five? e = none := by
      rcases hfive : five? e with - | key
      · rfl
      · obtain ⟨-, v, hv⟩ := hbinds (by rw [hfive]; rfl)
        obtain ⟨f, hf, -⟩ := hacc.bar hkind (selects_of_bound hv)
        rw [hfct] at hf
        cases hf
    rw [Firsts.add_of_not_five hfive]
    exact h
  show Ends _ _ _ _
  have hslot := slot?_of_facts hkind hfct
  unfold acceptSlot
  rw [ends_bind, ends_get]
  have hmin : f.interval = .m1 → firsts.add c R (e, d) = firsts := fun hiv =>
    Firsts.add_of_minute (hiv ▸ hslot)
  rcases hpri : s.projection.barEvents.get? (e.source.marketId, f.interval, f.openMs) with - | prior
  swap
  · -- the slot has its bar
    have hadd : firsts.add c R (e, d) = firsts := by
      cases hiv : f.interval with
      | m1 => exact hmin hiv
      | m5 =>
        rw [hiv] at hslot hpri
        exact Firsts.add_of_has (five?_eq_some.mpr hslot) (h.1.slots _ _ _ hpri)
    dsimp only
    rw [hadd]
    split
    · exact h
    · exact h.quiet ⟨rfl, rfl, rfl, rfl, fun _ hhas => hhas⟩
  dsimp only
  cases hiv : f.interval with
  | m1 =>
    rw [if_neg (by simp), hmin hiv, ends_bind, modifyProjection, ends_modify]
    dsimp only
    unfold acceptMinute
    split
    · exact ⟨h.1.setMinute _ _ _, h.2⟩
    · exact ⟨(h.1.setMinute _ _ _).prune, h.2⟩
  | m5 =>
    rw [hiv] at hslot hpri
    have hfive : five? e = some (e.source.marketId, f.openMs) := five?_eq_some.mpr hslot
    split
    · rename_i hord
      rw [Firsts.add_of_outOfOrder hord.2]
      exact h
    · rename_i hord
      have hord : e.outOfOrder = false := by simpa using hord
      obtain ⟨⟨v, hv⟩, w, hw⟩ := hbinds (by rw [hfive]; rfl)
      obtain ⟨f', hf', -, hclo⟩ := hacc.bar hkind (selects_of_bound hw)
      obtain rfl : f = f' := Except.ok.inj (hfct.symm.trans hf')
      obtain ⟨bar, hbar⟩ := Option.isSome_iff_exists.mp (hclo hiv hord)
      rw [ends_bind, modifyProjection, ends_modify]
      exact h.acceptFive hfct hbar hfive hord hv hpri

/-- **A running projection stays one**, whether it takes an event or refuses it. -/
theorem Running.accept (hacc : Acceptable c R D e)
    (hltr : ∀ a ∈ log, Compatible c R D a e) (hali : Alike c R D (e, d)) :
    Ends (accept c R d false e) s (fun _ s' => Running c R (log ++ [e]) (firsts.add c R (e, d)) s')
      fun _ s' => Running c R (log ++ [e]) (firsts.add c R (e, d)) s' := by
  refine ends_accept_later hacc hltr h.1.last h.1.hashes fun hlast => ?_
  unfold acceptNew
  rw [ends_bind, modifyProjection, ends_modify]
  have hidx : Running c R (log ++ [e]) firsts { s with projection := s.projection.indexed c e } :=
    ⟨h.1.indexed hlast, h.2⟩
  cases hkind : e.source.dataKind with
  | depth10 =>
    rw [Firsts.add_of_not_bar (by rw [hkind]; decide), ends_bind, modifyProjection, ends_modify, ends_bind]
    refine Ends.mono (quiet_acceptDepthEvent _) (fun _ s' hs' => ?_) fun _ s' hs' => hidx.quiet hs'
    exact hidx.quiet hs'
  | bar =>
    exact hidx.acceptBar hkind hacc hali
  | _ =>
    rw [Firsts.add_of_not_bar (by rw [hkind]; decide)]
    exact ⟨h.1.noted hlast, h.2⟩

end

end Running

/-! ### Runs -/

/-- A process over its log: the events that were offered, the Registry, and the projection with
its references. -/
structure TruthSystem (δ : Type) where
  offers : List (Offer δ) := []
  registry : RegistryDisk δ
  state : TruthState δ := {}

/-- What happens: an event is admitted, the Registry is changed in any way, or the process is
restarted. -/
inductive TruthEvent (δ : Type)
  | admitted (e : AdmittedEvent δ)
  | registry (d : RegistryDisk δ)
  | restart

namespace TruthSystem

variable (c : TruthConfig δ) (R : RegistryRoot δ)

/-- The log. -/
def log (s : TruthSystem δ) : EvidenceStore δ := { admissions := s.offers.map Prod.fst }

/-- What `run` does when `accept` raises. -/
def failMarket (s : TruthState δ) (marketId : Text) : TruthState δ :=
  { s with projection := { s.projection with failedMarkets := marketId :: s.projection.failedMarkets } }

def step (s : TruthSystem δ) : TruthEvent δ → TruthSystem δ
  | .admitted e =>
    { s with
      offers := s.offers ++ [(e, s.registry)]
      state := match accept c R s.registry false e s.state with
        | .ok _ state => state
        | .error _ state => failMarket state e.source.marketId }
  | .registry d => { s with registry := d }
  | .restart =>
    match construct c R s.registry s.log s.state with
    | .ok _ state => { s with state := state }
    | .error _ state => { s with state := state }

end TruthSystem

/-- The log can be replayed under the Registry of the moment. -/
def TruthSystem.Replays (c : TruthConfig δ) (R : RegistryRoot δ) (s : TruthSystem δ) : Prop :=
  Replayable c R s.registry s.offers

section Run

/-- A restart leaves log and Registry as they are. -/
theorem TruthSystem.step_restart (s : TruthSystem δ) :
    (s.step c R .restart).offers = s.offers ∧ (s.step c R .restart).registry = s.registry := by
  dsimp only [TruthSystem.step]
  rcases construct c R s.registry s.log s.state with ⟨a, state⟩ | ⟨err, state⟩ <;> exact ⟨rfl, rfl⟩

theorem running_empty : Running c R [] Dict.empty {} :=
  ⟨⟨.inl rfl, nofun, nofun, nofun,
    fun _ _ _ => ⟨rfl, rfl⟩⟩, fun _ _ => rfl⟩

theorem Replayable.of_prefix {offers rest : List (Offer δ)} (h : Replayable c R d (offers ++ rest)) :
    Replayable c R d offers where
  readable := h.readable
  events offer ho := h.events offer (List.mem_append_left _ ho)
  pairs := (List.pairwise_append.mp h.pairs).1
  alike offer ho := h.alike offer (List.mem_append_left _ ho)

theorem Settled.running {log : List (AdmittedEvent δ)} {firsts : Firsts δ} {s : TruthState δ}
    {refs : Dict (Text × ℕ) (MarketBarReference δ)} (h : Settled c R log firsts refs s)
    (hrefs : RefersTo c R firsts refs) : Running c R log firsts s := by
  have hcut : ∀ m t, firsts.has (m, t) = false →
      s.projection.barEvents.get? (m, .m5, t) = none ∧ s.projection.store.row? (m, .m5, t) = none := by
    intro m t hnot
    have hnone : firsts.get? (m, t) = none := by
      rcases hget : firsts.get? (m, t) with - | first
      · rfl
      · rw [Dict.has_eq_true.mpr ⟨first, hget⟩] at hnot
        cases hnot
    by_cases hret : firsts.Retained m t
    · have hkept := h.kept m t hret
      rw [hnone] at hkept
      exact hkept
    · exact h.cut m t hret
  refine ⟨⟨h.last, h.hashes, fun m t e he => ?_, fun m t row hrow => ?_, h.kept⟩, h.refs ▸ hrefs⟩
  · by_contra hnot
    rw [(hcut m t (by simpa using hnot)).1] at he
    cases he
  · by_contra hnot
    rw [(hcut m t (by simpa using hnot)).2] at hrow
    cases hrow

/-- **In every run** whose restarts find a log that can be replayed, the projection is one that
runs, up to the last moment at which the log could be. -/
theorem running_of_run {xs : List (TruthEvent δ)} (D : RegistryDisk δ)
    (hrun : Along (TruthSystem.step c R) (fun s x => x = .restart → s.Replays c R) ⟨[], D, {}⟩ xs) :
    let s := xs.foldl (TruthSystem.step c R) ⟨[], D, {}⟩
    (∃ d, Replayable c R d s.offers) →
      Running c R (s.offers.map Prod.fst) (Firsts.ofLog c R s.offers) s.state := by
  refine hrun.invariant (I := fun s => (∃ d, Replayable c R d s.offers) →
    Running c R (s.offers.map Prod.fst) (Firsts.ofLog c R s.offers) s.state) ?_ fun _ => running_empty
  rintro s (e | d | -) ih hcond
  · rintro ⟨d, hrepl⟩
    have hpfx : Replayable c R d s.offers := Replayable.of_prefix hrepl
    have hends := (ih ⟨d, hpfx⟩).accept (hrepl.events (e, s.registry) (by simp [TruthSystem.step]))
      (fun a ha => by
        obtain ⟨offer, hoff, rfl⟩ := List.mem_map.mp ha
        exact (List.pairwise_append.mp hrepl.pairs).2.2 offer hoff _ (List.mem_singleton_self _))
      (hrepl.alike (e, s.registry) (by simp [TruthSystem.step]))
    show Running c R ((s.offers ++ [(e, s.registry)]).map Prod.fst) (Firsts.ofLog c R (s.offers ++ [(e, s.registry)])) _
    rw [List.map_append, Firsts.ofLog_snoc]
    dsimp only [TruthSystem.step]
    rcases haccept : accept c R s.registry false e s.state with ⟨a, state⟩ | ⟨err, state⟩
    · exact hends.of_ok haccept
    · exact (hends.of_error haccept).quiet ⟨rfl, rfl, rfl, rfl, fun _ hhas => hhas⟩
  · exact ih
  · intro hrepl
    have hrunning := ih ⟨_, hcond rfl⟩
    have hends := (hcond rfl).constructs hrunning.2 (rfl : s.log.admissions = _)
    dsimp only [TruthSystem.step]
    rcases hcon : construct c R s.registry s.log s.state with ⟨a, state⟩ | ⟨err, state⟩
    · exact (hends.of_ok hcon).running hrunning.2
    · exact (hends.of_error hcon).elim

end Run

/-! ### Rows of the two projections -/

section Rows

variable {p : Projection δ} {m : Text}

omit [DecidableEq δ] in
theorem Projection.mem_rows5m {row : EvidenceRow δ} :
    row ∈ p.rows5m m ↔ p.store.row? (m, .m5, row.bar.openTimeMs) = some row := by
  unfold Projection.rows5m
  rw [mem_sortBy, List.mem_filter, decide_eq_true_eq, ClosedBarStore.row?_eq_some, ClosedBar.key]
  simp

omit [DecidableEq δ] in
theorem Projection.rows5m_sorted : (p.rows5m m).Pairwise fun a b => a.bar.openTimeMs < b.bar.openTimeMs := by
  have hnd : (p.rows5m m).Nodup :=
    (perm_sortBy _ _).nodup_iff.mpr ((List.Nodup.of_map _ p.store.keys_nodup).filter _)
  have hsrt : (p.rows5m m).Pairwise fun a b => a.bar.openTimeMs ≤ b.bar.openTimeMs := sortBy_sorted _ _
  refine (hsrt.and hnd).imp_of_mem fun {a b} ha hb hab => hab.1.lt_of_ne fun heq => hab.2 ?_
  rw [Projection.mem_rows5m] at ha hb
  rw [heq, hb] at ha
  exact (Option.some.inj ha).symm

omit [DecidableEq δ] in
theorem Projection.mem_rows5m_opens {t : ℕ} :
    t ∈ (p.rows5m m).map (fun row => row.bar.openTimeMs) ↔ ∃ row, p.store.row? (m, .m5, t) = some row := by
  rw [List.mem_map]
  constructor
  · rintro ⟨row, hrow, rfl⟩
    exact ⟨row, Projection.mem_rows5m.mp hrow⟩
  · rintro ⟨row, hrow⟩
    have hkey := MemoryBarStore.row?_key hrow
    obtain rfl : row.bar.openTimeMs = t := congrArg (fun k => k.2.2) hkey
    exact ⟨row, Projection.mem_rows5m.mpr hrow, rfl⟩

/-- Every first bar of a log that can be replayed has its row. -/
theorem Replayable.rowOf {offers : List (Offer δ)} (h : Replayable c R d offers) {key : Text × ℕ}
    {first : AdmittedEvent δ × RegistryVersion} (hfst : (Firsts.ofLog c R offers).get? key = some first) :
    ∃ row, rowOf? c R first = some row := by
  induction offers using List.reverseRecOn with
  | nil => cases hfst
  | append_singleton offers offer ih =>
    have hold := ih (Replayable.of_prefix h)
    obtain ⟨e, r⟩ := offer
    rw [Firsts.ofLog_snoc] at hfst
    unfold Firsts.add at hfst
    split at hfst
    swap
    · exact hold hfst
    rename_i slot v hfive hbnd
    split at hfst
    · exact hold hfst
    rename_i hnew
    rw [Dict.get?_set] at hfst
    split at hfst
    swap
    · exact hold hfst
    cases hfst
    -- the bar that was just taken
    have hord : e.outOfOrder = false := by
      cases ho : e.outOfOrder with
      | false => rfl
      | true => exact absurd (.inl ho) hnew
    have hslot := five?_eq_some.mp hfive
    obtain ⟨hkind, -⟩ := slot?_market hslot
    have hbinds := (h.alike (e, r) (by simp) (by simp [hfive])).resolve_right fun hnot =>
      hnot.1 (selects_of_bound hbnd)
    obtain ⟨w, hw⟩ := hbinds.2
    obtain ⟨f, hfct, -, hclo⟩ := (h.events (e, r) (by simp)).bar hkind (selects_of_bound hw)
    have hiv : f.interval = .m5 := by
      have hsame := hslot.symm.trans (slot?_of_facts hkind hfct)
      simp only [Option.some.injEq, Prod.mk.injEq] at hsame
      exact hsame.2.1.symm
    obtain ⟨bar, hbar⟩ := Option.isSome_iff_exists.mp (hclo hiv hord)
    exact ⟨_, rowOf?_eq hfct hbar⟩

/-- A new projection has the newest rows of the running one. -/
theorem Settled.rows5m {offers : List (Offer δ)} {refs : Dict (Text × ℕ) (MarketBarReference δ)}
    {s t : TruthState δ}
    (h : Settled c R (offers.map Prod.fst) (Firsts.ofLog c R offers) refs t)
    (hlive : Live c R (offers.map Prod.fst) (Firsts.ofLog c R offers) s.projection)
    (hrepl : Replayable c R d offers) (m : Text) :
    t.projection.rows5m m = lastN maxBars (s.projection.rows5m m) := by
  have hnd : ((s.projection.rows5m m).map fun row => row.bar.openTimeMs).Nodup :=
    (List.pairwise_map.mpr Projection.rows5m_sorted).imp fun hlt => hlt.ne
  -- the open times that are retained are the newest of the running projection
  have hnwst : ∀ o, Newest maxBars ((s.projection.rows5m m).map fun row => row.bar.openTimeMs) o
      ↔ (Firsts.ofLog c R offers).Retained m o := by
    intro o
    constructor
    · refine fun hnew => hnew.of_newest_mem (Firsts.opens_nodup m) fun x hx hret => ?_
      obtain ⟨first, hfst⟩ := Dict.has_eq_true.mp (Firsts.mem_opens.mp hx)
      obtain ⟨row, hrow⟩ := hrepl.rowOf hfst
      rw [Projection.mem_rows5m_opens, (hlive.kept m x hret).2, hfst]
      exact ⟨row, hrow⟩
    · refine fun hret => Newest.of_subset hret hnd fun x hx => ?_
      obtain ⟨row, hrow⟩ := Projection.mem_rows5m_opens.mp hx
      exact Firsts.mem_opens.mpr (hlive.rows m x row hrow)
  refine List.Pairwise.eq_of_mem_iff Projection.rows5m_sorted
    (Projection.rows5m_sorted.sublist (List.drop_sublist _ _)) fun row => ?_
  rw [mem_lastN_iff Projection.rows5m_sorted, Projection.mem_rows5m, Projection.mem_rows5m]
  constructor
  · intro hrow
    by_cases hret : (Firsts.ofLog c R offers).Retained m row.bar.openTimeMs
    · have hsame : s.projection.store.row? (m, .m5, row.bar.openTimeMs) = some row := by
        rw [(hlive.kept m _ hret).2, ← (h.kept m _ hret).2]
        exact hrow
      exact ⟨hsame, (hnwst _).mpr hret⟩
    · rw [(h.cut m _ hret).2] at hrow
      cases hrow
  · rintro ⟨hrow, hnew⟩
    have hret := (hnwst _).mp hnew
    rw [(h.kept m _ hret).2, ← (hlive.kept m _ hret).2]
    exact hrow

end Rows

/-- **The projection survives a restart**, in a run whose restarts find a log that can be
replayed: if the log can be replayed now, a new projection is built, no reference is added or
lost, and for every market it has the newest 5m rows of the running one, with their bindings. -/
theorem projection_survives_restart {xs : List (TruthEvent δ)}
    (hrun : Along (TruthSystem.step c R) (fun s x => x = .restart → s.Replays c R) ⟨[], D, {}⟩ xs)
    (hreplays : (xs.foldl (TruthSystem.step c R) ⟨[], D, {}⟩).Replays c R) :
    let s := xs.foldl (TruthSystem.step c R) ⟨[], D, {}⟩
    ∃ t, construct c R s.registry s.log s.state = .ok () t ∧ t.references = s.state.references
      ∧ ∀ m, t.projection.rows5m m = lastN maxBars (s.state.projection.rows5m m) := by
  intro s
  have hrunning := running_of_run D hrun ⟨_, hreplays⟩
  have hends := Replayable.constructs hreplays hrunning.2 (rfl : s.log.admissions = _)
  rcases hconstruct : construct c R s.registry s.log s.state with ⟨a, t⟩ | ⟨err, t⟩
  · have hsettled := hends.of_ok hconstruct
    exact ⟨t, rfl, hsettled.refs, fun m => hsettled.rows5m hrunning.1 hreplays m⟩
  · exact (hends.of_error hconstruct).elim

/-! ### A log that cannot be replayed, and one that can -/

namespace Sample

/-- The Registry of the samples. -/
def registry : RegistryRoot ℕ := sampleRegistry fun v => v.version.length

/-- A version with the market. -/
def listed : RegistryVersion :=
  sampleVersion [⟨['M'], [], ⟨['d'], ['c'], market⟩, .active, []⟩] (by decide) (by decide)

/-- The version is active. -/
def disk : RegistryDisk ℕ :=
  (Manager.run registry [(.stage listed fun _ => some true, none), (.requestApply listed.version, none),
    (.applyAdmitted listed.createdAt, none)]).disk

def truth : TruthConfig ℕ where
  expressions := [⟨market, ['e'], ['i'], ['n'], ['d'], ['c'], ['h']⟩]
  runId := ['r']
  admissionHash := AdmittedEvent.admissionOrdinal
  payloadHash := fun p => p.entries.length
  hexText := fun n => (toString n).toList
  receivedAt := fun _ => some listed.createdAt
  sha256 := fun _ => 0
  metadataHash := fun _ => ['h']
  decimals := fun _ => (2, 4)

/-- An event of the market in the log. -/
def admitted (source : SourceEvent) (ordinal : ℕ) : AdmittedEvent ℕ where
  processEpoch := ['p']
  continuityEpoch := ['c']
  admissionEpoch := ['a']
  admissionOrdinal := ordinal
  admissionTs := 1
  sourceIdentity := ordinal
  outOfOrder := false
  continuityState := .complete
  source := source

/-- A depth snapshot without levels. -/
def noLevels : AdmittedEvent ℕ := admitted (fact .depth10 (by decide) ['d']) 1

/-- A 5m bar from minute 5 to minute 10. -/
def fiveBar : AdmittedEvent ℕ :=
  admitted { bar ['b'] with
    eventContext := "5-MINUTE".toList
    tsEvent := 300000000000
    tsInit := 600000000000
    payload := ⟨[("close".toList, .scalar (.int 2)), ("finalized".toList, .scalar (.bool true)),
      ("high".toList, .scalar (.int 3)), ("low".toList, .scalar (.int 1)), ("open".toList, .scalar (.int 2)),
      ("volume".toList, .scalar (.int 7))], by decide⟩
    event_pos := by decide
    init_pos := by decide } 1

end Sample

/-- A depth snapshot without levels is refused and marks its market as failed, and from then on
no projection can be built. -/
theorem refused_depth_stops_construction :
    let s := [.admitted Sample.noLevels].foldl (TruthSystem.step Sample.truth Sample.registry) ⟨[], Sample.disk, {}⟩
    s.state.projection.failedMarkets = [Sample.market]
      ∧ ∃ t, construct Sample.truth Sample.registry s.registry s.log s.state = .error .depthLevels t :=
  ⟨rfl, _, rfl⟩

/-- A bar is admitted, the process is restarted, and the bar is there. -/
theorem projection_survives_restart_five :
    let s := [.admitted Sample.fiveBar, .restart].foldl (TruthSystem.step Sample.truth Sample.registry)
      ⟨[], Sample.disk, {}⟩
    (s.state.projection.rows5m Sample.market).length = 1
      ∧ ∃ t, construct Sample.truth Sample.registry s.registry s.log s.state = .ok () t
        ∧ t.references = s.state.references
        ∧ ∀ m, t.projection.rows5m m = lastN maxBars (s.state.projection.rows5m m) := by
  have hversions : selectedVersions Sample.registry Sample.disk = .ok [Sample.listed] := by decide +kernel
  have hbound : boundRegistry Sample.truth Sample.registry Sample.disk Sample.fiveBar.source.marketId
      = .ok Sample.listed := by decide +kernel
  have hreplays : Replayable Sample.truth Sample.registry Sample.disk [(Sample.fiveBar, Sample.disk)] := by
    refine ⟨⟨_, hversions⟩, ?_, List.pairwise_singleton _ _, ?_⟩
    · intro offer hoffer
      obtain rfl := List.mem_singleton.mp hoffer
      have hkind : Sample.fiveBar.source.dataKind = .bar := rfl
      refine ⟨by decide +kernel, by decide, fun h => absurd (hkind.symm.trans h) (by decide), fun _ _ => ?_⟩
      have hcheck : ((barFacts Sample.fiveBar.source).toOption.map fun f =>
          (f.interval, (closedBar? Sample.truth Sample.fiveBar f).isSome)) = some (.m5, true) := by
        decide +kernel
      obtain ⟨f, hfacts, hpair⟩ := Option.map_eq_some_iff.mp hcheck
      obtain ⟨hinterval, hclosed⟩ := Prod.mk.inj hpair
      refine ⟨f, toOption_eq_some.mp hfacts, fun h => ?_, fun _ _ => hclosed⟩
      rw [hinterval] at h
      cases h
    · intro offer hoffer
      obtain rfl := List.mem_singleton.mp hoffer
      exact fun _ => .inl ⟨⟨_, hbound⟩, _, hbound⟩
  have hrestarted : ([.admitted Sample.fiveBar, .restart].foldl (TruthSystem.step Sample.truth Sample.registry)
      ⟨[], Sample.disk, {}⟩).Replays Sample.truth Sample.registry := by
    unfold TruthSystem.Replays
    rw [List.foldl_cons, List.foldl_cons, List.foldl_nil, (TruthSystem.step_restart _).1,
      (TruthSystem.step_restart _).2]
    exact hreplays
  exact ⟨by decide +kernel,
    projection_survives_restart ⟨fun h => (by cases h), fun _ => hreplays, trivial⟩ hrestarted⟩

end TraderAssist.E4
